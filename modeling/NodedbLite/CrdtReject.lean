import NodedbLite.SortedMap

/-! What a rejection does to the CRDT engine's delta queue and documents. A collection's document is
the shared CRDT crate's; the engine sees it through `DocApi`. -/
namespace NodedbLite.Crdt

/-- A row mutation that a rejection makes. -/
inductive RowMutation (Value : Type)
  | upsert (fields : List (String × Value))
  | delete

/-- A collection's document as rejections use it. Every mutator commits on return, on success and on
error, so each gives back the document beside its outcome. -/
structure DocApi (Doc Value Fault : Type) where
  mutate : Doc → String → RowMutation Value → Doc × Except Fault Nat
  readRow : Doc → String → Option (List (String × Value))
  textValue : String → Value
  valueText : Value → String

structure PendingDelta (Blob : Type) where
  mutationId : Nat
  collection : String
  documentId : String
  deltaBytes : Blob
  deriving DecidableEq

inductive ConflictPolicy
  | lastWriterWins
  | renameSuffix
  | cascadeDefer (maxRetries ttlSecs : Nat)
  | custom
  | escalateToDlq
  deriving DecidableEq

structure CollectionPolicy where
  unique : ConflictPolicy
  foreignKey : ConflictPolicy

inductive CompensationHint
  | uniqueViolation (field conflictingValue : String)
  | foreignKeyMissing (referencedId : String)
  | integrityViolation
  | other (reason : String)

inductive PolicyResolution
  | overwriteExisting
  | renamedField (field newValue : String)
  | deferred (retryAfterMs attempt : Nat)
  | escalate
  deriving DecidableEq

/-- The documents, the deltas on their way to Origin and the registered policies. -/
structure CrdtEngine (Doc Blob : Type) where
  states : SortedMap String Doc
  pendingDeltas : List (PendingDelta Blob)
  policies : String → CollectionPolicy

namespace CrdtEngine

variable {Doc Blob Value Fault : Type}

def setState (eng : CrdtEngine Doc Blob) (collection : String) (d : Doc) : CrdtEngine Doc Blob :=
  { eng with states := eng.states.insert collection d }

def findPending (eng : CrdtEngine Doc Blob) (mutationId : Nat) : Option (PendingDelta Blob) :=
  eng.pendingDeltas.find? (fun d => d.mutationId = mutationId)

/-- The first entry with the id leaves the queue. -/
def removePending (eng : CrdtEngine Doc Blob) (mutationId : Nat) : CrdtEngine Doc Blob :=
  { eng with pendingDeltas := eng.pendingDeltas.eraseP (fun d => d.mutationId = mutationId) }

variable (A : DocApi Doc Value Fault)

/-- A write to a collection's document that bypasses the delta capture. -/
def uncaptured (eng : CrdtEngine Doc Blob) (collection documentId : String)
    (m : RowMutation Value) : CrdtEngine Doc Blob :=
  match eng.states.get collection with
  | none => eng
  | some d => eng.setState collection (A.mutate d documentId m).1

/-- `delete_local_row`. -/
def deleteLocalRow (eng : CrdtEngine Doc Blob) (collection documentId : String) :
    CrdtEngine Doc Blob :=
  eng.uncaptured A collection documentId .delete

/-- The rename a unique violation asks for, when the row still holds the field. -/
def renameSuffix (eng : CrdtEngine Doc Blob) (collection documentId field : String) :
    CrdtEngine Doc Blob × PolicyResolution :=
  match eng.states.get collection with
  | none => (eng, .escalate)
  | some d =>
    match (A.readRow d documentId).bind (fun row => row.lookup field) with
    | none => (eng, .escalate)
    | some value =>
      let newValue := A.valueText value ++ "_1"
      let r := A.mutate d documentId (.upsert [(field, A.textValue newValue)])
      (eng.setState collection r.1, if r.2.isOk then .renamedField field newValue else .escalate)

/-- What the policy decides, with the rename already made. -/
def resolve (eng : CrdtEngine Doc Blob) (collection documentId : String) :
    CompensationHint → CrdtEngine Doc Blob × PolicyResolution
  | .uniqueViolation field _ =>
    match (eng.policies collection).unique with
    | .lastWriterWins => (eng, .overwriteExisting)
    | .renameSuffix => eng.renameSuffix A collection documentId field
    | .cascadeDefer maxRetries _ => (eng, .deferred 1000 (min 1 maxRetries))
    | .escalateToDlq | .custom => (eng, .escalate)
  | .foreignKeyMissing _ =>
    match (eng.policies collection).foreignKey with
    | .cascadeDefer maxRetries ttlSecs =>
      (eng, .deferred (max (ttlSecs * 1000 / max maxRetries 1) 1000) 1)
    | .lastWriterWins => (eng, .overwriteExisting)
    | .renameSuffix | .custom | .escalateToDlq => (eng, .escalate)
  | .integrityViolation | .other _ => (eng, .escalate)

def rejectDeltaWithPolicy (eng : CrdtEngine Doc Blob) (mutationId : Nat) (hint : CompensationHint) :
    CrdtEngine Doc Blob × Option PolicyResolution :=
  match eng.findPending mutationId with
  | none => (eng, none)
  | some delta =>
    match eng.resolve A delta.collection delta.documentId hint with
    | (eng, .escalate) =>
      ((eng.deleteLocalRow A delta.collection delta.documentId).removePending mutationId,
        some .escalate)
    | (eng, .deferred retryAfterMs attempt) => (eng, some (.deferred retryAfterMs attempt))
    | (eng, resolution) => (eng.removePending mutationId, some resolution)

end CrdtEngine

section Rename

open CrdtEngine

variable {Doc Blob Value Fault : Type} {A : DocApi Doc Value Fault} {scalar : Value → Bool}
  {eng : CrdtEngine Doc Blob} {mutationId : Nat} {hint : CompensationHint}
  {delta : PendingDelta Blob} {field newValue : String}

def fieldAt (A : DocApi Doc Value Fault) (eng : CrdtEngine Doc Blob) (collection id key : String) :
    Option Value :=
  (eng.states.get collection).bind fun d => (A.readRow d id).bind (·.lookup key)

/-- An upsert is a full projection: it sets the given fields, prunes the other scalar ones and leaves
other rows alone. -/
structure UpsertLaws (A : DocApi Doc Value Fault) (scalar : Value → Bool) : Prop where
  fields : ∀ {d id fields n}, (A.mutate d id (.upsert fields)).2 = .ok n → ∀ key,
    (A.readRow (A.mutate d id (.upsert fields)).1 id).bind (·.lookup key) =
      (fields.lookup key).or
        (((A.readRow d id).bind (·.lookup key)).filter fun value => !scalar value)
  others : ∀ {d id fields n id'}, (A.mutate d id (.upsert fields)).2 = .ok n → id' ≠ id →
    A.readRow (A.mutate d id (.upsert fields)).1 id' = A.readRow d id'

/-- The state before a rejection that ends in a rename, with the engine it leaves. -/
structure Renaming (A : DocApi Doc Value Fault) (eng : CrdtEngine Doc Blob)
    (delta : PendingDelta Blob) (hint : CompensationHint) (field newValue : String) (d : Doc) :
    Prop where
  violated : ∃ other, hint = .uniqueViolation field other
  policy : (eng.policies delta.collection).unique = .renameSuffix
  opened : eng.states.get delta.collection = some d
  value : ∃ value, (A.readRow d delta.documentId).bind (·.lookup field) = some value ∧
    newValue = A.valueText value ++ "_1"
  written : ∃ n, (A.mutate d delta.documentId (.upsert [(field, A.textValue newValue)])).2 = .ok n

lemma resolve_renamed {eng' : CrdtEngine Doc Blob} :
    eng.resolve A delta.collection delta.documentId hint = (eng', .renamedField field newValue) ↔
      ∃ d, Renaming A eng delta hint field newValue d ∧ eng' = eng.setState delta.collection
        (A.mutate d delta.documentId (.upsert [(field, A.textValue newValue)])).1 := by
  constructor
  · intro h
    cases hint with
    | uniqueViolation column other =>
      rw [resolve] at h
      cases hpolicy : (eng.policies delta.collection).unique with
      | renameSuffix =>
        rw [hpolicy] at h
        dsimp only [renameSuffix] at h
        cases hd : eng.states.get delta.collection with
        | none => rw [hd] at h; cases h
        | some d =>
          rw [hd] at h
          dsimp only at h
          split at h
          next => cases h
          next value hvalue =>
            obtain ⟨rfl, hout⟩ := Prod.mk.inj h
            split at hout
            next hok =>
              cases hout
              refine ⟨d, ⟨⟨other, rfl⟩, hpolicy, hd, ⟨value, hvalue, rfl⟩, ?_⟩, rfl⟩
              cases hwritten : (A.mutate d delta.documentId
                  (.upsert [(field, A.textValue (A.valueText value ++ "_1"))])).2 with
              | ok n => exact ⟨n, rfl⟩
              | error fault => rw [hwritten] at hok; cases hok
            next => cases hout
      | _ => rw [hpolicy] at h; cases h
    | foreignKeyMissing referenced =>
      rw [resolve] at h
      split at h <;> cases h
    | _ => cases h
  · rintro ⟨d, ⟨⟨other, rfl⟩, hpolicy, hd, ⟨value, hvalue, rfl⟩, n, hn⟩, rfl⟩
    rw [resolve, hpolicy]
    dsimp only [renameSuffix]
    rw [hd]
    dsimp only
    rw [hvalue]
    dsimp only
    rw [hn]
    rfl

lemma reject_renamed {eng' : CrdtEngine Doc Blob} (hdelta : eng.findPending mutationId = some delta) :
    eng.rejectDeltaWithPolicy A mutationId hint = (eng', some (.renamedField field newValue)) ↔
      ∃ d, Renaming A eng delta hint field newValue d ∧ eng' = (eng.setState delta.collection
        (A.mutate d delta.documentId (.upsert [(field, A.textValue newValue)])).1).removePending
          mutationId := by
  rw [rejectDeltaWithPolicy, hdelta]
  dsimp only
  constructor
  · intro h
    split at h
    next => cases h
    next => cases h
    next resolved resolution _ _ heq =>
      obtain ⟨rfl, hout⟩ := Prod.mk.inj h
      obtain rfl := Option.some.inj hout
      obtain ⟨d, hd, rfl⟩ := resolve_renamed.mp heq
      exact ⟨d, hd, rfl⟩
  · rintro ⟨d, hd, rfl⟩
    rw [resolve_renamed.mpr ⟨d, hd, rfl⟩]

/-- Nothing but one field of one row changed. -/
def ChangesOnlyField (A : DocApi Doc Value Fault) (eng eng' : CrdtEngine Doc Blob)
    (delta : PendingDelta Blob) (field newValue : String) : Prop :=
  ∀ collection id key, fieldAt A eng' collection id key =
    if collection = delta.collection ∧ id = delta.documentId ∧ key = field then
      some (A.textValue newValue)
    else fieldAt A eng collection id key

/-- A new delta of the row is on its way to Origin. -/
def QueuesRow (eng eng' : CrdtEngine Doc Blob) (delta : PendingDelta Blob) : Prop :=
  ∃ new ∈ eng'.pendingDeltas, new ∉ eng.pendingDeltas ∧ new.collection = delta.collection ∧
    new.documentId = delta.documentId

/-- A rejection that renames changes one field and tells Origin. -/
def RenamesOneField (A : DocApi Doc Value Fault) (eng : CrdtEngine Doc Blob) (mutationId : Nat)
    (hint : CompensationHint) : Prop :=
  ∀ delta eng' field newValue, eng.findPending mutationId = some delta →
    eng.rejectDeltaWithPolicy A mutationId hint = (eng', some (.renamedField field newValue)) →
    ChangesOnlyField A eng eng' delta field newValue ∧ QueuesRow eng eng' delta

/-- The queue only loses the rejected delta. -/
lemma not_queuesRow (d : Doc) :
    ¬ QueuesRow eng ((eng.setState delta.collection d).removePending mutationId) delta := by
  rintro ⟨new, hmem, hnew, -⟩
  exact hnew (List.mem_of_mem_eraseP hmem)

lemma fieldAt_renamed (laws : UpsertLaws A scalar) {d : Doc}
    (h : Renaming A eng delta hint field newValue d) (collection id key : String) :
    fieldAt A ((eng.setState delta.collection
        (A.mutate d delta.documentId (.upsert [(field, A.textValue newValue)])).1).removePending
          mutationId) collection id key =
      if collection = delta.collection ∧ id = delta.documentId then
        if key = field then some (A.textValue newValue)
        else (fieldAt A eng collection id key).filter fun value => !scalar value
      else fieldAt A eng collection id key := by
  obtain ⟨n, hn⟩ := h.written
  unfold fieldAt removePending setState
  dsimp only
  rw [SortedMap.get_insert]
  by_cases hcollection : collection = delta.collection
  · subst hcollection
    rw [if_pos rfl, h.opened, Option.bind_some, Option.bind_some]
    by_cases hid : id = delta.documentId
    · subst hid
      rw [laws.fields hn, if_pos ⟨rfl, rfl⟩]
      by_cases hkey : key = field
      · simp [hkey]
      · have hlookup : [(field, A.textValue newValue)].lookup key = none := by
          rw [List.lookup_cons, beq_eq_false_iff_ne.mpr hkey]
          rfl
        rw [hlookup, Option.none_or, if_neg hkey]
    · rw [laws.others hn hid, if_neg (fun hboth => hid hboth.2)]
  · rw [if_neg hcollection, if_neg (fun hboth => hcollection hboth.1)]

lemma changesOnlyField_iff (laws : UpsertLaws A scalar) {d : Doc}
    (h : Renaming A eng delta hint field newValue d) :
    ChangesOnlyField A eng ((eng.setState delta.collection
        (A.mutate d delta.documentId (.upsert [(field, A.textValue newValue)])).1).removePending
          mutationId) delta field newValue ↔
      ∀ key value, key ≠ field → fieldAt A eng delta.collection delta.documentId key = some value →
        scalar value = false := by
  unfold ChangesOnlyField
  simp only [fieldAt_renamed laws h]
  constructor
  · intro hsame key value hkey hvalue
    have hkept := hsame delta.collection delta.documentId key
    rw [if_pos ⟨rfl, rfl⟩, if_neg hkey, if_neg (fun hall => hkey hall.2.2), hvalue] at hkept
    simpa [Option.filter_eq_some_iff] using hkept
  · intro hother collection id key
    by_cases hrow : collection = delta.collection ∧ id = delta.documentId
    · obtain ⟨rfl, rfl⟩ := hrow
      by_cases hkey : key = field
      · simp [hkey]
      · rw [if_pos ⟨rfl, rfl⟩, if_neg hkey, if_neg (fun hall => hkey hall.2.2)]
        cases hvalue : fieldAt A eng delta.collection delta.documentId key with
        | none => rfl
        | some value => simp [hother key value hkey hvalue]
    · rw [if_neg hrow, if_neg (fun hall => hrow ⟨hall.1, hall.2.1⟩)]

/-- A rejection renames one field and tells Origin exactly if it renames nothing: a rename never
queues a delta, and it keeps the rest of the row exactly if no other field is scalar. -/
theorem rename_touches_one_field_iff (laws : UpsertLaws A scalar) (eng : CrdtEngine Doc Blob)
    (mutationId : Nat) (hint : CompensationHint) :
    (RenamesOneField A eng mutationId hint ↔ ∀ delta field newValue d,
      eng.findPending mutationId = some delta → ¬ Renaming A eng delta hint field newValue d) ∧
    ∀ delta eng' field newValue, eng.findPending mutationId = some delta →
      eng.rejectDeltaWithPolicy A mutationId hint = (eng', some (.renamedField field newValue)) →
      ¬ QueuesRow eng eng' delta ∧ (ChangesOnlyField A eng eng' delta field newValue ↔
        ∀ key value, key ≠ field → fieldAt A eng delta.collection delta.documentId key = some value →
          scalar value = false) := by
  refine ⟨⟨fun h delta field newValue d hdelta hrename => ?_,
    fun h delta eng' field newValue hdelta hout => ?_⟩, fun delta eng' field newValue hdelta hout => ?_⟩
  · have hqueued := (h delta _ field newValue hdelta
      ((reject_renamed hdelta).mpr ⟨d, hrename, rfl⟩)).2
    exact not_queuesRow _ hqueued
  · obtain ⟨d, hrename, -⟩ := (reject_renamed hdelta).mp hout
    exact absurd hrename (h delta field newValue d hdelta)
  · obtain ⟨d, hrename, rfl⟩ := (reject_renamed hdelta).mp hout
    exact ⟨not_queuesRow _, changesOnlyField_iff laws hrename⟩

/-- Rows whose fields are texts, which are scalar, or lists of texts. -/
def fieldRows : DocApi (SortedMap String (SortedMap String (String ⊕ List String)))
    (String ⊕ List String) Empty where
  mutate d id
    | .upsert fields => (d.insert id (fields.foldr (fun field row => row.insert field.1 field.2)
        (((d.get id).getD .empty).filter fun _ value => value.isRight)), .ok 0)
    | .delete => (d.erase id, .ok 0)
  readRow d id := (d.get id).map SortedMap.entries
  textValue := .inl
  valueText := Sum.elim id fun _ => ""

lemma fieldRows_laws : UpsertLaws fieldRows Sum.isLeft where
  fields {d id fields n} _ key := by
    have hget : ∀ (fields : List (String × (String ⊕ List String))) row,
        (fields.foldr (fun field row => SortedMap.insert row field.1 field.2) row).get key =
          (fields.lookup key).or (row.get key) := by
      intro fields row
      induction fields with
      | nil => rfl
      | cons field fields ih =>
        rw [List.foldr_cons, SortedMap.get_insert, SortedMap.lookup_cons_eq_ite, ih]
        split_ifs <;> rfl
    simp only [fieldRows, SortedMap.get_insert, if_true, Option.map_some, Option.bind_some]
    refine (hget fields _).trans (congrArg _ ?_)
    rw [SortedMap.get_filter]
    cases d.get id with
    | none => rfl
    | some row => simp [SortedMap.get]
  others _ hne := by
    simp [fieldRows, hne]

/-- A user with a delta on its way, in a collection that renames. -/
def rejectedUser (fields : List (String × (String ⊕ List String))) :
    CrdtEngine (SortedMap String (SortedMap String (String ⊕ List String))) Unit :=
  ⟨SortedMap.empty.insert "users" (SortedMap.empty.insert "u" (SortedMap.ofList fields)),
    [⟨1, "users", "u", ()⟩], fun _ => ⟨.renameSuffix, .escalateToDlq⟩⟩

/-- A user with a name and a list of tags keeps the tags, and Origin is not told. -/
theorem rename_of_lone_field :
    ∃ eng', (rejectedUser [("name", .inl "ann"), ("tags", .inr ["x"])]).rejectDeltaWithPolicy
        fieldRows 1 (.uniqueViolation "name" "ann") = (eng', some (.renamedField "name" "ann_1")) ∧
      ChangesOnlyField fieldRows (rejectedUser [("name", .inl "ann"), ("tags", .inr ["x"])]) eng'
        ⟨1, "users", "u", ()⟩ "name" "ann_1" ∧
      fieldAt fieldRows eng' "users" "u" "tags" = some (.inr ["x"]) ∧
      ¬ QueuesRow (rejectedUser [("name", .inl "ann"), ("tags", .inr ["x"])]) eng'
        ⟨1, "users", "u", ()⟩ := by
  obtain ⟨hqueued, hfields⟩ := (rename_touches_one_field_iff fieldRows_laws
    (rejectedUser [("name", .inl "ann"), ("tags", .inr ["x"])]) 1 (.uniqueViolation "name" "ann")).2
      ⟨1, "users", "u", ()⟩ _ "name" "ann_1" rfl rfl
  refine ⟨_, rfl, hfields.mpr fun key value hkey hvalue => ?_, by rfl, hqueued⟩
  change [("name", Sum.inl "ann"), ("tags", Sum.inr ["x"])].lookup key = some value at hvalue
  rw [SortedMap.lookup_cons_eq_ite, if_neg hkey, SortedMap.lookup_cons_eq_ite] at hvalue
  split_ifs at hvalue
  · exact Option.some.inj hvalue ▸ rfl
  · cases hvalue

/-- A user with a name and a mail address loses the address, and Origin is not told. -/
theorem rename_drops_other_field :
    UpsertLaws fieldRows Sum.isLeft ∧
      ¬ RenamesOneField fieldRows (rejectedUser [("name", .inl "ann"), ("mail", .inl "a@x")]) 1
        (.uniqueViolation "name" "ann") := by
  refine ⟨fieldRows_laws, fun h => ?_⟩
  have hkept := (h ⟨1, "users", "u", ()⟩ _ "name" "ann_1" rfl rfl).1 "users" "u" "mail"
  exact absurd hkept (by decide +kernel)

end Rename

end NodedbLite.Crdt
