import NodedbLite.StrictKeys

/-! Updates of several rows in one call. The new rows are planned from the storage before the call,
so the call leaves what the single updates leave one after the other if no change names a key that
an earlier one has touched. The unique indexes are asked once, for the whole batch. -/
namespace NodedbLite.Strict

open Storage

variable {T : Type} (env : StrictEnv T) (c : String)

/-- A primary key and the columns to set. -/
abbrev Change := Value × SortedMap String Value

/-- The key a change names. -/
def namedKey (change : Change) : Bytes := CollectionState.storageKeyFromPk c change.1

namespace StrictEngine

/-- The single updates, one after the other. -/
def updateEach (e : StrictEngine T) (changes : List Change) (now : Int) : StrictEngine T :=
  changes.foldl (fun e change => (e.update env c change.1 change.2 now).1) e

/-- The key of the row a change names, after its assignments. -/
def patchedKey (e : StrictEngine T) (st : CollectionState T) (change : Change) : Option Bytes :=
  (getRows e.tree env.strict (namedKey c change)).bind (fun existing =>
    ((decodeTuple env st existing).bind
      (fun values => change.2.entries.foldlM (assign env st c) values)).toOption.map
        (st.storageKey c))

end StrictEngine

/-- An update of several rows leaves the rows the single updates leave and touches no row that is
not named, or it fails and changes nothing. -/
structure BatchAsSequence (e : StrictEngine T) (changes : List Change) (now : Int) : Prop where
  rows : ∀ e' n, e.updateMany env c changes now = (e', .ok n) → ∀ key,
    getRows e'.tree env.strict key = getRows (e.updateEach env c changes now).tree env.strict key
  named : ∀ e' n, e.updateMany env c changes now = (e', .ok n) → ∀ key tuple,
    getRows e.tree env.strict key = some tuple → (∀ change ∈ changes, key ≠ namedKey c change) →
    getRows e'.tree env.strict key = some tuple
  failed : ∀ e' err, e.updateMany env c changes now = (e', .error err) → e'.tree = e.tree

/-- No change names a key that an earlier one has rewritten or moved its row to. -/
def InTurn (e : StrictEngine T) (st : CollectionState T) (changes : List Change) : Prop :=
  changes.Pairwise (fun a b =>
    ((getRows e.tree env.strict (namedKey c a)).isSome → namedKey c b ≠ namedKey c a) ∧
      e.patchedKey env c st a ≠ some (namedKey c b))

/-- Rows move only to free keys or to named ones. -/
def MovesToFree (e : StrictEngine T) (st : CollectionState T) (changes : List Change) : Prop :=
  ∀ a ∈ changes, ∀ key, e.patchedKey env c st a = some key →
    (getRows e.tree env.strict key).isSome → ∃ b ∈ changes, key = namedKey c b

/-- The single updates succeed, each in its turn. -/
def EachPasses (e : StrictEngine T) (now : Int) : List Change → Prop
  | [] => True
  | change :: changes => (∃ b, (e.update env c change.1 change.2 now).2 = .ok b) ∧
      EachPasses (e.update env c change.1 change.2 now).1 now changes

/-- A call that succeeds has its changes in turn, moves rows to free keys, and the unique indexes let
the single updates pass as they let the batch. -/
def CleanWhenPassed (e : StrictEngine T) (st : CollectionState T) (changes : List Change)
    (now : Int) : Prop :=
  ∀ n, (e.updateMany env c changes now).2 = .ok n →
    InTurn env c e st changes ∧ MovesToFree env c e st changes ∧ EachPasses env c e now changes

/-- A call that has closed versions of rows is not refused. -/
def PassedOnceClosed (e : StrictEngine T) (st : CollectionState T) (changes : List Change)
    (now : Int) : Prop :=
  st.schema.bitemporal = true → ∀ moves, StrictEngine.planUpdates env e st c changes = .ok moves →
    moves ≠ [] → ∃ n, (e.updateMany env c changes now).2 = .ok n

section Writes

variable {env c} {e e' : StrictEngine T} {st : CollectionState T} {t t' t'' : Tree}

/-- The strict rows are those the operations leave. -/
def Writes (env : StrictEnv T) (t t' : Tree) (ops : List WriteOp) : Prop :=
  ∀ key, getRows t' env.strict key
    = (SortedMap.lastWrite (ops.map WriteOp.composite) (prefixKey env.strict key)).getD
      (getRows t env.strict key)

lemma Writes.refl (t : Tree) : Writes env t t [] := fun _ => rfl

lemma Writes.trans {ops ops' : List WriteOp} (h : Writes env t t' ops)
    (h' : Writes env t' t'' ops') : Writes env t t'' (ops ++ ops') := by
  intro key
  rw [h' key, h key, List.map_append, SortedMap.lastWrite_append]
  cases SortedMap.lastWrite (ops'.map WriteOp.composite) (prefixKey env.strict key) <;> rfl

lemma Writes.untouched {ops : List WriteOp} (h : Writes env t t' ops) {key : Bytes}
    (hkey : SortedMap.lastWrite (ops.map WriteOp.composite) (prefixKey env.strict key) = none) :
    getRows t' env.strict key = getRows t env.strict key := by
  rw [h key, hkey]
  rfl

lemma lastWrite_move {m : StrictEngine.Move} {key : Bytes} (hold : key ≠ m.key)
    (hnew : key ≠ m.newKey) : SortedMap.lastWrite
      ((StrictEngine.Move.ops env m).map WriteOp.composite) (prefixKey env.strict key) = none := by
  rw [SortedMap.lastWrite_eq_none_iff]
  intro w hw heq
  obtain ⟨op, hop, rfl⟩ := List.mem_map.mp hw
  rcases List.mem_append.mp hop with hdelete | hput
  · split at hdelete
    · exact absurd hdelete List.not_mem_nil
    · rw [List.mem_singleton.mp hdelete] at heq
      exact hold (prefixKey_inj.mp heq).2.symm
  · rw [List.mem_singleton.mp hput] at heq
    exact hnew (prefixKey_inj.mp heq).2.symm

lemma updateMany_ok (hst : e.collections.get c = some st) {changes : List Change}
    {moves : List StrictEngine.Move} {now : Int} {n : Nat}
    (hplan : StrictEngine.planUpdates env e st c changes = .ok moves)
    (hok : (e.updateMany env c changes now).2 = .ok n) :
    ∃ t, (e.updateMany env c changes now).1 = { e with tree := t } ∧
      Writes env e.tree t (moves.flatMap (StrictEngine.Move.ops env)) := by
  rw [StrictEngine.updateMany_eq hst, hplan] at hok ⊢
  dsimp only at hok ⊢
  cases hcommit : commit env (StrictEngine.closedTree env e c st now moves) c
      (moves.flatMap (StrictEngine.Move.ops env)) with
  | error err => rw [hcommit] at hok; cases hok
  | ok t =>
    refine ⟨_, rfl, fun key => ?_⟩
    rw [getRows_bornTree, getRows_commit hcommit env.metadata_ne.symm, getRows_closedTree]

end Writes

section Plans

variable {env c} {e e' : StrictEngine T} {st : CollectionState T}

lemma planUpdate_congr {change : Change}
    (hrow : getRows e'.tree env.strict (namedKey c change)
      = getRows e.tree env.strict (namedKey c change)) :
    e'.planUpdate env st c change = e.planUpdate env st c change := by
  unfold StrictEngine.planUpdate
  dsimp only
  unfold namedKey at hrow
  rw [hrow]

lemma planUpdate_some {change : Change} {m : StrictEngine.Move}
    (h : e.planUpdate env st c change = .ok (some m)) :
    m.key = namedKey c change ∧
      getRows e.tree env.strict (namedKey c change) = some m.existing ∧
      e.patchedKey env c st change = some m.newKey := by
  unfold StrictEngine.planUpdate at h
  dsimp only at h
  unfold StrictEngine.patchedKey namedKey
  split at h
  · cases h
  next existing hrow =>
    obtain ⟨values, hvalues, h⟩ := ExceptFold.bind_eq_ok.mp h
    obtain ⟨values', hvalues', h⟩ := ExceptFold.bind_eq_ok.mp h
    obtain ⟨tuple, -, hout⟩ := ExceptFold.bind_eq_ok.mp h
    obtain rfl := Option.some.inj (Except.ok.inj hout)
    rw [hrow]
    refine ⟨rfl, rfl, ?_⟩
    rw [Option.bind_some, hvalues]
    change ((change.2.entries.foldlM (StrictEngine.assign env st c) values).toOption.map _) = _
    rw [hvalues']
    rfl

lemma planUpdates_cons {change : Change} {changes : List Change} {moves : List StrictEngine.Move}
    (h : StrictEngine.planUpdates env e st c (change :: changes) = .ok moves) :
    ∃ m rest, e.planUpdate env st c change = .ok m ∧
      StrictEngine.planUpdates env e st c changes = .ok rest ∧ moves = m.toList ++ rest := by
  unfold StrictEngine.planUpdates at h ⊢
  cases hmap : (change :: changes).mapM (e.planUpdate env st c) with
  | error err => rw [hmap] at h; cases h
  | ok planned =>
    rw [hmap] at h
    obtain ⟨m, rest, hm, hrest, rfl⟩ := ExceptFold.mapM_cons_ok.mp hmap
    obtain rfl := Except.ok.inj h
    refine ⟨m, rest.filterMap id, hm, by rw [hrest]; rfl, ?_⟩
    cases m <;> rfl

lemma update_ok (hst : e.collections.get c = some st) {change : Change}
    {m : Option StrictEngine.Move} {now : Int} {b : Bool}
    (hplan : e.planUpdate env st c change = .ok m)
    (hok : (e.update env c change.1 change.2 now).2 = .ok b) :
    ∃ t, (e.update env c change.1 change.2 now).1 = { e with tree := t } ∧
      Writes env e.tree t (m.toList.flatMap (StrictEngine.Move.ops env)) := by
  have hone : StrictEngine.planUpdates env e st c [change] = .ok m.toList := by
    unfold StrictEngine.planUpdates
    rw [ExceptFold.mapM_cons_ok.mpr ⟨m, [], hplan, rfl, rfl⟩]
    cases m <;> rfl
  unfold StrictEngine.update at hok ⊢
  dsimp only at hok ⊢
  cases hmany : (e.updateMany env c [change] now).2 with
  | error err => rw [hmany] at hok; cases hok
  | ok n => exact updateMany_ok hst hone hmany

/-- The single updates write what the plans from the first storage write, as long as each change
finds its row as it was there. The induction is over the changes left, with the operations made so
far. -/
lemma updateEach_writes {changes : List Change} {now : Int}
    {moves : List StrictEngine.Move} {ops : List WriteOp}
    (hplan : StrictEngine.planUpdates env e st c changes = .ok moves)
    (hturn : InTurn env c e st changes) (hpass : EachPasses env c e' now changes)
    (hst : e'.collections.get c = some st)
    (hdone : Writes env e.tree e'.tree ops)
    (huntouched : ∀ change ∈ changes, SortedMap.lastWrite (ops.map WriteOp.composite)
      (prefixKey env.strict (namedKey c change)) = none) :
    Writes env e.tree (e'.updateEach env c changes now).tree
      (ops ++ moves.flatMap (StrictEngine.Move.ops env)) := by
  induction changes generalizing e' ops moves with
  | nil =>
    have hnil : [] = moves := Except.ok.inj hplan
    rw [← hnil, List.flatMap_nil, List.append_nil]
    exact hdone
  | cons change changes ih =>
    obtain ⟨m, rest, hm, hrest, rfl⟩ := planUpdates_cons hplan
    obtain ⟨hfirst, hturn'⟩ := List.pairwise_cons.mp hturn
    have hsame : e'.planUpdate env st c change = .ok m := by
      rw [planUpdate_congr (hdone.untouched (huntouched change List.mem_cons_self)), hm]
    obtain ⟨⟨b, hok⟩, hpass'⟩ := hpass
    obtain ⟨t, hout, hwrites⟩ := update_ok hst hsame hok
    rw [List.flatMap_append, ← List.append_assoc]
    change Writes env e.tree
      (StrictEngine.updateEach env c (e'.update env c change.1 change.2 now).1 changes now).tree _
    rw [hout] at hpass' ⊢
    refine ih hrest hturn' hpass' hst (hdone.trans hwrites) ?_
    intro b hb
    rw [List.map_append, SortedMap.lastWrite_append,
      huntouched b (List.mem_cons_of_mem _ hb)]
    cases m with
    | none => rfl
    | some m =>
      obtain ⟨hkey, hexists, hpatched⟩ := planUpdate_some hm
      obtain ⟨hnamed, hmoved⟩ := hfirst b hb
      have hmove : SortedMap.lastWrite ((StrictEngine.Move.ops env m).map WriteOp.composite)
          (prefixKey env.strict (namedKey c b)) = none := by
        apply lastWrite_move
        · rw [hkey]
          exact hnamed (by rw [hexists]; rfl)
        · intro heq
          exact hmoved (by rw [hpatched, heq])
      simp [hmove]

lemma touched_of_plan {changes : List Change} {moves : List StrictEngine.Move}
    (hplan : StrictEngine.planUpdates env e st c changes = .ok moves) {m : StrictEngine.Move}
    (hm : m ∈ moves) : ∃ a ∈ changes, m.key = namedKey c a ∧
      e.patchedKey env c st a = some m.newKey := by
  unfold StrictEngine.planUpdates at hplan
  cases hmap : changes.mapM (e.planUpdate env st c) with
  | error err => rw [hmap] at hplan; cases hplan
  | ok planned =>
    rw [hmap] at hplan
    obtain rfl := Except.ok.inj hplan
    have hmem : some m ∈ planned := by simpa using List.mem_filterMap.mp hm
    obtain ⟨a, ha, hplanned⟩ := ExceptFold.exists_source_of_mapM_ok hmap hmem
    obtain ⟨hkey, -, hpatched⟩ := planUpdate_some hplanned
    exact ⟨a, ha, hkey, hpatched⟩

lemma lastWrite_unnamed {changes : List Change} {moves : List StrictEngine.Move}
    (hplan : StrictEngine.planUpdates env e st c changes = .ok moves)
    (hfree : MovesToFree env c e st changes) {key tuple : Bytes}
    (hrow : getRows e.tree env.strict key = some tuple)
    (hunnamed : ∀ change ∈ changes, key ≠ namedKey c change) :
    SortedMap.lastWrite ((moves.flatMap (StrictEngine.Move.ops env)).map WriteOp.composite)
      (prefixKey env.strict key) = none := by
  rw [SortedMap.lastWrite_eq_none_iff]
  intro w hw
  obtain ⟨op, hop, rfl⟩ := List.mem_map.mp hw
  obtain ⟨m, hm, hmop⟩ := List.mem_flatMap.mp hop
  obtain ⟨a, ha, hkey, hpatched⟩ := touched_of_plan hplan hm
  have hold : key ≠ m.key := hkey ▸ hunnamed a ha
  have hnew : key ≠ m.newKey := by
    rintro rfl
    obtain ⟨b, hb, heq⟩ := hfree a ha _ hpatched (by rw [hrow]; rfl)
    exact hunnamed b hb heq
  exact SortedMap.lastWrite_eq_none_iff.mp (lastWrite_move hold hnew) _
    (List.mem_map_of_mem hmop)

end Plans

lemma updateMany_failed {env : StrictEnv T} {c : String} {e : StrictEngine T}
    {st : CollectionState T} (hst : e.collections.get c = some st) {changes : List Change} {now : Int}
    (hclosed : PassedOnceClosed env c e st changes now) {err : LiteError}
    (herr : (e.updateMany env c changes now).2 = .error err) :
    (e.updateMany env c changes now).1.tree = e.tree := by
  cases hplan : StrictEngine.planUpdates env e st c changes with
  | error err' => rw [StrictEngine.updateMany_eq hst, hplan]
  | ok moves =>
    have hnothing : StrictEngine.closedTree env e c st now moves = e.tree := by
      unfold StrictEngine.closedTree
      cases hbit : st.schema.bitemporal with
      | false => rfl
      | true =>
        cases moves with
        | nil => rfl
        | cons m moves =>
          obtain ⟨n, hok⟩ := hclosed hbit _ hplan (List.cons_ne_nil m moves)
          rw [hok] at herr
          cases herr
    rw [StrictEngine.updateMany_eq hst, hplan] at herr ⊢
    dsimp only at herr ⊢
    rw [hnothing] at herr ⊢
    cases hcommit : commit env e.tree c (moves.flatMap (StrictEngine.Move.ops env)) with
    | error err' => rfl
    | ok t => rw [hcommit] at herr; cases herr

/-- An update of several rows is the sequence of the single updates, if it is clean when it succeeds
and closes no version when it fails. -/
theorem update_many_as_sequence {e : StrictEngine T} {st : CollectionState T}
    (hst : e.collections.get c = some st) {changes : List Change} {now : Int}
    (hclean : CleanWhenPassed env c e st changes now)
    (hclosed : PassedOnceClosed env c e st changes now) : BatchAsSequence env c e changes now := by
  have hpassed : ∀ e' n, e.updateMany env c changes now = (e', .ok n) →
      ∃ moves, StrictEngine.planUpdates env e st c changes = .ok moves ∧
        Writes env e.tree e'.tree (moves.flatMap (StrictEngine.Move.ops env)) := by
    intro e' n h
    cases hplan : StrictEngine.planUpdates env e st c changes with
    | error err =>
      rw [StrictEngine.updateMany_eq hst, hplan] at h
      cases (Prod.mk.inj h).2
    | ok moves =>
      obtain ⟨t, hout, hwrites⟩ := updateMany_ok hst hplan (congrArg Prod.snd h)
      obtain rfl : e' = { e with tree := t } := by rw [← hout, h]
      exact ⟨moves, rfl, hwrites⟩
  constructor
  · intro e' n h key
    obtain ⟨moves, hplan, hwrites⟩ := hpassed e' n h
    obtain ⟨hturn, -, hpass⟩ := hclean n (congrArg Prod.snd h)
    have heach : Writes env e.tree (e.updateEach env c changes now).tree
        ([] ++ moves.flatMap (StrictEngine.Move.ops env)) :=
      updateEach_writes hplan hturn hpass hst (Writes.refl e.tree) (fun _ _ => rfl)
    rw [heach key, List.nil_append, hwrites key]
  · intro e' n h key tuple hrow hunnamed
    obtain ⟨moves, hplan, hwrites⟩ := hpassed e' n h
    obtain ⟨-, hfree, -⟩ := hclean n (congrArg Prod.snd h)
    rw [hwrites.untouched (lastWrite_unnamed hplan hfree hrow hunnamed), hrow]
  · intro e' err h
    have hfailed := updateMany_failed hst hclosed (congrArg Prod.snd h)
    rwa [h] at hfailed

/-- A key and two numbers. -/
def pairs : StrictSchema Kind :=
  ⟨[⟨"id", .integer, false, true⟩, ⟨"x", .integer, true, false⟩,
    ⟨"y", .integer, true, false⟩], 1, false⟩

def storeRow (t : Tree) (row : List Value) : Tree :=
  putRows t wordsEnv.strict ((CollectionState.new pairs).storageKey "c" row)
    ((wordsEncode pairs row).toOption.getD [])

/-- Rows with the keys 1 and 2. -/
def twoRows : StrictEngine Kind :=
  { freshCollection "c" pairs with tree := storeRow (storeRow SortedMap.empty
      [.integer 1, .integer 10, .integer 20]) [.integer 2, .integer 30, .integer 40] }

def setColumn (id : Int64) (column : String) (v : Int64) : Change :=
  (.integer id, SortedMap.empty.insert column (.integer v))

/-- A new value in one row and a new key for the other. -/
def movedRow : List Change := [setColumn 1 "x" 11, setColumn 2 "id" 3]

/-- A unique index that refuses every batch. -/
def refusingEnv : StrictEnv Kind :=
  { wordsEnv with entries := fun _ _ _ => .error (.uniqueViolation "c" "duplicate key") }

theorem update_many_moves_row : BatchAsSequence wordsEnv "c" twoRows movedRow 0 ∧
    BatchAsSequence refusingEnv "c" twoRows movedRow 0 := by
  have hst : twoRows.collections.get "c" = some (CollectionState.new pairs) := rfl
  constructor
  · apply update_many_as_sequence wordsEnv "c" hst
    · intro n _
      refine ⟨by unfold InTurn; decide +kernel, ?_, ⟨true, ?_⟩, ⟨true, ?_⟩, trivial⟩
      · intro a ha key hkey hstored
        have hkeys : ∀ a ∈ movedRow,
            ∀ key ∈ twoRows.patchedKey wordsEnv "c" (CollectionState.new pairs) a,
              (getRows twoRows.tree wordsEnv.strict key).isSome →
                key ∈ movedRow.map (namedKey "c") := by
          decide +kernel
        obtain ⟨b, hb, heq⟩ := List.mem_map.mp (hkeys a ha key hkey hstored)
        exact ⟨b, hb, heq.symm⟩
      · rfl
      · simp only [StrictEngine.update, StrictEngine.updateMany, commit, batchWriteRows_eq]
        decide +kernel
    · intro h
      cases h
  · apply update_many_as_sequence refusingEnv "c" hst
    · intro n h
      cases h
    · intro h
      cases h

/-- The second of two changes of one row is planned without the first, and a row moved to the key of
another row replaces it. -/
theorem repeated_key_loses_assignment :
    ((twoRows.updateMany wordsEnv "c" [setColumn 1 "x" 11, setColumn 1 "y" 21] 0).1.get wordsEnv "c"
        (.integer 1)).toOption = some (some [.integer 1, .integer 10, .integer 21]) ∧
    ((twoRows.updateEach wordsEnv "c" [setColumn 1 "x" 11, setColumn 1 "y" 21] 0).get wordsEnv "c"
        (.integer 1)).toOption = some (some [.integer 1, .integer 11, .integer 21]) ∧
    ((twoRows.updateMany wordsEnv "c" [setColumn 1 "id" 2] 0).1.get wordsEnv "c"
        (.integer 2)).toOption = some (some [.integer 2, .integer 10, .integer 20]) := by
  refine ⟨?_, ?_, ?_⟩
  · simp only [StrictEngine.updateMany, commit, batchWriteRows_eq]
    decide +kernel
  · simp only [StrictEngine.updateEach, StrictEngine.update, StrictEngine.updateMany, commit,
      batchWriteRows_eq]
    decide +kernel
  · simp only [StrictEngine.updateMany, commit, batchWriteRows_eq]
    decide +kernel

end NodedbLite.Strict
