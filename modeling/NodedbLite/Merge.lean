import NodedbLite.ExceptFold
import NodedbLite.QueryValue
import NodedbLite.SortedMap

/-! MERGE of source rows into a target collection. Source rows are looked up through a map from the
text of their join value to the last row with that text. -/
namespace NodedbLite.Query

inductive MergeClauseKind
  | matched
  | notMatched
  | notMatchedBySource
  deriving DecidableEq

/-- `U` are the assignments of an UPDATE, `V` the columns and values of an INSERT. -/
inductive MergeActionOp (U V : Type)
  | update (updates : U)
  | delete
  | insert (values : V)
  | doNothing

/-- A WHEN arm. Arms carry no further condition here. -/
structure MergeClause (U V : Type) where
  kind : MergeClauseKind
  action : MergeActionOp U V

/-- The join columns and the source's name, the text of a float, the evaluation of assignments for a
target and a source row and of the row to insert, and the ids generated. -/
structure MergeApi (U V : Type) where
  targetJoin : String
  sourceJoin : String
  sourceAlias : String
  fmt : UInt64 → String
  resolveUpdates : U → Row → Row → String → Except LiteError Row
  buildInsertMap : V → Row → String → Except LiteError Row
  genId : Nat → String

/-- An arm's write for one row, resolved. -/
inductive MergeWrite
  | update (fields : Row)
  | delete
  | insert (row : Row)
  | nothing

/-- What becomes of the document of the id. An update passes over an absent document, an insert over a
present one. -/
def MergeWrite.outcome : MergeWrite → Option Row → Option Row
  | .update fields, doc => doc.map (fun row => fields.entries.foldl (fun r e => r.insert e.1 e.2) row)
  | .delete, _ => none
  | .insert row, doc => some (doc.getD row)
  | .nothing, doc => doc

def applyMergeWrite (docs : SortedMap String Row) (planned : String × MergeWrite) :
    SortedMap String Row :=
  match planned.2.outcome (docs.get planned.1) with
  | some row => docs.insert planned.1 row
  | none => docs.erase planned.1

/-- The text of a scalar; other values have the empty text. -/
def valueToString (fmt : UInt64 → String) : Value → String
  | .string s => s
  | .integer n => n.toInt.repr
  | .float bits => fmt bits
  | .bool b => if b then "true" else "false"
  | .uuid s => s
  | _ => ""

section Lowering

variable {U V : Type} (M : MergeApi U V) (clauses : List (MergeClause U V))

def targetText (row : Row) : Option String := (row.get M.targetJoin).map (valueToString M.fmt)

def sourceText (row : Row) : Option String := (row.get M.sourceJoin).map (valueToString M.fmt)

/-- A row without the join column is not in the map; of rows with one text the last stays. -/
def sourceIndex (sources : List Row) : SortedMap String Row :=
  sources.foldl (fun index row =>
    match sourceText M row with
    | some key => index.insert key row
    | none => index) .empty

/-- The first arm of a kind. -/
def firstArm (kind : MergeClauseKind) : Option (MergeClause U V) :=
  clauses.find? (fun c => c.kind = kind)

/-- The arm a target row gets, with the source row it is evaluated on. -/
def targetArm (index : SortedMap String Row) (target : Row) : Option (MergeClause U V × Row) :=
  match targetText M target with
  | none => none
  | some key =>
    match index.get key with
    | some source => (firstArm clauses .matched).map (·, source)
    | none => (firstArm clauses .notMatchedBySource).map (·, .empty)

/-- The target rows that get an arm, in the order of the scan. -/
def changes (sources : List Row) (targets : List (String × Row)) :
    List ((String × Row) × MergeClause U V × Row) :=
  targets.filterMap (fun t => (targetArm M clauses (sourceIndex M sources) t.2).map (t, ·))

/-- The texts of target rows that the map has. -/
def matchedSourceKeys (index : SortedMap String Row) (targets : List (String × Row)) : List String :=
  targets.filterMap (fun t => (targetText M t.2).filter (fun key => (index.get key).isSome))

/-- The rows of the map that the not-matched arm is applied to. -/
def unmatchedRows (sources : List Row) (targets : List (String × Row)) : List Row :=
  ((sourceIndex M sources).entries.filter
    (fun e => e.1 ∉ matchedSourceKeys M (sourceIndex M sources) targets)).map (·.2)

def planMergeWrite (action : MergeActionOp U V) (target source : Row) : Except LiteError MergeWrite :=
  match action with
  | .update updates => (M.resolveUpdates updates target source M.sourceAlias).map .update
  | .delete => .ok .delete
  | .insert values => (M.buildInsertMap values source M.sourceAlias).map .insert
  | .doNothing => .ok .nothing

/-- The id of a row, or the next one generated. -/
def extractId (row : Row) (seq : Nat) : String :=
  ((row.get "id").map (valueToString M.fmt)).getD (M.genId seq)

/-- An inserted row is keyed by its own id. -/
def docId (write : MergeWrite) (source : Row) (seq : Nat) : String :=
  match write with
  | .insert row => extractId M row seq
  | _ => extractId M source seq

def planChange (c : (String × Row) × MergeClause U V × Row) :
    Except LiteError (String × MergeWrite) := do
  let write ← planMergeWrite M c.2.1.action c.1.2 c.2.2
  return (c.1.1, write)

def planInsert (arm : MergeClause U V) (source : Row × Nat) :
    Except LiteError (String × MergeWrite) := do
  let write ← planMergeWrite M arm.action .empty source.1
  return (docId M write source.1 source.2, write)

def planInserts (sources : List Row) (targets : List (String × Row)) :
    Except LiteError (List (String × MergeWrite)) :=
  match firstArm clauses .notMatched with
  | none => .ok []
  | some arm => (unmatchedRows M sources targets).zipIdx.mapM (planInsert M arm)

/-- All writes are resolved before the first one is made. -/
def planMerge (sources : List Row) (targets : List (String × Row)) :
    Except LiteError (List (String × MergeWrite)) := do
  let changed ← (changes M clauses sources targets).mapM (planChange M)
  let inserted ← planInserts M clauses sources targets
  return changed ++ inserted

/-- A MERGE into the documents, which the scan lists as `targets`. -/
def lowerMerge (sources : List Row) (targets : List (String × Row)) (docs : SortedMap String Row) :
    Except LiteError (SortedMap String Row) := do
  let planned ← planMerge M clauses sources targets
  return planned.foldl applyMergeWrite docs

end Lowering

section Sql

variable {U V : Type} (M : MergeApi U V) (clauses : List (MergeClause U V))
  (sources : List Row) (targets : List (String × Row))

/-- The rows have the same join value, of one type and not null. -/
def Joins (source target : Row) : Prop :=
  ∃ v, target.get M.targetJoin = some v ∧ source.get M.sourceJoin = some v ∧ v ≠ .null

/-- What SQL says of the arm of a target row: the first matched arm with a source row that joins it,
or the first arm for rows that no source row joins, or none if there is no such arm. -/
def SqlArm (target : Row) : Option (MergeClause U V × Row) → Prop
  | some (arm, source) =>
    (firstArm clauses .matched = some arm ∧ source ∈ sources ∧ Joins M source target) ∨
      (firstArm clauses .notMatchedBySource = some arm ∧ source = .empty ∧
        ∀ s ∈ sources, ¬Joins M s target)
  | none =>
    ((∃ s ∈ sources, Joins M s target) → firstArm clauses .matched = none) ∧
      ((∀ s ∈ sources, ¬Joins M s target) → firstArm clauses .notMatchedBySource = none)

/-- A target row after the write of its arm. -/
def changedRow (target : Row) : Option Row :=
  match targetArm M clauses (sourceIndex M sources) target with
  | none => some target
  | some (arm, source) => (planMergeWrite M arm.action target source).toOption.bind
    (fun write => write.outcome (some target))

/-- The target rows that stay, as they are after the changes. -/
def keptRows : List (String × Row) :=
  targets.filterMap (fun t => (changedRow M clauses sources t.2).map (t.1, ·))

def insertedRow (arm : MergeClause U V) (source : Row × Nat) : Option (String × Row) :=
  match planInsert M arm source with
  | .ok (id, .insert row) => some (id, row)
  | _ => none

/-- The rows the not-matched arm inserts. -/
def insertedRows : List (String × Row) :=
  match firstArm clauses .notMatched with
  | none => []
  | some arm => (unmatchedRows M sources targets).zipIdx.filterMap (insertedRow M arm)

open Classical in
/-- Each target row is changed at most once and by the arm SQL gives it, the not-matched arm is
applied once to each source row that joins no target row, and the documents are in the end the target
rows with their changes and the inserted rows. -/
structure FollowsSql (final : SortedMap String Row) : Prop where
  once : ((changes M clauses sources targets).map (·.1.1)).Sublist (targets.map (·.1))
  target : ∀ t ∈ targets,
    SqlArm M clauses sources t.2 (targetArm M clauses (sourceIndex M sources) t.2)
  source : firstArm clauses .notMatched ≠ none →
    (unmatchedRows M sources targets).Perm
      (sources.filter (fun s => ∀ t ∈ targets, ¬Joins M s t.2))
  result : final.entries.Perm
    (keptRows M clauses sources targets ++ insertedRows M clauses sources targets)

/-- The last source row with a text. -/
def lastWith (key : String) : Option Row :=
  (sources.filter (fun s => sourceText M s = some key)).getLast?

/-- A target row without a join value has no arm to get, and one whose text a source row has joins the
last such row, or there is no matched arm and what it gets as an unmatched row is right. -/
def TargetClean (target : Row) : Prop :=
  match targetText M target with
  | none => firstArm clauses .notMatchedBySource = none
  | some key => ∀ s, lastWith M sources key = some s →
    match firstArm clauses .matched with
    | some _ => Joins M s target
    | none => firstArm clauses .notMatchedBySource = none ∨ ∃ r ∈ sources, Joins M r target

/-- A source row joins a target row, or its text is that of no target row and of no other source
row. -/
def SourceClean (source : Row) : Prop :=
  ∃ key, sourceText M source = some key ∧
    ((∃ t ∈ targets, Joins M source t.2) ∨
      ((∀ t ∈ targets, targetText M t.2 ≠ some key) ∧
        sources.countP (fun s => sourceText M s = some key) = 1))

structure MergeClean : Prop where
  target : ∀ t ∈ targets, TargetClean M clauses sources t.2
  source : firstArm clauses .notMatched ≠ none → ∀ s ∈ sources, SourceClean M sources targets s
  inserted : ((insertedRows M clauses sources targets).map (·.1)).Nodup
  fresh : ∀ e ∈ insertedRows M clauses sources targets,
    e.1 ∉ (keptRows M clauses sources targets).map (·.1)

/-- SQL has no other actions for rows without a target row. -/
def NotMatchedInserts : Prop := ∀ arm, firstArm clauses .notMatched = some arm →
  arm.action = .doNothing ∨ ∃ values, arm.action = .insert values

end Sql

section Index

variable {U V : Type} (M : MergeApi U V) {clauses : List (MergeClause U V)}
  {sources : List Row} {targets : List (String × Row)}

lemma get_sourceIndex (sources : List Row) (key : String) :
    (sourceIndex M sources).get key = lastWith M sources key := by
  induction sources using List.reverseRecOn with
  | nil => rfl
  | append_singleton sources row ih =>
    rw [sourceIndex, List.foldl_append, ← sourceIndex, lastWith, List.filter_append]
    simp only [List.foldl_cons, List.foldl_nil]
    cases htext : sourceText M row with
    | none =>
      rw [ih, List.filter_cons_of_neg (by simp [htext])]
      simp [lastWith]
    | some k =>
      by_cases hk : k = key
      · subst hk
        simp [htext]
      · rw [SortedMap.get_insert, if_neg (Ne.symm hk), ih,
          List.filter_cons_of_neg (by simp [htext, hk])]
        simp [lastWith]

variable {M}

lemma mem_of_lastWith {key : String} {s : Row} (h : lastWith M sources key = some s) :
    s ∈ sources ∧ sourceText M s = some key := by
  have hmem := List.mem_of_getLast? h
  simpa using List.mem_filter.mp hmem

lemma exists_lastWith {key : String} {s : Row} (hs : s ∈ sources) (htext : sourceText M s = some key) :
    ∃ r, lastWith M sources key = some r := by
  have hmem : s ∈ sources.filter (fun s => sourceText M s = some key) :=
    List.mem_filter.mpr ⟨hs, by simp [htext]⟩
  exact ⟨_, List.getLast?_eq_some_getLast (List.ne_nil_of_mem hmem)⟩

lemma Joins.texts {source target : Row} (h : Joins M source target) :
    ∃ key, targetText M target = some key ∧ sourceText M source = some key := by
  obtain ⟨v, ht, hs, _⟩ := h
  exact ⟨valueToString M.fmt v, by simp [targetText, ht], by simp [sourceText, hs]⟩

lemma firstArm_kind {kind : MergeClauseKind} {arm : MergeClause U V}
    (h : firstArm clauses kind = some arm) : arm.kind = kind := by
  simpa using List.find?_some h

/-- The arm of a target row is the one SQL gives it exactly for the clean rows. -/
lemma sqlArm_iff (target : Row) :
    SqlArm M clauses sources target (targetArm M clauses (sourceIndex M sources) target) ↔
      TargetClean M clauses sources target := by
  cases htext : targetText M target with
  | none =>
    have hnone : ∀ s ∈ sources, ¬Joins M s target := by
      intro s _ hjoin
      obtain ⟨key, hkey, _⟩ := hjoin.texts
      rw [htext] at hkey
      exact absurd hkey (by simp)
    simp only [targetArm, TargetClean, htext, SqlArm]
    exact ⟨fun h => h.2 hnone, fun h => ⟨fun ⟨s, hs, hj⟩ => absurd hj (hnone s hs), fun _ => h⟩⟩
  | some key =>
    cases hlast : lastWith M sources key with
    | none =>
      have hnone : ∀ s ∈ sources, ¬Joins M s target := by
        intro s hs hjoin
        obtain ⟨k, hk, hsk⟩ := hjoin.texts
        obtain rfl : key = k := by simpa [htext] using hk
        obtain ⟨r, hr⟩ := exists_lastWith hs hsk
        rw [hlast] at hr
        exact absurd hr (by simp)
      simp only [targetArm, TargetClean, htext, get_sourceIndex, hlast]
      refine iff_of_true ?_ (by simp)
      cases harm : firstArm clauses .notMatchedBySource with
      | none => exact ⟨fun ⟨s, hs, hj⟩ => absurd hj (hnone s hs), fun _ => harm⟩
      | some arm => exact .inr ⟨harm, rfl, hnone⟩
    | some s =>
      simp only [targetArm, TargetClean, htext, get_sourceIndex, hlast, Option.some.injEq,
        forall_eq']
      cases harm : firstArm clauses .matched with
      | none =>
        simp only [Option.map_none, SqlArm]
        constructor
        · intro h
          by_cases hjoin : ∃ r ∈ sources, Joins M r target
          · exact .inr hjoin
          · exact .inl (h.2 fun r hr hj => hjoin ⟨r, hr, hj⟩)
        · rintro (hnone | ⟨r, hr, hj⟩)
          · exact ⟨fun _ => harm, fun _ => hnone⟩
          · exact ⟨fun _ => harm, fun hno => absurd hj (hno r hr)⟩
      | some arm =>
        simp only [Option.map_some, SqlArm]
        constructor
        · rintro (⟨_, _, hjoin⟩ | ⟨hother, _, _⟩)
          · exact hjoin
          · -- an arm has one kind, so it is not the first of both
            have hkind := (firstArm_kind harm).symm.trans (firstArm_kind hother)
            exact absurd hkind (by decide)
        · exact fun hjoin => .inl ⟨harm, (mem_of_lastWith hlast).1, hjoin⟩

/-- The rows that get the not-matched arm are the last rows of the texts no target row has. -/
lemma mem_unmatchedRows {row : Row} : row ∈ unmatchedRows M sources targets ↔
    ∃ key, lastWith M sources key = some row ∧ ∀ t ∈ targets, targetText M t.2 ≠ some key := by
  have hkey : ∀ key, lastWith M sources key = some row →
      (key ∉ matchedSourceKeys M (sourceIndex M sources) targets ↔
        ∀ t ∈ targets, targetText M t.2 ≠ some key) := by
    intro key hlast
    simp only [matchedSourceKeys, List.mem_filterMap, Option.filter_eq_some_iff, not_exists, not_and,
      get_sourceIndex, hlast, Option.isSome_some, not_true_eq_false, imp_false]
  simp only [unmatchedRows, List.mem_map, List.mem_filter, decide_eq_true_eq, Prod.exists,
    exists_eq_right]
  refine exists_congr fun key => ?_
  rw [← SortedMap.get_eq_some_iff, get_sourceIndex]
  exact and_congr_right (hkey key)

lemma unmatchedRows_texts : (unmatchedRows M sources targets).Pairwise
    (fun a b => sourceText M a ≠ sourceText M b) := by
  rw [unmatchedRows, List.pairwise_map]
  refine ((sourceIndex M sources).sorted.filter _).imp_of_mem fun ha hb hlt heq => ?_
  have htext : ∀ e ∈ (sourceIndex M sources).entries, sourceText M e.2 = some e.1 := by
    intro e he
    have hlast : lastWith M sources e.1 = some e.2 := by
      rw [← get_sourceIndex]
      exact SortedMap.get_eq_some_iff.mpr he
    exact (mem_of_lastWith hlast).2
  rw [htext _ (List.mem_filter.mp ha).1, htext _ (List.mem_filter.mp hb).1] at heq
  exact absurd (Option.some.inj heq) hlt.ne

lemma countP_text_unmatchedRows {row : Row} (hrow : row ∈ unmatchedRows M sources targets)
    {key : String} (hkey : sourceText M row = some key) :
    (unmatchedRows M sources targets).countP (fun s => sourceText M s = some key) = 1 := by
  have hle : (unmatchedRows M sources targets).countP (fun s => sourceText M s = some key) ≤ 1 := by
    rw [List.countP_eq_length_filter]
    by_contra hlt
    match hfilter : (unmatchedRows M sources targets).filter
      (fun s => sourceText M s = some key) with
    | [] => simp [hfilter] at hlt
    | [a] => simp [hfilter] at hlt
    | a :: b :: rest =>
      have hall : (unmatchedRows M sources targets).Pairwise
          (fun a b => sourceText M a ≠ sourceText M b) := unmatchedRows_texts
      have hpair := hall.filter (fun s => decide (sourceText M s = some key))
      have ha := (List.mem_filter.mp (hfilter ▸ List.mem_cons_self)).2
      have hb := (List.mem_filter.mp
        (hfilter ▸ List.mem_cons_of_mem a List.mem_cons_self)).2
      rw [hfilter] at hpair
      have hne := List.rel_of_pairwise_cons hpair List.mem_cons_self
      exact hne ((of_decide_eq_true ha).trans (of_decide_eq_true hb).symm)
  have hpos : 0 < (unmatchedRows M sources targets).countP (fun s => sourceText M s = some key) :=
    List.countP_pos_iff.mpr ⟨row, hrow, by simp [hkey]⟩
  omega

lemma eq_of_countP_eq_one {key : String}
    (h : sources.countP (fun s => sourceText M s = some key) = 1) {a b : Row} (ha : a ∈ sources)
    (hb : b ∈ sources) (hta : sourceText M a = some key) (htb : sourceText M b = some key) :
    a = b := by
  rw [List.countP_eq_length_filter, List.length_eq_one_iff] at h
  obtain ⟨c, hc⟩ := h
  have hmem : ∀ r ∈ sources, sourceText M r = some key → r = c := by
    intro r hr htr
    have : r ∈ sources.filter (fun s => sourceText M s = some key) :=
      List.mem_filter.mpr ⟨hr, by simp [htr]⟩
    rw [hc] at this
    exact List.mem_singleton.mp this
  rw [hmem a ha hta, hmem b hb htb]

open Classical in
lemma sourceClean_of_perm (hperm : (unmatchedRows M sources targets).Perm
    (sources.filter (fun s => ∀ t ∈ targets, ¬Joins M s t.2))) {row : Row} (hrow : row ∈ sources) :
    SourceClean M sources targets row := by
  by_cases hjoin : ∃ t ∈ targets, Joins M row t.2
  · obtain ⟨t, ht, hj⟩ := hjoin
    obtain ⟨key, _, hkey⟩ := hj.texts
    exact ⟨key, hkey, .inl ⟨t, ht, hj⟩⟩
  · have hexpected : row ∈ sources.filter (fun s => ∀ t ∈ targets, ¬Joins M s t.2) :=
      List.mem_filter.mpr ⟨hrow, decide_eq_true fun t ht hj => hjoin ⟨t, ht, hj⟩⟩
    have hmem := hperm.mem_iff.mpr hexpected
    obtain ⟨key, hlast, hfree⟩ := mem_unmatchedRows.mp hmem
    have hkey := (mem_of_lastWith hlast).2
    refine ⟨key, hkey, .inr ⟨hfree, ?_⟩⟩
    have hone := countP_text_unmatchedRows hmem hkey
    rw [hperm.countP_eq, List.countP_filter] at hone
    rw [← hone]
    refine List.countP_congr fun s _ => ?_
    simp only [decide_eq_true_eq, Bool.and_eq_true, iff_self_and]
    -- no row with this text joins a target row, since no target row has the text
    intro htext t ht hj
    obtain ⟨k, hk, hsk⟩ := hj.texts
    exact hfree t ht (by rw [hk, ← hsk, htext])

open Classical in
lemma perm_of_sourceClean (hclean : ∀ s ∈ sources, SourceClean M sources targets s) :
    (unmatchedRows M sources targets).Perm
      (sources.filter (fun s => ∀ t ∈ targets, ¬Joins M s t.2)) := by
  have hfree : ∀ s ∈ sources, (∀ t ∈ targets, ¬Joins M s t.2) → ∃ key, sourceText M s = some key ∧
      (∀ t ∈ targets, targetText M t.2 ≠ some key) ∧
      sources.countP (fun s => sourceText M s = some key) = 1 := by
    intro s hs hno
    obtain ⟨key, hkey, ⟨t, ht, hj⟩ | ⟨hfree, hone⟩⟩ := hclean s hs
    · exact absurd hj (hno t ht)
    · exact ⟨key, hkey, hfree, hone⟩
  have hnodup : (sources.filter (fun s => ∀ t ∈ targets, ¬Joins M s t.2)).Nodup := by
    rw [List.nodup_iff_sublist]
    intro s hsub
    obtain ⟨hs, hno⟩ := List.mem_filter.mp (hsub.subset List.mem_cons_self)
    obtain ⟨key, hkey, _, hone⟩ := hfree s hs (of_decide_eq_true hno)
    have htwice := (hsub.trans List.filter_sublist).countP_le
      (p := fun s => decide (sourceText M s = some key))
    simp [hkey, hone] at htwice
  refine (List.perm_ext_iff_of_nodup (unmatchedRows_texts.imp fun hne heq => hne (congrArg _ heq))
    hnodup).mpr fun row => ?_
  rw [mem_unmatchedRows, List.mem_filter, decide_eq_true_eq]
  constructor
  · rintro ⟨key, hlast, hno⟩
    obtain ⟨hmem, hkey⟩ := mem_of_lastWith hlast
    refine ⟨hmem, fun t ht hj => ?_⟩
    obtain ⟨k, hk, hsk⟩ := hj.texts
    exact hno t ht (by rw [hk, ← hsk, hkey])
  · rintro ⟨hmem, hno⟩
    obtain ⟨key, hkey, hnone, hone⟩ := hfree row hmem hno
    obtain ⟨last, hlast⟩ := exists_lastWith hmem hkey
    obtain ⟨hlastMem, hlastKey⟩ := mem_of_lastWith hlast
    refine ⟨key, ?_, hnone⟩
    rw [hlast, eq_of_countP_eq_one hone hlastMem hmem hlastKey hkey]

lemma map_filterMap_sublist {α β κ : Type} {f : α → Option β} {name : β → κ} {name' : α → κ}
    (h : ∀ a b, f a = some b → name b = name' a) (l : List α) :
    ((l.filterMap f).map name).Sublist (l.map name') := by
  induction l with
  | nil => exact .slnil
  | cons a l ih =>
    cases ha : f a with
    | none =>
      rw [List.filterMap_cons_none ha]
      exact ih.cons _
    | some b =>
      rw [List.filterMap_cons_some ha, List.map_cons, h a b ha]
      exact ih.cons_cons _

lemma changes_once : ((changes M clauses sources targets).map (·.1.1)).Sublist
    (targets.map (·.1)) := by
  refine map_filterMap_sublist (fun t c hc => ?_) targets
  obtain ⟨_, _, rfl⟩ := Option.map_eq_some_iff.mp hc
  rfl

end Index

section Writes

variable {U V : Type} {M : MergeApi U V} {clauses : List (MergeClause U V)}
  {sources : List Row} {targets : List (String × Row)}

lemma get_applyMergeWrite (docs : SortedMap String Row) (planned : String × MergeWrite) (id : String) :
    (applyMergeWrite docs planned).get id =
      if id = planned.1 then planned.2.outcome (docs.get planned.1) else docs.get id := by
  unfold applyMergeWrite
  cases hout : planned.2.outcome (docs.get planned.1) with
  | none => simp
  | some row => simp

lemma planMergeWrite_of_planChange {c : (String × Row) × MergeClause U V × Row}
    {planned : String × MergeWrite} (h : planChange M c = .ok planned) :
    planMergeWrite M c.2.1.action c.1.2 c.2.2 = .ok planned.2 ∧ planned.1 = c.1.1 := by
  obtain ⟨write, hwrite, hout⟩ := ExceptFold.bind_eq_ok.mp h
  obtain rfl := Except.ok.inj hout
  exact ⟨hwrite, rfl⟩

/-- The changes write each target row's outcome under its id, and nothing else. -/
lemma get_foldl_changes {docs : SortedMap String Row} {planned : List (String × MergeWrite)}
    (hplan : (changes M clauses sources targets).mapM (planChange M) = .ok planned)
    (hids : (targets.map (·.1)).Nodup) (hdocs : ∀ t ∈ targets, docs.get t.1 = some t.2) :
    (∀ t ∈ targets, (planned.foldl applyMergeWrite docs).get t.1 = changedRow M clauses sources t.2) ∧
      ∀ id ∉ targets.map (·.1), (planned.foldl applyMergeWrite docs).get id = docs.get id := by
  induction targets generalizing docs planned with
  | nil =>
    obtain rfl := Except.ok.inj hplan
    exact ⟨fun t ht => absurd ht List.not_mem_nil, fun _ _ => rfl⟩
  | cons t targets ih =>
    rw [List.map_cons, List.nodup_cons] at hids
    rw [List.forall_mem_cons] at hdocs
    cases harm : targetArm M clauses (sourceIndex M sources) t.2 with
    | none =>
      rw [changes, List.filterMap_cons_none (by rw [harm]; rfl)] at hplan
      obtain ⟨hin, hout⟩ := ih hplan hids.2 hdocs.2
      refine ⟨List.forall_mem_cons.mpr ⟨?_, hin⟩, fun id hid => hout id ?_⟩
      · rw [hout t.1 hids.1, hdocs.1, changedRow, harm]
      · exact fun hmem => hid (List.mem_cons_of_mem _ hmem)
    | some arm =>
      rw [changes, List.filterMap_cons_some (by rw [harm]; rfl)] at hplan
      obtain ⟨first, rest, hfirst, hrest, rfl⟩ := ExceptFold.mapM_cons_ok.mp hplan
      obtain ⟨hwrite, hid⟩ := planMergeWrite_of_planChange hfirst
      have hkeep : ∀ t' ∈ targets, (applyMergeWrite docs first).get t'.1 = some t'.2 := by
        intro t' ht'
        have hne : t'.1 ≠ first.1 := by
          rintro heq
          exact hids.1 (hid ▸ heq ▸ List.mem_map_of_mem ht')
        rw [get_applyMergeWrite, if_neg hne]
        exact hdocs.2 t' ht'
      obtain ⟨hin, hout⟩ := ih hrest hids.2 hkeep
      rw [List.foldl_cons]
      refine ⟨List.forall_mem_cons.mpr ⟨?_, hin⟩, fun id hnot => ?_⟩
      · rw [hout t.1 hids.1, get_applyMergeWrite, if_pos hid.symm, hid, hdocs.1, changedRow, harm]
        dsimp only at hwrite ⊢
        rw [hwrite]
        rfl
      · rw [List.map_cons, List.mem_cons, not_or] at hnot
        rw [hout id hnot.2, get_applyMergeWrite, if_neg (hid ▸ hnot.1)]

lemma keptRows_ids (hids : (targets.map (·.1)).Nodup) :
    ((keptRows M clauses sources targets).map (·.1)).Nodup := by
  refine hids.sublist (map_filterMap_sublist (fun t e he => ?_) targets)
  obtain ⟨_, _, rfl⟩ := Option.map_eq_some_iff.mp he
  rfl

lemma entries_foldl_changes {docs : SortedMap String Row} {planned : List (String × MergeWrite)}
    (hplan : (changes M clauses sources targets).mapM (planChange M) = .ok planned)
    (hscan : targets.Perm docs.entries) :
    (planned.foldl applyMergeWrite docs).entries.Perm (keptRows M clauses sources targets) := by
  have hids : (targets.map (·.1)).Nodup := (hscan.map _).nodup_iff.mpr docs.keys_nodup
  obtain ⟨hin, hout⟩ := get_foldl_changes hplan hids
    (fun t ht => SortedMap.get_eq_some_iff.mpr (hscan.mem_iff.mp ht))
  refine (List.perm_ext_iff_of_nodup (.of_map _ (SortedMap.keys_nodup _))
    (.of_map _ (keptRows_ids hids))).mpr fun e => ?_
  rw [← SortedMap.get_eq_some_iff, keptRows, List.mem_filterMap]
  constructor
  · intro hget
    by_cases hmem : e.1 ∈ targets.map (·.1)
    · obtain ⟨t, ht, hid⟩ := List.mem_map.mp hmem
      refine ⟨t, ht, ?_⟩
      rw [← hin t ht, hid, hget]
      rfl
    · rw [hout e.1 hmem, SortedMap.get_eq_some_iff, ← hscan.mem_iff] at hget
      exact absurd (List.mem_map_of_mem hget) hmem
  · rintro ⟨t, ht, he⟩
    obtain ⟨row, hrow, rfl⟩ := Option.map_eq_some_iff.mp he
    rw [hin t ht, hrow]

lemma applyMergeWrite_nothing (docs : SortedMap String Row) (id : String) :
    applyMergeWrite docs (id, .nothing) = docs := by
  refine SortedMap.ext fun k => ?_
  rw [get_applyMergeWrite]
  split_ifs with hk
  · rw [hk]
    rfl
  · rfl

lemma entries_applyMergeWrite_insert {docs : SortedMap String Row} {id : String} {row : Row}
    (hfree : docs.get id = none) :
    (applyMergeWrite docs (id, .insert row)).entries.Perm ((id, row) :: docs.entries) := by
  simp only [applyMergeWrite, hfree, MergeWrite.outcome, Option.getD_none]
  refine (SortedMap.entries_insert_perm docs id row).trans ?_
  rw [SortedMap.erase_of_get_eq_none hfree]

lemma entries_foldl_inserts {arm : MergeClause U V}
    (harm : arm.action = .doNothing ∨ ∃ values, arm.action = .insert values)
    {rows : List (Row × Nat)} {docs : SortedMap String Row} {planned : List (String × MergeWrite)}
    (hplan : rows.mapM (planInsert M arm) = .ok planned)
    (hids : ((docs.entries ++ rows.filterMap (insertedRow M arm)).map (·.1)).Nodup) :
    (planned.foldl applyMergeWrite docs).entries.Perm
      (docs.entries ++ rows.filterMap (insertedRow M arm)) := by
  induction rows generalizing docs planned with
  | nil =>
    obtain rfl := Except.ok.inj hplan
    rw [List.filterMap_nil, List.append_nil]
    exact .refl _
  | cons r rows ih =>
    obtain ⟨⟨id, write⟩, rest, hfirst, hrest, rfl⟩ := ExceptFold.mapM_cons_ok.mp hplan
    obtain ⟨w, hwrite, hout⟩ := ExceptFold.bind_eq_ok.mp hfirst
    obtain ⟨hid, rfl⟩ := Prod.mk.inj (Except.ok.inj hout)
    rw [List.foldl_cons]
    rcases harm with hnothing | ⟨values, hinsert⟩
    · simp only [planMergeWrite, hnothing] at hwrite
      obtain rfl := Except.ok.inj hwrite
      have hnone : insertedRow M arm r = none := by rw [insertedRow, hfirst]
      rw [List.filterMap_cons_none hnone] at hids ⊢
      rw [applyMergeWrite_nothing]
      exact ih hrest hids
    · simp only [planMergeWrite, hinsert] at hwrite
      cases hrow : M.buildInsertMap values r.1 M.sourceAlias with
      | error e =>
        rw [hrow] at hwrite
        cases hwrite
      | ok row =>
        rw [hrow] at hwrite
        obtain rfl := Except.ok.inj hwrite
        have hsome : insertedRow M arm r = some (id, row) := by rw [insertedRow, hfirst]
        rw [List.filterMap_cons_some hsome] at hids ⊢
        have hmiddle : (docs.entries ++ (id, row) :: rows.filterMap (insertedRow M arm)).Perm
            ((id, row) :: docs.entries ++ rows.filterMap (insertedRow M arm)) := List.perm_middle
        have hfree : docs.get id = none := by
          have hnodup := (hmiddle.map Prod.fst).nodup_iff.mp hids
          rw [List.cons_append, List.map_cons, List.nodup_cons, List.map_append, List.mem_append,
            not_or] at hnodup
          refine SortedMap.get_eq_none_iff.mpr fun v hv => hnodup.1.1 ?_
          exact List.mem_map.mpr ⟨(id, v), hv, rfl⟩
        have hstep := hmiddle.trans ((entries_applyMergeWrite_insert hfree).symm.append_right _)
        exact (ih hrest ((hstep.map Prod.fst).nodup_iff.mp hids)).trans hstep.symm

/-- The documents in the end are the rows that stay and those inserted exactly if no inserted row has
the id of another or of a row that stays. -/
lemma result_iff {docs final : SortedMap String Row} (hscan : targets.Perm docs.entries)
    (hinserts : NotMatchedInserts clauses)
    (hrun : lowerMerge M clauses sources targets docs = .ok final) :
    final.entries.Perm (keptRows M clauses sources targets ++ insertedRows M clauses sources targets) ↔
      ((insertedRows M clauses sources targets).map (·.1)).Nodup ∧
        ∀ e ∈ insertedRows M clauses sources targets,
          e.1 ∉ (keptRows M clauses sources targets).map (·.1) := by
  obtain ⟨planned, hplan, hfinal⟩ := ExceptFold.bind_eq_ok.mp hrun
  obtain ⟨changed, hchanged, hplan⟩ := ExceptFold.bind_eq_ok.mp hplan
  obtain ⟨inserted, hinserted, hplan⟩ := ExceptFold.bind_eq_ok.mp hplan
  obtain rfl := Except.ok.inj hfinal
  obtain rfl := Except.ok.inj hplan
  have hkept := entries_foldl_changes hchanged hscan
  have hkeptIds : ((keptRows M clauses sources targets).map (·.1)).Nodup :=
    keptRows_ids ((hscan.map Prod.fst).nodup_iff.mpr docs.keys_nodup)
  rw [List.foldl_append]
  constructor
  · intro hperm
    have hids := (hperm.map Prod.fst).nodup_iff.mp (SortedMap.keys_nodup _)
    rw [List.map_append, List.nodup_append] at hids
    exact ⟨hids.2.1, fun e he hmem => hids.2.2 _ hmem _ (List.mem_map_of_mem he) rfl⟩
  · rintro ⟨hnodup, hfresh⟩
    have hids : ((keptRows M clauses sources targets ++
        insertedRows M clauses sources targets).map (·.1)).Nodup := by
      rw [List.map_append, List.nodup_append]
      refine ⟨hkeptIds, hnodup, fun id hid id' hid' heq => ?_⟩
      obtain ⟨e, he, rfl⟩ := List.mem_map.mp hid'
      exact hfresh e he (heq ▸ hid)
    unfold planInserts at hinserted
    unfold insertedRows at hids ⊢
    cases harm : firstArm clauses .notMatched with
    | none =>
      rw [harm] at hinserted
      obtain rfl := Except.ok.inj hinserted
      rw [List.append_nil]
      exact hkept
    | some arm =>
      rw [harm] at hinserted hids
      refine (entries_foldl_inserts (hinserts arm harm) hinserted ?_).trans (hkept.append_right _)
      exact ((hkept.append_right _).map Prod.fst).nodup_iff.mpr hids

end Writes

section Sample

/-- A join on column `k`. An update sets `v` to the source's id, an insert copies the source row. -/
def joinOnK : MergeApi Unit Unit where
  targetJoin := "k"
  sourceJoin := "k"
  sourceAlias := "s"
  fmt _ := ""
  resolveUpdates _ _ source _ := .ok (SortedMap.empty.insert "v" ((source.get "id").getD .null))
  buildInsertMap _ source _ := .ok source
  genId n := s!"gen-{n}"

def updateMatched : MergeClause Unit Unit := ⟨.matched, .update ()⟩

def insertNotMatched : MergeClause Unit Unit := ⟨.notMatched, .insert ()⟩

def rowOf (id : String) (k : Value) : Row :=
  (SortedMap.empty.insert "id" (.string id)).insert "k" k

/-- A collection of one document. -/
def oneDoc (id : String) (k : Value) : SortedMap String Row := SortedMap.empty.insert id (rowOf id k)

end Sample

end NodedbLite.Query
