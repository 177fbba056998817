import NodedbLite.HashJoin

/-! The inline hash join against the join of SQL. Keys are compared by their texts, null among them,
and the result has the columns of its first row. -/
namespace NodedbLite.Query

open CappedOutput

structure JoinSpec (F : Type) where
  on : List (String × String)
  joinType : JoinType
  limit : Nat
  projection : List JoinProjection
  postFilters : List F

def usizeMax : Nat := 2 ^ 64 - 1

def JoinSpec.splitKeys {F : Type} (spec : JoinSpec F) : List String × List String :=
  (spec.on.map Prod.fst, spec.on.map Prod.snd)

/-- A limit of zero stands for none. -/
def JoinSpec.effectiveLimit {F : Type} (spec : JoinSpec F) : Nat :=
  if spec.limit = 0 then usizeMax else spec.limit

def executeInlineHashJoin {E F : Type} (A : AggregateApi E F) (leftRows rightRows : List Row)
    (rightAlias : Option String) (spec : JoinSpec F) : Except LiteError QueryResult := do
  let joined := hashJoin A.fmt spec.splitKeys.2 spec.splitKeys.1 spec.joinType rightAlias
    spec.effectiveLimit rightRows leftRows
  let kept ← retainMatching A joined spec.postFilters
  .ok (mapsToResult (applyProjection kept spec.projection))

/-- The rows of a result under their column names. -/
def rowsToMaps (result : QueryResult) : List Row :=
  result.rows.map (fun row => SortedMap.ofList (result.columns.zip row))

section Sql

open Classical in
/-- Equality of keys in SQL: numbers of all types are compared as numbers, null equals nothing. -/
noncomputable def sqlMatch (leftKeys rightKeys : List String) (left right : Row) : Bool :=
  decide (SameValues (joinKey left leftKeys) (joinKey right rightKeys) ∧
    Value.null ∉ joinKey left leftKeys)

lemma sqlMatch_iff {leftKeys rightKeys : List String} {left right : Row} :
    sqlMatch leftKeys rightKeys left right = true ↔
      SameValues (joinKey left leftKeys) (joinKey right rightKeys) ∧
        Value.null ∉ joinKey left leftKeys := by
  classical
  exact decide_eq_true_iff

/-- A row with the given columns, null where it has none. -/
def completeRow (columns : List String) (row : Row) : Row :=
  SortedMap.ofList (columns.map (fun c => (c, (row.get c).getD .null)))

def outColumns (leftColumns rightColumns : List String) : JoinType → List String
  | .semi | .anti => leftColumns
  | _ => leftColumns ++ rightColumns

/-- The join of SQL. -/
noncomputable def sqlJoin (joinType : JoinType) (leftColumns rightColumns leftKeys rightKeys : List String)
    (lefts rights : List Row) : List Row :=
  (nestedLoop joinType (sqlMatch leftKeys rightKeys) lefts rights).map
    (completeRow (outColumns leftColumns rightColumns joinType))

end Sql

section Columns

lemma get_completeRow (columns : List String) (row : Row) (c : String) :
    (completeRow columns row).get c
      = if c ∈ columns then some ((row.get c).getD .null) else none := by
  split
  · rename_i hc
    exact SortedMap.get_ofList_map_of_mem (fun c => (row.get c).getD .null) hc
  · rename_i hc
    exact SortedMap.get_ofList_of_notMem (by simpa using hc)

lemma completeRow_congr {columns columns' : List String} (h : ∀ c, c ∈ columns ↔ c ∈ columns')
    (row : Row) : completeRow columns row = completeRow columns' row := by
  apply SortedMap.ext
  intro c
  rw [get_completeRow, get_completeRow, if_congr (h c) rfl rfl]

lemma rowsToMaps_mapsToResult (rows : List Row) :
    rowsToMaps (mapsToResult rows)
      = rows.map (completeRow ((rows.head?.map SortedMap.keys).getD [])) := by
  cases rows with
  | nil => rfl
  | cons first rest =>
    simp only [rowsToMaps, mapsToResult, List.map_map, List.head?_cons, Option.map_some,
      Option.getD_some]
    apply List.map_congr_left
    intro row _
    exact congrArg SortedMap.ofList List.map_prod_left_eq_zip.symm

/-- A row has exactly the given columns. -/
def HasColumns (columns : List String) (row : Row) : Prop :=
  ∀ c, (row.get c).isSome ↔ c ∈ columns

/-- Rows with the columns of the first row are the rows with the given columns exactly if the first
row has these. -/
lemma perm_completeRow_iff {rows : List Row} {columns : List String} :
    (rowsToMaps (mapsToResult rows)).Perm (rows.map (completeRow columns)) ↔
      ∀ first ∈ rows.head?, HasColumns columns first := by
  rw [rowsToMaps_mapsToResult]
  cases rows with
  | nil => simp
  | cons first rest =>
    simp only [List.head?_cons, Option.map_some, Option.getD_some, Option.mem_def, Option.some.injEq,
      forall_eq']
    constructor
    · intro hperm c
      have hmem := hperm.mem_iff.mp (List.mem_map_of_mem List.mem_cons_self)
      obtain ⟨other, _, hother⟩ := List.mem_map.mp hmem
      have hget := congrArg (fun row => (row.get c).isSome) hother
      simp only [get_completeRow] at hget
      rw [← SortedMap.mem_keys]
      by_cases hc : c ∈ columns <;> by_cases hf : c ∈ first.keys <;> simp_all
    · intro hcols
      rw [List.map_congr_left (fun row _ => completeRow_congr
        (fun c => SortedMap.mem_keys.trans (hcols c)) row)]

lemma hasColumns_mergeRows {leftColumns rightColumns : List String} {left right : Row}
    (hleft : HasColumns leftColumns left) (hright : HasColumns rightColumns right) :
    HasColumns (leftColumns ++ rightColumns) (mergeRows left right none) := by
  intro c
  have hkeys : c ∈ right.entries.map Prod.fst ↔ c ∈ rightColumns :=
    SortedMap.mem_keys.trans (hright c)
  unfold mergeRows
  rw [SortedMap.isSome_get_foldl_insert, hkeys, hleft c, List.mem_append, or_comm]

lemma completeRow_eq_self {columns : List String} {row : Row} (h : HasColumns columns row) :
    completeRow columns row = row := by
  apply SortedMap.ext
  intro c
  rw [get_completeRow]
  have hc := h c
  cases hget : row.get c <;> simp_all

lemma get_mergeRows (left right : Row) (c : String) :
    (mergeRows left right none).get c = (right.get c).or (left.get c) := by
  unfold mergeRows
  cases hget : right.get c with
  | some v =>
    exact SortedMap.get_foldl_insert_of_mem right.keys_nodup (SortedMap.get_eq_some_iff.mp hget) left
  | none =>
    refine SortedMap.get_foldl_insert_of_notMem left fun hmem => ?_
    have hsome := SortedMap.mem_keys.mp hmem
    rw [hget] at hsome
    cases hsome

lemma mergeRows_inj {leftColumns rightColumns : List String}
    (hdisjoint : leftColumns.Disjoint rightColumns) {left left' right right' : Row}
    (hleft : HasColumns leftColumns left) (hleft' : HasColumns leftColumns left')
    (hright : HasColumns rightColumns right) (hright' : HasColumns rightColumns right')
    (h : mergeRows left right none = mergeRows left' right' none) : left = left' ∧ right = right' := by
  have hget : ∀ c, (right.get c).or (left.get c) = (right'.get c).or (left'.get c) := by
    intro c
    rw [← get_mergeRows, h, get_mergeRows]
  constructor
  · apply SortedMap.ext
    intro c
    have hc := hget c
    by_cases hmem : c ∈ leftColumns
    · rwa [Option.not_isSome_iff_eq_none.mp (mt (hright c).mp (hdisjoint hmem)),
        Option.not_isSome_iff_eq_none.mp (mt (hright' c).mp (hdisjoint hmem))] at hc
    · rw [Option.not_isSome_iff_eq_none.mp (mt (hleft c).mp hmem),
        Option.not_isSome_iff_eq_none.mp (mt (hleft' c).mp hmem)]
  · apply SortedMap.ext
    intro c
    have hc := hget c
    by_cases hmem : c ∈ rightColumns
    · obtain ⟨v, hv⟩ := Option.isSome_iff_exists.mp ((hright c).mpr hmem)
      obtain ⟨v', hv'⟩ := Option.isSome_iff_exists.mp ((hright' c).mpr hmem)
      rw [hv, hv'] at hc ⊢
      exact hc
    · rw [Option.not_isSome_iff_eq_none.mp (mt (hright c).mp hmem),
        Option.not_isSome_iff_eq_none.mp (mt (hright' c).mp hmem)]

lemma hasColumns_left_iff {leftColumns rightColumns : List String} {left : Row}
    (hleft : HasColumns leftColumns left) (hdisjoint : leftColumns.Disjoint rightColumns) :
    HasColumns (leftColumns ++ rightColumns) left ↔ rightColumns = [] := by
  constructor
  · intro hboth
    apply List.eq_nil_iff_forall_not_mem.mpr
    intro c hc
    exact hdisjoint ((hleft c).mp ((hboth c).mpr (List.mem_append_right _ hc))) hc
  · rintro rfl
    rwa [List.append_nil]

lemma hasColumns_right_iff {leftColumns rightColumns : List String} {right : Row}
    (hright : HasColumns rightColumns right) (hdisjoint : leftColumns.Disjoint rightColumns) :
    HasColumns (leftColumns ++ rightColumns) right ↔ leftColumns = [] := by
  constructor
  · intro hboth
    apply List.eq_nil_iff_forall_not_mem.mpr
    intro c hc
    exact hdisjoint hc ((hright c).mp ((hboth c).mpr (List.mem_append_left _ hc)))
  · rintro rfl
    rwa [List.nil_append]

end Columns

section FirstRow

variable {leftColumns rightColumns : List String} {lefts rights : List Row}
  {matched : Row → Row → Bool}

/-- The first row of the join has the columns of both sides: an outer join begins with a matched row,
or the other side has no columns. -/
def FirstComplete (leftColumns rightColumns : List String) (lefts rights : List Row)
    (matched : Row → Row → Bool) : JoinType → Prop
  | .inner | .semi | .anti => True
  | .left => ∀ left ∈ lefts.head?, rightColumns = [] ∨ ∃ right ∈ rights, matched left right
  | .right => rights = [] ∨ leftColumns = [] ∨
      ∃ left ∈ lefts, ∃ right ∈ rights, matched left right
  | .full => (∀ left ∈ lefts.head?, rightColumns = [] ∨ ∃ right ∈ rights, matched left right) ∧
      (lefts = [] → rights = [] ∨ leftColumns = [])

variable (hlefts : ∀ left ∈ lefts, HasColumns leftColumns left)
  (hrights : ∀ right ∈ rights, HasColumns rightColumns right)

include hlefts in
lemma hasColumns_of_semi {joinType : JoinType} (htype : joinType = .semi ∨ joinType = .anti) {row : Row}
    (hrow : row ∈ nestedLoop joinType matched lefts rights) : HasColumns leftColumns row := by
  have hphase : row ∈ leftPhase joinType matched lefts rights := by
    rcases htype with rfl | rfl <;> simpa [nestedLoop, rightPhase] using hrow
  obtain ⟨left, hleft, hin⟩ := List.mem_flatMap.mp hphase
  have heq : row = left := by
    rcases htype with rfl | rfl <;> simp only [rowsOfMatches] at hin <;> split at hin <;> simp_all
  exact heq ▸ hlefts left hleft

include hlefts hrights in
lemma hasColumns_of_matches {joinType : JoinType} (htype : joinType = .inner ∨ joinType = .right)
    {row : Row} (hrow : row ∈ leftPhase joinType matched lefts rights) :
    HasColumns (leftColumns ++ rightColumns) row := by
  obtain ⟨left, hleft, hin⟩ := List.mem_flatMap.mp hrow
  have hmap : ∃ right ∈ rights, mergeRows left right none = row := by
    have hmerged : row ∈ (rights.filter (matched left)).map (fun right => mergeRows left right none) := by
      rcases htype with rfl | rfl <;> exact hin
    obtain ⟨right, hright, heq⟩ := List.mem_map.mp hmerged
    exact ⟨right, (List.mem_filter.mp hright).1, heq⟩
  obtain ⟨right, hright, rfl⟩ := hmap
  exact hasColumns_mergeRows (hlefts left hleft) (hrights right hright)

lemma filter_matched_eq_nil {left : Row} :
    rights.filter (matched left) = [] ↔ ¬ ∃ right ∈ rights, matched left right = true := by
  rw [List.filter_eq_nil_iff]
  push Not
  rfl

lemma head_outer {joinType : JoinType} (htype : joinType = .left ∨ joinType = .full) (left : Row)
    (rest : List Row) :
    (nestedLoop joinType matched (left :: rest) rights).head?
      = some (match rights.filter (matched left) with
          | [] => left
          | right :: _ => mergeRows left right none) := by
  cases hf : rights.filter (matched left) with
  | nil =>
    rw [nestedLoop, leftPhase, List.flatMap_cons, hf]
    rcases htype with rfl | rfl <;> rfl
  | cons right matching =>
    rw [nestedLoop, leftPhase, List.flatMap_cons, hf]
    rcases htype with rfl | rfl <;> rfl

include hlefts hrights in
lemma head_outer_iff (hdisjoint : leftColumns.Disjoint rightColumns) {joinType : JoinType}
    (htype : joinType = .left ∨ joinType = .full) {left : Row} {rest : List Row}
    (hcons : lefts = left :: rest) :
    (∀ first ∈ (nestedLoop joinType matched lefts rights).head?,
        HasColumns (leftColumns ++ rightColumns) first) ↔
      rightColumns = [] ∨ ∃ right ∈ rights, matched left right = true := by
  have hleft := hlefts left (hcons ▸ List.mem_cons_self)
  rw [hcons, head_outer htype]
  simp only [Option.mem_def, Option.some.injEq, forall_eq']
  cases hf : rights.filter (matched left) with
  | nil =>
    have hnone := filter_matched_eq_nil.mp hf
    rw [hasColumns_left_iff hleft hdisjoint]
    simp [hnone]
  | cons right _ =>
    have hmem := List.mem_filter.mp (hf ▸ List.mem_cons_self : right ∈ rights.filter (matched left))
    exact iff_of_true (hasColumns_mergeRows hleft (hrights right hmem.1)) (.inr ⟨right, hmem⟩)

include hlefts hrights in
/-- The first row of a join has all columns exactly under the condition. -/
lemma head_nestedLoop_iff (hdisjoint : leftColumns.Disjoint rightColumns) (joinType : JoinType) :
    (∀ first ∈ (nestedLoop joinType matched lefts rights).head?,
        HasColumns (outColumns leftColumns rightColumns joinType) first) ↔
      FirstComplete leftColumns rightColumns lefts rights matched joinType := by
  -- without left rows that match, a right or full join begins with its first right row
  have hrightRow : ∀ {right : Row} {rest : List Row}, rights = right :: rest →
      (HasColumns (leftColumns ++ rightColumns) right ↔ leftColumns = []) := fun hcons =>
    hasColumns_right_iff (hrights _ (hcons ▸ List.mem_cons_self)) hdisjoint
  cases joinType with
  | semi =>
    refine iff_of_true (fun first h => ?_) trivial
    exact hasColumns_of_semi hlefts (.inl rfl) (List.mem_of_mem_head? h)
  | anti =>
    refine iff_of_true (fun first h => ?_) trivial
    exact hasColumns_of_semi hlefts (.inr rfl) (List.mem_of_mem_head? h)
  | inner =>
    refine iff_of_true (fun first h => ?_) trivial
    apply hasColumns_of_matches hlefts hrights (.inl rfl)
    simpa [nestedLoop, rightPhase] using List.mem_of_mem_head? h
  | left =>
    cases hcons : lefts with
    | nil => simp [nestedLoop, leftPhase, rightPhase, FirstComplete]
    | cons left rest =>
      rw [← hcons]
      refine (head_outer_iff hlefts hrights hdisjoint (.inl rfl) hcons).trans ?_
      simp [FirstComplete, hcons]
  | full =>
    cases hcons : lefts with
    | nil =>
      cases hrcons : rights with
      | nil => simp [nestedLoop, leftPhase, rightPhase, FirstComplete]
      | cons right rest =>
        simp [nestedLoop, leftPhase, rightPhase, FirstComplete, outColumns, hrightRow hrcons]
    | cons left rest =>
      rw [← hcons]
      refine (head_outer_iff hlefts hrights hdisjoint (.inr rfl) hcons).trans ?_
      simp [FirstComplete, hcons]
  | right =>
    by_cases hsome : ∃ left ∈ lefts, ∃ right ∈ rights, matched left right = true
    · refine iff_of_true (fun first h => ?_) (.inr (.inr hsome))
      obtain ⟨left, hleft, right, hright, hm⟩ := hsome
      have hin : mergeRows left right none ∈ leftPhase .right matched lefts rights :=
        List.mem_flatMap.mpr ⟨left, hleft, List.mem_map_of_mem (List.mem_filter.mpr ⟨hright, hm⟩)⟩
      obtain ⟨row, rows, hphase⟩ := List.exists_cons_of_ne_nil (List.ne_nil_of_mem hin)
      rw [nestedLoop, hphase] at h
      obtain rfl : row = first := by simpa using h
      exact hasColumns_of_matches hlefts hrights (.inr rfl) (hphase ▸ List.mem_cons_self)
    · have hphase : leftPhase .right matched lefts rights = [] := by
        apply List.flatMap_eq_nil_iff.mpr
        intro left hleft
        have hnone := filter_matched_eq_nil.mpr (fun hm => hsome ⟨left, hleft, hm⟩)
        rw [hnone]
        rfl
      have hall : rightPhase .right matched lefts rights = rights := by
        rw [rightPhase, if_pos (.inl rfl)]
        apply List.filter_eq_self.mpr
        intro right hright
        simp only [Bool.not_eq_true', List.any_eq_false]
        exact fun left hleft hm => hsome ⟨left, hleft, right, hright, hm⟩
      rw [nestedLoop, hphase, hall, List.nil_append]
      cases hrcons : rights with
      | nil => simp [FirstComplete]
      | cons right rest =>
        rw [hrcons] at hsome
        simp only [List.head?_cons, Option.mem_def, Option.some.injEq, forall_eq', outColumns,
          hrightRow hrcons, FirstComplete]
        simp only [reduceCtorEq, false_or, hsome, or_false]

end FirstRow

section Exact

variable {E F : Type} {A : AggregateApi E F} {spec : JoinSpec F} {lefts rights : List Row}

lemma length_rowsOfMatches_le (joinType : JoinType) (left : Row) (matching : List Row) :
    (rowsOfMatches joinType left matching).length ≤ matching.length + 1 := by
  cases joinType <;> cases matching <;> simp [rowsOfMatches]

lemma length_leftPhase_le (joinType : JoinType) (matched : Row → Row → Bool)
    (lefts rights : List Row) :
    (leftPhase joinType matched lefts rights).length ≤ lefts.length * (rights.length + 1) := by
  unfold leftPhase
  rw [List.length_flatMap]
  refine (List.sum_le_card_nsmul _ (rights.length + 1) ?_).trans (by simp)
  intro n hn
  obtain ⟨left, _, rfl⟩ := List.mem_map.mp hn
  exact (length_rowsOfMatches_le _ _ _).trans (Nat.succ_le_succ (List.length_filter_le _ _))

lemma length_nestedLoop_le (joinType : JoinType) (matched : Row → Row → Bool)
    (lefts rights : List Row) :
    (nestedLoop joinType matched lefts rights).length
      ≤ lefts.length * (rights.length + 1) + rights.length := by
  have hleft := length_leftPhase_le joinType matched lefts rights
  have hright : (rightPhase joinType matched lefts rights).length ≤ rights.length := by
    unfold rightPhase
    split
    · exact List.length_filter_le _ _
    · exact Nat.zero_le _
  rw [nestedLoop, List.length_append]
  omega

lemma executeInlineHashJoin_plain (hplain : spec.projection = [] ∧ spec.postFilters = [])
    (hsize : lefts.length * (rights.length + 1) + rights.length < spec.effectiveLimit) :
    executeInlineHashJoin A lefts rights none spec
      = .ok (mapsToResult (nestedLoop spec.joinType
          (textMatch A.fmt spec.splitKeys.1 spec.splitKeys.2) lefts rights)) := by
  have hlen := length_nestedLoop_le spec.joinType
    (textMatch A.fmt spec.splitKeys.1 spec.splitKeys.2) lefts rights
  have hlimit := hlen.trans_lt hsize
  unfold executeInlineHashJoin
  rw [hashJoin_eq_take lefts ((Nat.zero_le _).trans_lt hlimit), List.take_of_length_le hlimit.le,
    hplain.1, hplain.2]
  · rfl
  · intro _
    refine lt_of_le_of_lt ?_ hlimit
    rw [nestedLoop, List.length_append]
    exact Nat.le_add_right _ _

/-- Two keys have one text exactly if they are equal and hold no null. -/
def Distinguished (fmt : UInt64 → String) (leftKeys rightKeys : List String)
    (lefts rights : List Row) : Prop :=
  ∀ left ∈ lefts, ∀ right ∈ rights,
    (joinKeyStr fmt (joinKey left leftKeys) = joinKeyStr fmt (joinKey right rightKeys) ↔
      SameValues (joinKey left leftKeys) (joinKey right rightKeys) ∧
        Value.null ∉ joinKey left leftKeys)

lemma distinguished_iff {fmt : UInt64 → String} {leftKeys rightKeys : List String} :
    Distinguished fmt leftKeys rightKeys lefts rights ↔ ∀ left ∈ lefts, ∀ right ∈ rights,
      textMatch fmt leftKeys rightKeys left right = sqlMatch leftKeys rightKeys left right := by
  refine forall₄_congr fun left _ right _ => ?_
  rw [Bool.eq_iff_iff, sqlMatch_iff, textMatch, decide_eq_true_iff, eq_comm]

/-- An inner join has the merged row of a pair exactly if the pair matches. -/
lemma mem_inner_iff {matched : Row → Row → Bool} {leftColumns rightColumns : List String}
    (hdisjoint : leftColumns.Disjoint rightColumns)
    (hlefts : ∀ left ∈ lefts, HasColumns leftColumns left)
    (hrights : ∀ right ∈ rights, HasColumns rightColumns right) {left right : Row}
    (hleft : left ∈ lefts) (hright : right ∈ rights) :
    mergeRows left right none ∈ nestedLoop .inner matched lefts rights ↔
      matched left right = true := by
  simp only [nestedLoop, leftPhase, rightPhase, rowsOfMatches, List.mem_append, List.mem_flatMap,
    List.mem_map, List.mem_filter]
  constructor
  · rintro (⟨left', hleft', right', ⟨hright', hm⟩, hrow⟩ | hnone)
    · obtain ⟨rfl, rfl⟩ := mergeRows_inj hdisjoint (hlefts _ hleft') (hlefts _ hleft)
        (hrights _ hright') (hrights _ hright) hrow
      exact hm
    · simp at hnone
  · intro hm
    exact .inl ⟨left, hleft, right, ⟨hright, hm⟩, rfl⟩

/-- The inline hash join against the join of SQL. If the texts tell keys apart, it is the SQL join
exactly if its first row has the columns of both sides; an inner join is the SQL join only if they
do. -/
theorem hash_join_exact_iff (hplain : spec.projection = [] ∧ spec.postFilters = [])
    (hsize : lefts.length * (rights.length + 1) + rights.length < spec.effectiveLimit)
    {leftColumns rightColumns : List String} (hdisjoint : leftColumns.Disjoint rightColumns)
    (hlefts : ∀ left ∈ lefts, HasColumns leftColumns left)
    (hrights : ∀ right ∈ rights, HasColumns rightColumns right) :
    ∃ result, executeInlineHashJoin A lefts rights none spec = .ok result ∧
      (Distinguished A.fmt spec.splitKeys.1 spec.splitKeys.2 lefts rights →
        ((rowsToMaps result).Perm (sqlJoin spec.joinType leftColumns rightColumns spec.splitKeys.1
            spec.splitKeys.2 lefts rights) ↔
          FirstComplete leftColumns rightColumns lefts rights
            (sqlMatch spec.splitKeys.1 spec.splitKeys.2) spec.joinType)) ∧
      (spec.joinType = .inner →
        (rowsToMaps result).Perm (sqlJoin spec.joinType leftColumns rightColumns spec.splitKeys.1
          spec.splitKeys.2 lefts rights) →
        Distinguished A.fmt spec.splitKeys.1 spec.splitKeys.2 lefts rights) := by
  refine ⟨_, executeInlineHashJoin_plain hplain hsize, ?_, ?_⟩
  · intro hkeys
    rw [nestedLoop_congr (distinguished_iff.mp hkeys), sqlJoin, perm_completeRow_iff]
    exact head_nestedLoop_iff hlefts hrights hdisjoint spec.joinType
  · intro htype hperm
    -- the rows of an inner join have all columns, so both results are the joined rows themselves
    have hself : ∀ matched : Row → Row → Bool,
        (nestedLoop .inner matched lefts rights).map (completeRow (leftColumns ++ rightColumns))
          = nestedLoop .inner matched lefts rights := by
      intro matched
      refine (List.map_congr_left fun row hrow => completeRow_eq_self ?_).trans (List.map_id _)
      apply hasColumns_of_matches hlefts hrights (.inl rfl)
      simpa [nestedLoop, rightPhase] using hrow
    rw [htype] at hperm
    have hrows := (perm_completeRow_iff.mpr ((head_nestedLoop_iff hlefts hrights hdisjoint
      .inner).mpr trivial)).symm.trans hperm
    rw [sqlJoin, show outColumns leftColumns rightColumns .inner = leftColumns ++ rightColumns from rfl,
      hself, hself] at hrows
    refine distinguished_iff.mpr fun left hleft right hright => ?_
    rw [Bool.eq_iff_iff, ← mem_inner_iff hdisjoint hlefts hrights hleft hright, hrows.mem_iff,
      mem_inner_iff hdisjoint hlefts hrights hleft hright]

end Exact

section Runs

def onKeys (joinType : JoinType) : JoinSpec Unit := ⟨[("a", "b")], joinType, usizeMax, [], []⟩

def cellRow (column : String) (v : Value) : Row := SortedMap.ofList [(column, v)]

lemma hasColumns_cellRow (column : String) (v : Value) : HasColumns [column] (cellRow column v) := by
  intro c
  have hget : (cellRow column v).get c = if c = column then some v else none :=
    SortedMap.get_insert ..
  rw [hget]
  by_cases hc : c = column <;> simp [hc]

/-- A left join whose first row is matched. -/
theorem left_join_exact : ∃ result,
    executeInlineHashJoin countApi [cellRow "a" (.string "x"), cellRow "a" (.string "y")]
      [cellRow "b" (.string "x")] none (onKeys .left) = .ok result ∧
    (rowsToMaps result).Perm (sqlJoin .left ["a"] ["b"] ["a"] ["b"]
      [cellRow "a" (.string "x"), cellRow "a" (.string "y")] [cellRow "b" (.string "x")]) := by
  obtain ⟨result, hok, hexact, _⟩ := @hash_join_exact_iff Unit Unit countApi (onKeys .left)
    [cellRow "a" (.string "x"), cellRow "a" (.string "y")] [cellRow "b" (.string "x")]
    ⟨rfl, rfl⟩ (by decide) ["a"] ["b"] (by simp)
    (by simp [hasColumns_cellRow]) (by simp [hasColumns_cellRow])
  have hmatch : SameValues [.string "x"] [.string "x"] ∧ Value.null ∉ [Value.string "x"] :=
    ⟨rfl, by simp⟩
  refine ⟨result, hok, (hexact ?_).mpr ?_⟩
  · intro left hleft right hright
    obtain rfl := List.mem_singleton.mp hright
    simp only [List.mem_cons, List.not_mem_nil, or_false] at hleft
    rcases hleft with rfl | rfl
    · exact iff_of_true rfl hmatch
    · refine iff_of_false (by decide +kernel) fun h => ?_
      have hsame : SameValues [.string "y"] [.string "x"] := h.1
      simp [SameValues, Value.meaning] at hsame
  · intro left hleft
    obtain rfl : cellRow "a" (.string "x") = left := Option.some.inj hleft
    exact .inr ⟨_, List.mem_cons_self, sqlMatch_iff.mpr hmatch⟩

/-- A null key is joined with a null key. -/
theorem null_joins_null : ∃ result,
    executeInlineHashJoin countApi [cellRow "a" .null] [cellRow "b" .null] none (onKeys .inner)
      = .ok result ∧
    ¬ (rowsToMaps result).Perm (sqlJoin .inner ["a"] ["b"] ["a"] ["b"] [cellRow "a" .null]
      [cellRow "b" .null]) := by
  refine ⟨_, executeInlineHashJoin_plain ⟨rfl, rfl⟩ (by decide), fun hperm => ?_⟩
  have hnone : sqlMatch ["a"] ["b"] (cellRow "a" .null) (cellRow "b" .null) = false := by
    rw [← Bool.not_eq_true, sqlMatch_iff]
    exact fun h => h.2 List.mem_cons_self
  have hempty : sqlJoin .inner ["a"] ["b"] ["a"] ["b"] [cellRow "a" .null] [cellRow "b" .null] = [] := by
    simp [sqlJoin, nestedLoop, leftPhase, rightPhase, rowsOfMatches, hnone]
  rw [hempty] at hperm
  exact absurd hperm.length_eq (by decide)

end Runs

end NodedbLite.Query
