import NodedbLite.Aggregate

/-! The rows of grouping sets. A set's rows begin with the values of its columns, one after the
other, and nulls follow up to the width of the group columns: the values stand in their columns if
each set names the first group columns in order, and for no other sets. -/
namespace NodedbLite.Query

section Lists

lemma lookup_zip {α β : Type} [DecidableEq α] {keys : List α} {vals : List β} {i : α} {j : Nat}
    (hnodup : keys.Nodup) (hj : keys[j]? = some i) : (keys.zip vals).lookup i = vals[j]? := by
  induction keys generalizing vals j with
  | nil => simp at hj
  | cons key keys ih =>
    cases vals with
    | nil => simp
    | cons v vals =>
      obtain ⟨hfresh, hnodup⟩ := List.nodup_cons.mp hnodup
      rw [List.zip_cons_cons, SortedMap.lookup_cons_eq_ite]
      cases j with
      | zero =>
        obtain rfl : key = i := by simpa using hj
        simp
      | succ j =>
        rw [List.getElem?_cons_succ] at hj
        have hne : i ≠ key := fun heq => hfresh (heq ▸ List.mem_of_getElem? hj)
        rw [if_neg hne, ih hnodup hj, List.getElem?_cons_succ]

lemma lookup_zip_of_notMem {α β : Type} [DecidableEq α] {keys : List α} {vals : List β} {i : α}
    (h : i ∉ keys) : (keys.zip vals).lookup i = none := by
  rw [List.lookup_eq_none_iff]
  intro entry hentry
  have hkey := (List.of_mem_zip (a := entry.1) (b := entry.2) hentry).1
  simpa using fun heq : i = entry.1 => h (heq ▸ hkey)

lemma insertIdx_eq_append {α : Type} (a : α) {l : List α} {i : Nat} (h : i ≤ l.length) :
    l.insertIdx i a = l.take i ++ a :: l.drop i := by
  induction l generalizing i with
  | nil =>
    obtain rfl : i = 0 := by simpa using h
    rfl
  | cons x l ih =>
    cases i with
    | zero => rfl
    | succ i => simp [ih (Nat.le_of_succ_le_succ h)]

lemma filterMap_range_getElem? {α : Type} (l : List α) :
    (List.range l.length).filterMap (fun i => l[i]?) = l := by
  induction l with
  | nil => rfl
  | cons x l ih =>
    rw [List.length_cons, List.range_succ_eq_map, List.filterMap_cons_some (by rfl),
      List.filterMap_map]
    exact congrArg (x :: ·) ih

end Lists

/-- The row of a group of a grouping set: the values of the set's columns in their places, null in
the other group columns, then the aggregates. -/
def setRow (width : Nat) (set : List Nat) (key aggregates : List Value) : List Value :=
  (List.range width).map (fun i => ((set.zip key).lookup i).getD .null) ++ aggregates

/-- The grouping sets of a statement: without any, it has the set of all group columns. -/
def effectiveSets (width : Nat) (groupingSets : List (List Nat)) : List (List Nat) :=
  if groupingSets.isEmpty then [List.range width] else groupingSets

section Aligned

variable {E F : Type} (A : AggregateApi E F)

/-- A row of a group of one of the sets, each value in its column. -/
def AlignedRow (filtered : List Row) (groupBy : List (GroupKeySpec E))
    (aggregates : List (AggregateSpec E)) (sets : List (List Nat)) (row : List Value) : Prop :=
  row.length = (makeColumns groupBy aggregates).length ∧
    ∃ set ∈ sets, ∃ groups, groupRows A filtered (set.filterMap (fun i => groupBy[i]?)) = .ok groups ∧
      ∃ group ∈ groups.entries.map Prod.snd, ∃ values,
        aggregates.mapM (A.computeOneAggregate group.2) = .ok values ∧
        row = setRow groupBy.length set group.1 values

variable {A}

lemma nullFill_eq {position : Nat} (missing : Nat) {row : List Value} (h : position ≤ row.length) :
    nullFill position missing row
      = row.take position ++ List.replicate missing .null ++ row.drop position := by
  induction missing generalizing row with
  | zero => simp [nullFill]
  | succ missing ih =>
    have hinsert : row.insertIdx position .null
        = row.take position ++ .null :: row.drop position := insertIdx_eq_append _ h
    have hlen : (row.take position).length = position := by simp [h]
    rw [nullFill, hinsert, ih (by simp; omega)]
    rw [List.take_left' hlen, List.drop_left' hlen, List.replicate_succ']
    simp

lemma setRow_range {width k : Nat} (hk : k ≤ width) {key : List Value} (hlen : key.length = k)
    (values : List Value) :
    setRow width (List.range k) key values
      = key ++ List.replicate (width - k) .null ++ values := by
  unfold setRow
  congr 1
  apply List.ext_getElem
  · simp [hlen, hk]
  · intro i hi _
    rw [List.length_map, List.length_range] at hi
    rw [List.getElem_map, List.getElem_range]
    by_cases hik : i < k
    · have hget : (List.range k)[i]? = some i := by simp [hik]
      rw [lookup_zip List.nodup_range hget, List.getElem_append_left (hlen.symm ▸ hik)]
      simp [hlen, hik]
    · rw [lookup_zip_of_notMem (by simpa using hik), List.getElem_append_right (by omega)]
      simp

lemma mem_applyHaving {rows kept : List (List Value)} {having : List F}
    {groupBy : List (GroupKeySpec E)} {aggregates : List (AggregateSpec E)}
    (h : applyHaving A rows having groupBy aggregates = .ok kept) {row : List Value}
    (hrow : row ∈ kept) : row ∈ rows := by
  unfold applyHaving at h
  split at h
  · obtain rfl := Except.ok.inj h
    exact hrow
  · have hsub : ∀ {l : List (List Value)} {start out : List (List Value)},
        l.foldlM (fun kept row => (do
          let keep ← A.allMatch having
            (SortedMap.ofList ((makeColumns groupBy aggregates).zip row))
          .ok (if keep then kept ++ [row] else kept) : Except LiteError _)) start = .ok out →
        ∀ r ∈ out, r ∈ start ∨ r ∈ l := by
      intro l
      induction l with
      | nil =>
        intro start out hout r hr
        rw [ExceptFold.foldlM_nil_ok hout]
        exact .inl hr
      | cons x l ih =>
        intro start out hout r hr
        obtain ⟨mid, hmid, hout⟩ := ExceptFold.foldlM_cons_ok.mp hout
        obtain ⟨keep, _, hkeep⟩ := ExceptFold.bind_eq_ok.mp hmid
        obtain rfl := Except.ok.inj hkeep
        rcases ih hout r hr with hstart | hl
        · cases keep <;> simp at hstart <;> grind
        · exact .inr (List.mem_cons_of_mem _ hl)
    exact (hsub h row hrow).resolve_left List.not_mem_nil

lemma mem_applySort {rows : List (List Value)} {sortKeys : List SortKeySpec}
    {groupBy : List (GroupKeySpec E)} {aggregates : List (AggregateSpec E)} {row : List Value} :
    row ∈ applySort A rows sortKeys groupBy aggregates ↔ row ∈ rows := by
  unfold applySort
  split
  · exact Iff.rfl
  · exact List.mem_mergeSort

lemma length_key_of_mem_groups {rows : List Row} {groupBy : List (GroupKeySpec E)}
    {groups : SortedMap String Group} (h : groupRows A rows groupBy = .ok groups) {group : Group}
    (hgroup : group ∈ groups.entries.map Prod.snd) : group.1.length = groupBy.length := by
  obtain ⟨keyed, _, hkeys, rfl⟩ := groupRows_ok h
  obtain ⟨⟨text, _⟩, hentry, rfl⟩ := List.mem_map.mp hgroup
  obtain ⟨entry, hmem, _, hkey⟩ := first_of_mem_textGroups hentry
  rw [hkey]
  exact length_groupKey (hkeys entry hmem)

lemma mem_computeAggregateGroups {groups : List Group} {aggregates : List (AggregateSpec E)}
    {out : List (List Value)} (h : computeAggregateGroups A groups aggregates = .ok out)
    {row : List Value} (hrow : row ∈ out) :
    ∃ group ∈ groups, ∃ values, aggregates.mapM (A.computeOneAggregate group.2) = .ok values ∧
      row = group.1 ++ values := by
  obtain ⟨group, hgroup, hturn⟩ := ExceptFold.exists_source_of_mapM_ok h hrow
  obtain ⟨values, hvalues, hpair⟩ := ExceptFold.bind_eq_ok.mp hturn
  exact ⟨group, hgroup, values, hvalues, (Except.ok.inj hpair).symm⟩

variable {groupBy : List (GroupKeySpec E)} {aggregates : List (AggregateSpec E)}

lemma length_subset {set : List Nat} (hset : ∀ i ∈ set, i < groupBy.length) :
    (set.filterMap (fun i => groupBy[i]?)).length = set.length := by
  rw [List.filterMap_length_eq_length]
  intro i hi
  simp [hset i hi]

lemma mem_groupingSetRows {filtered : List Row} {having : List F} {set : List Nat}
    (hset : ∀ i ∈ set, i < groupBy.length) {out : List (List Value)}
    (h : groupingSetRows A filtered groupBy aggregates having set = .ok out) {row : List Value}
    (hrow : row ∈ out) :
    ∃ groups, groupRows A filtered (set.filterMap (fun i => groupBy[i]?)) = .ok groups ∧
      ∃ group ∈ groups.entries.map Prod.snd, ∃ values,
        aggregates.mapM (A.computeOneAggregate group.2) = .ok values ∧
        group.1.length = set.length ∧
        row = group.1 ++ List.replicate (groupBy.length - set.length) .null ++ values := by
  obtain ⟨groups, hgroups, h⟩ := ExceptFold.bind_eq_ok.mp h
  obtain ⟨setRows, hsetRows, h⟩ := ExceptFold.bind_eq_ok.mp h
  obtain ⟨bare, hbare, rfl⟩ := List.mem_map.mp (mem_applyHaving h hrow)
  obtain ⟨group, hgroup, values, hvalues, rfl⟩ := mem_computeAggregateGroups hsetRows hbare
  have hlen := (length_key_of_mem_groups hgroups hgroup).trans (length_subset hset)
  have hwidth : values.length = aggregates.length :=
    (ExceptFold.forall₂_of_mapM_ok hvalues).length_eq.symm
  refine ⟨groups, hgroups, group, hgroup, values, hvalues, hlen, ?_⟩
  rw [nullFill_eq _ (by simp [hlen]), List.take_left' hlen, List.drop_left' hlen, List.length_append,
    hlen, hwidth, Nat.add_sub_add_right]

lemma length_setRow {set : List Nat} {key values : List Value}
    (h : aggregates.length = values.length) :
    (setRow groupBy.length set key values).length = (makeColumns groupBy aggregates).length := by
  simp [setRow, makeColumns, h]

lemma aligned_of_range {rows filtered : List Row} {filters having : List F}
    {sortKeys : List SortKeySpec} {sets : List (List Nat)} {result : QueryResult}
    (hsets : ∀ set ∈ sets, ∀ i ∈ set, i < groupBy.length)
    (hrange : ∀ set ∈ sets, set = List.range set.length)
    (hfiltered : retainMatching A rows filters = .ok filtered)
    (h : executeAggregate A rows groupBy aggregates filters having sortKeys sets = .ok result)
    {row : List Value} (hrow : row ∈ result.rows) :
    AlignedRow A filtered groupBy aggregates (effectiveSets groupBy.length sets) row := by
  unfold executeAggregate at h
  rw [hfiltered] at h
  obtain ⟨_, ⟨⟩, h⟩ := ExceptFold.bind_eq_ok.mp h
  unfold effectiveSets
  by_cases hempty : sets.isEmpty
  · rw [if_pos hempty] at h ⊢
    obtain ⟨groups, hgroups, h⟩ := ExceptFold.bind_eq_ok.mp h
    obtain ⟨resultRows, hresult, h⟩ := ExceptFold.bind_eq_ok.mp h
    obtain ⟨kept, hkept, h⟩ := ExceptFold.bind_eq_ok.mp h
    obtain rfl := Except.ok.inj h
    have hmem := mem_applyHaving hkept (mem_applySort.mp hrow)
    obtain ⟨group, hgroup, values, hvalues, rfl⟩ := mem_computeAggregateGroups hresult hmem
    have heq : group.1 ++ values
        = setRow groupBy.length (List.range groupBy.length) group.1 values := by
      rw [setRow_range le_rfl (length_key_of_mem_groups hgroups hgroup)]
      simp
    rw [heq]
    refine ⟨length_setRow (ExceptFold.forall₂_of_mapM_ok hvalues).length_eq, _,
      List.mem_singleton_self _, groups, ?_, group, hgroup, values, hvalues, rfl⟩
    rw [filterMap_range_getElem?]
    exact hgroups
  · rw [if_neg hempty] at h ⊢
    obtain ⟨allRows, hall, h⟩ := ExceptFold.bind_eq_ok.mp h
    obtain rfl := Except.ok.inj h
    obtain ⟨setRows, hsetRows, hin⟩ := List.mem_flatten.mp (mem_applySort.mp hrow)
    obtain ⟨set, hset, hof⟩ := ExceptFold.exists_source_of_mapM_ok hall hsetRows
    obtain ⟨groups, hgroups, group, hgroup, values, hvalues, hlen, rfl⟩ :=
      mem_groupingSetRows (hsets set hset) hof hin
    have hle : set.length ≤ groupBy.length := by
      by_contra hlt
      have hmem : groupBy.length ∈ List.range set.length := List.mem_range.mpr (by omega)
      rw [← hrange set hset] at hmem
      exact lt_irrefl _ (hsets set hset _ hmem)
    rw [← setRow_range hle hlen, ← hrange set hset]
    exact ⟨length_setRow (ExceptFold.forall₂_of_mapM_ok hvalues).length_eq, set, hset, groups,
      hgroups, group, hgroup, values, hvalues, rfl⟩

end Aligned

section Columns

variable {E F : Type} {A : AggregateApi E F} {names : List String}

/-- A row whose columns hold their own names. -/
def namedRow (names : List String) : Row :=
  SortedMap.ofList (names.map (fun name => (name, .string name)))

lemma subset_columns {set : List Nat} (hset : ∀ i ∈ set, i < names.length) :
    set.filterMap (fun i => (names.map (GroupKeySpec.column (E := E)))[i]?)
      = set.map (fun i => GroupKeySpec.column (names.getD i "")) := by
  have hmap := List.filterMap_eq_map (f := fun i => GroupKeySpec.column (E := E) (names.getD i ""))
  rw [← hmap]
  apply List.filterMap_congr
  intro i hi
  simp [hset i hi]

lemma groupKey_namedRow {set : List Nat} (hset : ∀ i ∈ set, i < names.length) :
    groupKey A (set.map (fun i => GroupKeySpec.column (names.getD i ""))) (namedRow names)
      = .ok (set.map (fun i => .string (names.getD i ""))) := by
  unfold groupKey
  rw [ExceptFold.mapM_ok (g := fun spec => .string spec.outputName), List.map_map]
  · rfl
  · intro spec hspec
    obtain ⟨i, hi, rfl⟩ := List.mem_map.mp hspec
    have hname : names.getD i "" ∈ names := by simp [hset i hi]
    simp only [groupKeyValue, GroupKeySpec.column, namedRow,
      SortedMap.get_ofList_map_of_mem _ hname, Option.getD_some]

/-- The key of the named row in a set. -/
def namedKey (names : List String) (set : List Nat) : List Value :=
  set.map (fun i => .string (names.getD i ""))

lemma groupRows_namedRow {set : List Nat} (hset : ∀ i ∈ set, i < names.length) :
    groupRows A [namedRow names]
        (set.filterMap (fun i => (names.map (GroupKeySpec.column (E := E)))[i]?))
      = .ok (textGroups A.fmt [(namedKey names set, namedRow names)]) := by
  rw [subset_columns hset]
  unfold groupRows
  rw [ExceptFold.mapM_ok (g := fun row => (namedKey names set, row))]
  · rfl
  · intro row hrow
    rw [List.mem_singleton.mp hrow, groupKey_namedRow hset]
    rfl

lemma groupingSetRows_namedRow {set : List Nat} (hset : ∀ i ∈ set, i < names.length) :
    groupingSetRows A [namedRow names] (names.map GroupKeySpec.column) [] ([] : List F) set
      = .ok [nullFill set.length (names.length - set.length) (namedKey names set)] := by
  refine ExceptFold.bind_eq_ok.mpr ⟨_, groupRows_namedRow hset, ?_⟩
  have hkey : (namedKey names set ++ []).length = set.length := by simp [namedKey]
  change Except.ok [nullFill set.length ((names.map GroupKeySpec.column).length + 0
    - (namedKey names set ++ []).length) (namedKey names set ++ [])] = _
  rw [hkey, List.length_map, List.append_nil, Nat.add_zero]

lemma executeAggregate_namedRow {sets : List (List Nat)} (hne : sets ≠ [])
    (hsets : ∀ set ∈ sets, ∀ i ∈ set, i < names.length) :
    ∃ result, executeAggregate A [namedRow names] (names.map GroupKeySpec.column) [] [] [] [] sets
        = .ok result ∧
      ∀ set ∈ sets,
        nullFill set.length (names.length - set.length) (namedKey names set) ∈ result.rows := by
  have hall := ExceptFold.mapM_ok (f := groupingSetRows A [namedRow names]
      (names.map GroupKeySpec.column) [] ([] : List F)) (l := sets)
    (fun set hset => groupingSetRows_namedRow (hsets set hset))
  refine ⟨⟨makeColumns (names.map GroupKeySpec.column) ([] : List (AggregateSpec E)),
    (sets.map (fun set =>
      [nullFill set.length (names.length - set.length) (namedKey names set)])).flatten, 0, none⟩, ?_, ?_⟩
  · unfold executeAggregate
    have hempty : ¬ sets.isEmpty := by simpa using hne
    simp only [retainMatching, List.isEmpty_nil, if_true]
    change (if sets.isEmpty then _ else _) = _
    rw [if_neg hempty, hall]
    rfl
  · intro set hset
    exact List.mem_flatten.mpr ⟨_, List.mem_map_of_mem hset, List.mem_singleton_self _⟩

lemma getElem?_setRow_namedKey {width : Nat} {set : List Nat} (hnodup : set.Nodup) {p : Nat}
    {v : Value} (h : (setRow width set (namedKey names set) [])[p]? = some v) :
    p < width ∧ (v = .string (names.getD p "") ∨ v = .null) := by
  unfold setRow at h
  rw [List.append_nil, List.getElem?_map] at h
  obtain ⟨q, hq, hv⟩ := Option.map_eq_some_iff.mp h
  obtain ⟨hlt, rfl⟩ := List.getElem?_eq_some_iff.mp hq
  have hp : p < width := by simpa using hlt
  rw [List.getElem_range] at hv
  refine ⟨hp, ?_⟩
  by_cases hmem : p ∈ set
  · obtain ⟨j, hj⟩ := List.mem_iff_getElem?.mp hmem
    rw [lookup_zip hnodup hj] at hv
    left
    rw [← hv, namedKey, List.getElem?_map, hj]
    rfl
  · rw [lookup_zip_of_notMem hmem] at hv
    exact .inr hv.symm

/-- Every output row of every statement over the sets has each value in its column. -/
def AlignsRows (A : AggregateApi E F) (names : List String) (sets : List (List Nat)) : Prop :=
  ∀ rows aggregates filters having sortKeys filtered result,
    retainMatching A rows filters = .ok filtered →
    executeAggregate A rows (names.map GroupKeySpec.column) aggregates filters having sortKeys sets
      = .ok result →
    ∀ row ∈ result.rows, AlignedRow A filtered (names.map GroupKeySpec.column) aggregates
      (effectiveSets names.length sets) row

lemma AlignsRows.range_of_nodup (hnames : names.Nodup) {sets : List (List Nat)}
    (hsets : ∀ set ∈ sets, set.Nodup ∧ ∀ i ∈ set, i < names.length) (h : AlignsRows A names sets)
    {set : List Nat} (hset : set ∈ sets) : set = List.range set.length := by
  have hne : sets ≠ [] := List.ne_nil_of_mem hset
  obtain ⟨result, hresult, hrows⟩ := executeAggregate_namedRow (A := A) hne
    (fun set hset => (hsets set hset).2)
  obtain ⟨_, set', hset', groups, hgroups, group, hgroup, values, hvalues, hrow⟩ :=
    h _ _ _ _ _ _ result rfl hresult _ (hrows set hset)
  rw [effectiveSets, if_neg (by simpa using hne)] at hset'
  rw [groupRows_namedRow (hsets set' hset').2] at hgroups
  obtain rfl := Except.ok.inj hgroups
  obtain rfl := List.mem_singleton.mp hgroup
  obtain rfl := Except.ok.inj hvalues
  change _ = setRow _ set' (namedKey names set') [] at hrow
  rw [nullFill_eq _ (by simp [namedKey]), List.length_map] at hrow
  apply List.ext_getElem (by simp)
  intro p hp _
  have hcell : (setRow names.length set' (namedKey names set') [])[p]?
      = some (.string (names.getD set[p] "")) := by
    rw [← hrow, List.append_assoc, List.getElem?_append_left (by simpa [namedKey] using hp)]
    simp [namedKey, hp]
  obtain ⟨hwidth, hval⟩ := getElem?_setRow_namedKey (hsets set' hset').1 hcell
  rw [List.getElem_range]
  have hin := (hsets set hset).2 _ (List.getElem_mem hp)
  rcases hval with hname | hnull
  · injection hname with hname
    simp only [List.getD_eq_getElem _ _ hin, List.getD_eq_getElem _ _ hwidth] at hname
    exact (List.Nodup.getElem_inj_iff hnames).mp hname
  · cases hnull

/-- Every output row has each value in its column if each grouping set names the first group columns,
in order, and, where the columns have different names, only then. -/
theorem grouping_sets_aligned_iff {sets : List (List Nat)}
    (hsets : ∀ set ∈ sets, set.Nodup ∧ ∀ i ∈ set, i < names.length) :
    ((∀ set ∈ sets, set = List.range set.length) → AlignsRows A names sets) ∧
      (names.Nodup → AlignsRows A names sets → ∀ set ∈ sets, set = List.range set.length) := by
  refine ⟨fun hrange rows aggregates filters having sortKeys filtered result hfiltered h row hrow => ?_,
    fun hnames haligned set hset => haligned.range_of_nodup hnames hsets hset⟩
  have hindex : ∀ set ∈ sets, ∀ i ∈ set, i < (names.map (GroupKeySpec.column (E := E))).length :=
    fun set hset i hi => by simpa using (hsets set hset).2 i hi
  have := aligned_of_range hindex hrange hfiltered h hrow
  rwa [List.length_map] at this

/-- Counts by both columns, subtotals by the first and the total, over two rows. -/
theorem rollup_aligned : ∃ result,
    executeAggregate countApi [namedRow ["a", "b"], namedRow ["a", "c"]]
      (["a", "b"].map GroupKeySpec.column) [⟨"count", "n", none, "*", none⟩] [] [] []
      [[0, 1], [0], []] = .ok result ∧
    result.rows = [[.string "a", .null, .integer 1], [.string "a", .string "b", .integer 1],
      [.string "a", .null, .integer 2], [.null, .null, .integer 2]] ∧
    ∀ row ∈ result.rows, AlignedRow countApi [namedRow ["a", "b"], namedRow ["a", "c"]]
      (["a", "b"].map GroupKeySpec.column) [⟨"count", "n", none, "*", none⟩]
      (effectiveSets 2 [[0, 1], [0], []]) row :=
  ⟨_, rfl, rfl, (grouping_sets_aligned_iff (A := countApi) (by decide)).1 (by decide)
    [namedRow ["a", "b"], namedRow ["a", "c"]] _ [] [] [] _ _ rfl rfl⟩

def cubeResult : QueryResult := ⟨["a", "b"], [[.string "b", .null]], 0, none⟩

/-- The value of the second column stands in the first. -/
theorem second_column_misaligned :
    executeAggregate countApi [namedRow ["a", "b"]] (["a", "b"].map GroupKeySpec.column) [] [] [] []
      [[1]] = .ok cubeResult ∧
    ¬ AlignedRow countApi [namedRow ["a", "b"]] (["a", "b"].map GroupKeySpec.column) []
      (effectiveSets 2 [[1]]) [.string "b", .null] := by
  refine ⟨rfl, ?_⟩
  rintro ⟨_, set, hset, groups, hgroups, group, hgroup, values, hvalues, hrow⟩
  obtain rfl := List.mem_singleton.mp hset
  obtain rfl := Except.ok.inj hgroups
  obtain rfl := List.mem_singleton.mp hgroup
  obtain rfl := Except.ok.inj hvalues
  cases hrow

end Columns

end NodedbLite.Query
