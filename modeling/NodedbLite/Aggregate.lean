import NodedbLite.Buckets
import NodedbLite.ExceptFold
import NodedbLite.QueryValue

/-! Grouped aggregation: rows are put into groups by the text of their key values, each group gives a
row of its key and its aggregates, and the rows of several grouping sets are filled up to one
width. -/
namespace NodedbLite.Query

abbrev QueryResult := NodedbLite.QueryResult Value

structure GroupKeySpec (E : Type) where
  outputName : String
  field : Option String
  expr : Option E

def GroupKeySpec.column {E : Type} (name : String) : GroupKeySpec E := ⟨name, some name, none⟩

structure AggregateSpec (E : Type) where
  function : String
  aliasName : String
  userAlias : Option String
  field : String
  expr : Option E

/-- A sort key: a column, or a computed key, which has no output column. -/
structure SortKeySpec where
  column : Option String
  ascending : Bool
  nullsFirst : Bool

/-- Expressions, filters, aggregate functions and floats of the shared crates. -/
structure AggregateApi (E F : Type) where
  eval : E → Row → Except LiteError Value
  allMatch : List F → Row → Except LiteError Bool
  computeOneAggregate : List Row → AggregateSpec E → Except LiteError Value
  fmt : UInt64 → String
  partialCmp : UInt64 → UInt64 → Option Ordering
  asF64 : Int64 → UInt64

section Functions

variable {E F : Type} (A : AggregateApi E F)

/-- An expression is evaluated on the row, a field is read from it. -/
def groupKeyValue (row : Row) (spec : GroupKeySpec E) : Except LiteError Value :=
  match spec.expr, spec.field with
  | some expr, _ => A.eval expr row
  | none, some field => .ok ((row.get field).getD .null)
  | none, none => .ok .null

def groupKey (groupBy : List (GroupKeySpec E)) (row : Row) : Except LiteError (List Value) :=
  groupBy.mapM (groupKeyValue A row)

abbrev Group := List Value × List Row

/-- The rows by the text of their keys. A group keeps the key of its first row. -/
def textGroups (fmt : UInt64 → String) (keyed : List (List Value × Row)) : SortedMap String Group :=
  Buckets.collect (fun entry => valueKeyStr fmt entry.1) (fun entry => (entry.1, [entry.2]))
    (fun group entry => (group.1, group.2 ++ [entry.2])) keyed

def groupRows (rows : List Row) (groupBy : List (GroupKeySpec E)) :
    Except LiteError (SortedMap String Group) := do
  let keyed ← rows.mapM (fun row => do
    let key ← groupKey A groupBy row
    .ok (key, row))
  .ok (textGroups A.fmt keyed)

/-- Keep only the rows matching every filter. -/
def retainMatching (rows : List Row) (filters : List F) : Except LiteError (List Row) :=
  if filters.isEmpty then .ok rows
  else rows.foldlM (fun kept row => do
    let keep ← A.allMatch filters row
    .ok (if keep then kept ++ [row] else kept)) []

def computeAggregateGroups (groups : List Group) (aggregates : List (AggregateSpec E)) :
    Except LiteError (List (List Value)) :=
  groups.mapM (fun group => do
    let values ← aggregates.mapM (A.computeOneAggregate group.2)
    .ok (group.1 ++ values))

def makeColumns (groupBy : List (GroupKeySpec E)) (aggregates : List (AggregateSpec E)) :
    List String :=
  groupBy.map GroupKeySpec.outputName ++ aggregates.map (fun spec => spec.userAlias.getD spec.aliasName)

def applyHaving (rows : List (List Value)) (having : List F) (groupBy : List (GroupKeySpec E))
    (aggregates : List (AggregateSpec E)) : Except LiteError (List (List Value)) :=
  if having.isEmpty then .ok rows
  else rows.foldlM (fun kept row => do
    let keep ← A.allMatch having (SortedMap.ofList ((makeColumns groupBy aggregates).zip row))
    .ok (if keep then kept ++ [row] else kept)) []

def valueCmp : Value → Value → Ordering
  | .integer x, .integer y => compare x y
  | .float x, .float y => (A.partialCmp x y).getD .eq
  | .integer x, .float y => (A.partialCmp (A.asF64 x) y).getD .eq
  | .float x, .integer y => (A.partialCmp x (A.asF64 y)).getD .eq
  | .string x, .string y => compare x y
  | .bool x, .bool y => compare x y
  | .null, .null => .eq
  | .null, _ => .lt
  | _, .null => .gt
  | _, _ => .eq

/-- The order of nulls is that of the key, whatever its direction. -/
def SortKeySpec.orderNulls (key : SortKeySpec) : Value → Value → Option Ordering
  | .null, .null => some .eq
  | .null, _ => some (if key.nullsFirst then .lt else .gt)
  | _, .null => some (if key.nullsFirst then .gt else .lt)
  | _, _ => none

def SortKeySpec.direct (key : SortKeySpec) (ord : Ordering) : Ordering :=
  if key.ascending then ord else ord.swap

def compareRows (columns : List String) (a b : List Value) : List SortKeySpec → Ordering
  | [] => .eq
  | key :: keys =>
    match key.column.bind (fun name => columns.findIdx? (· = name)) with
    | none => compareRows columns a b keys
    | some i =>
      let av := a.getD i .null
      let bv := b.getD i .null
      ((key.orderNulls av bv).getD (key.direct (valueCmp A av bv))).then (compareRows columns a b keys)

def applySort (rows : List (List Value)) (sortKeys : List SortKeySpec)
    (groupBy : List (GroupKeySpec E)) (aggregates : List (AggregateSpec E)) : List (List Value) :=
  if sortKeys.isEmpty then rows
  else rows.mergeSort (fun a b => compareRows A (makeColumns groupBy aggregates) a b sortKeys ≠ .gt)

/-- Insert nulls at a position until the row has its width. -/
def nullFill (position : Nat) : Nat → List Value → List Value
  | 0, row => row
  | missing + 1, row => nullFill position missing (row.insertIdx position .null)

/-- The rows of one grouping set. -/
def groupingSetRows (filtered : List Row) (groupBy : List (GroupKeySpec E))
    (aggregates : List (AggregateSpec E)) (having : List F) (setIndices : List Nat) :
    Except LiteError (List (List Value)) := do
  let subset := setIndices.filterMap (fun i => groupBy[i]?)
  let grouped ← groupRows A filtered subset
  let setRows ← computeAggregateGroups A (grouped.entries.map Prod.snd) aggregates
  let filled := setRows.map (fun row =>
    nullFill setIndices.length (groupBy.length + aggregates.length - row.length) row)
  applyHaving A filled having subset aggregates

def executeAggregate (rows : List Row) (groupBy : List (GroupKeySpec E))
    (aggregates : List (AggregateSpec E)) (filters having : List F) (sortKeys : List SortKeySpec)
    (groupingSets : List (List Nat)) : Except LiteError QueryResult := do
  let filtered ← retainMatching A rows filters
  if groupingSets.isEmpty then
    let grouped ← groupRows A filtered groupBy
    let resultRows ← computeAggregateGroups A (grouped.entries.map Prod.snd) aggregates
    let kept ← applyHaving A resultRows having groupBy aggregates
    .ok ⟨makeColumns groupBy aggregates, applySort A kept sortKeys groupBy aggregates, 0, none⟩
  else
    let allRows ← groupingSets.mapM (groupingSetRows A filtered groupBy aggregates having)
    .ok ⟨makeColumns groupBy aggregates,
      applySort A allRows.flatten sortKeys groupBy aggregates, 0, none⟩

end Functions

section Partition

variable {E F : Type} {A : AggregateApi E F} {groupBy : List (GroupKeySpec E)} {rows : List Row}

lemma groupRows_ok {groups : SortedMap String Group} (h : groupRows A rows groupBy = .ok groups) :
    ∃ keyed : List (List Value × Row), keyed.map Prod.snd = rows ∧
      (∀ entry ∈ keyed, groupKey A groupBy entry.2 = .ok entry.1) ∧
      groups = textGroups A.fmt keyed := by
  obtain ⟨keyed, hkeyed, hgroups⟩ := ExceptFold.bind_eq_ok.mp h
  obtain ⟨hrows, hkeys⟩ := ExceptFold.mapM_pair_ok hkeyed
  exact ⟨keyed, hrows, hkeys, (Except.ok.inj hgroups).symm⟩

lemma length_groupKey {row : Row} {key : List Value} (h : groupKey A groupBy row = .ok key) :
    key.length = groupBy.length :=
  (ExceptFold.forall₂_of_mapM_ok h).length_eq.symm

/-- Each row is in one group, the rows of a group have the values of its key, and the groups have
different values. -/
structure Partitions (A : AggregateApi E F) (groupBy : List (GroupKeySpec E)) (rows : List Row)
    (groups : List Group) : Prop where
  complete : (groups.flatMap Prod.snd).Perm rows
  keyed : ∀ group ∈ groups, ∀ row ∈ group.2, ∃ key, groupKey A groupBy row = .ok key ∧
    SameValues key group.1
  apart : groups.Pairwise (fun g h => ¬ SameValues g.1 h.1)

/-- Two rows have one key text exactly if their group values are equal. -/
def TextsTell (A : AggregateApi E F) (groupBy : List (GroupKeySpec E)) (rows : List Row) : Prop :=
  ∀ a ∈ rows, ∀ b ∈ rows, ∀ ka kb, groupKey A groupBy a = .ok ka → groupKey A groupBy b = .ok kb →
    (valueKeyStr A.fmt ka = valueKeyStr A.fmt kb ↔ SameValues ka kb)

section TextGroups

variable {fmt : UInt64 → String} {keyed : List (List Value × Row)} {text : String} {group : Group}

lemma textGroups_perm : ((textGroups fmt keyed).entries.flatMap (fun e => e.2.2)).Perm
    (keyed.map Prod.snd) :=
  Buckets.collect_perm (Prod.snd : Group → List Row) Prod.snd (fun _ => rfl) (fun _ _ => rfl) keyed

lemma rows_of_mem_textGroups (h : (text, group) ∈ (textGroups fmt keyed).entries) :
    group.2 = (keyed.filter (fun entry => valueKeyStr fmt entry.1 = text)).map Prod.snd :=
  Buckets.items_of_mem_entries (Prod.snd : Group → List Row) Prod.snd
    (fun _ => rfl) (fun _ _ => rfl) h

lemma foldl_push_fst (xs : List (List Value × Row)) (group : Group) :
    (xs.foldl (fun group entry => (group.1, group.2 ++ [entry.2])) group).1 = group.1 := by
  induction xs generalizing group with
  | nil => rfl
  | cons x xs ih => rw [List.foldl_cons, ih]

lemma first_of_mem_textGroups (h : (text, group) ∈ (textGroups fmt keyed).entries) :
    ∃ entry ∈ keyed, valueKeyStr fmt entry.1 = text ∧ group.1 = entry.1 := by
  obtain ⟨x, hx, hkey, xs, rfl⟩ := Buckets.exists_first_of_mem_entries h
  exact ⟨x, hx, hkey, foldl_push_fst xs _⟩

end TextGroups

lemma textsTell_of_partitions {keyed : List (List Value × Row)}
    (hkeys : ∀ entry ∈ keyed, groupKey A groupBy entry.2 = .ok entry.1)
    (hpart : Partitions A groupBy (keyed.map Prod.snd)
      ((textGroups A.fmt keyed).entries.map Prod.snd)) :
    TextsTell A groupBy (keyed.map Prod.snd) := by
  intro a ha b hb ka kb hka hkb
  obtain ⟨x, hx, rfl⟩ := List.mem_map.mp ha
  obtain ⟨y, hy, rfl⟩ := List.mem_map.mp hb
  obtain rfl := Except.ok.inj ((hkeys x hx).symm.trans hka)
  obtain rfl := Except.ok.inj ((hkeys y hy).symm.trans hkb)
  -- each row is in the bucket of its text, with the values of the bucket
  have hbucket : ∀ z ∈ keyed, ∃ group, (valueKeyStr A.fmt z.1, group) ∈
      (textGroups A.fmt keyed).entries ∧ SameValues z.1 group.1 := by
    intro z hz
    obtain ⟨group, hgroup⟩ : ∃ group, (valueKeyStr A.fmt z.1, group) ∈
      (textGroups A.fmt keyed).entries := Buckets.exists_entry hz
    have hin : z.2 ∈ group.2 := by
      rw [rows_of_mem_textGroups hgroup]
      exact List.mem_map_of_mem (List.mem_filter.mpr ⟨hz, decide_eq_true rfl⟩)
    obtain ⟨key, hkey, hsame⟩ := hpart.keyed group (List.mem_map_of_mem (f := Prod.snd) hgroup)
      z.2 hin
    obtain rfl := Except.ok.inj ((hkeys z hz).symm.trans hkey)
    exact ⟨group, hgroup, hsame⟩
  obtain ⟨g, hg, hgx⟩ := hbucket x hx
  obtain ⟨g', hg', hgy⟩ := hbucket y hy
  constructor
  · intro htext
    rw [← htext] at hg'
    obtain rfl := Option.some.inj ((SortedMap.get_eq_some_iff.mpr hg).symm.trans
      (SortedMap.get_eq_some_iff.mpr hg'))
    exact hgx.trans hgy.symm
  · intro hsame
    by_contra hne
    have hsymm : Std.Symm (fun e e' : String × Group => ¬ SameValues e.2.1 e'.2.1) :=
      ⟨fun _ _ hnot hback => hnot hback.symm⟩
    exact (List.pairwise_map.mp hpart.apart).forall hg hg'
      (fun heq => hne (congrArg Prod.fst heq)) (hgx.symm.trans (hsame.trans hgy))

lemma partitions_of_textsTell {keyed : List (List Value × Row)}
    (hkeys : ∀ entry ∈ keyed, groupKey A groupBy entry.2 = .ok entry.1)
    (htell : TextsTell A groupBy (keyed.map Prod.snd)) :
    Partitions A groupBy (keyed.map Prod.snd) ((textGroups A.fmt keyed).entries.map Prod.snd) := by
  have hrow : ∀ {entry}, entry ∈ keyed → entry.2 ∈ keyed.map Prod.snd :=
    fun hentry => List.mem_map_of_mem hentry
  refine ⟨?_, ?_, ?_⟩
  · rw [List.flatMap_map]
    exact textGroups_perm
  · intro group hgroup row hin
    obtain ⟨⟨text, group⟩, hentry, rfl⟩ := List.mem_map.mp hgroup
    change row ∈ group.2 at hin
    rw [rows_of_mem_textGroups hentry] at hin
    obtain ⟨y, hy, rfl⟩ := List.mem_map.mp hin
    obtain ⟨hy, hytext⟩ := List.mem_filter.mp hy
    obtain ⟨x, hx, hxtext, hgroupKey⟩ := first_of_mem_textGroups hentry
    refine ⟨y.1, hkeys y hy, ?_⟩
    rw [hgroupKey]
    exact (htell y.2 (hrow hy) x.2 (hrow hx) y.1 x.1 (hkeys y hy) (hkeys x hx)).mp
      ((of_decide_eq_true hytext).trans hxtext.symm)
  · rw [List.pairwise_map]
    refine (textGroups A.fmt keyed).sorted.imp_of_mem ?_
    intro e e' he he' hlt hsame
    obtain ⟨x, hx, hxtext, hgx⟩ := first_of_mem_textGroups (show (e.1, e.2) ∈ _ from he)
    obtain ⟨y, hy, hytext, hgy⟩ := first_of_mem_textGroups (show (e'.1, e'.2) ∈ _ from he')
    rw [hgx, hgy] at hsame
    have htext := (htell x.2 (hrow hx) y.2 (hrow hy) x.1 y.1 (hkeys x hx) (hkeys y hy)).mpr hsame
    exact absurd (hxtext.symm.trans (htext.trans hytext)) hlt.ne

/-- The groups are those of the key values exactly if the texts tell the keys apart. -/
lemma partitions_iff_textsTell {groups : SortedMap String Group}
    (h : groupRows A rows groupBy = .ok groups) :
    Partitions A groupBy rows (groups.entries.map Prod.snd) ↔ TextsTell A groupBy rows := by
  obtain ⟨keyed, rfl, hkeys, rfl⟩ := groupRows_ok h
  exact ⟨textsTell_of_partitions hkeys, partitions_of_textsTell hkeys⟩

/-- The groups are those of the key values exactly if the texts tell the keys apart. One column of
nulls, booleans, integers and strings of any content is always told apart. -/
theorem groupRows_partitions_iff {groups : SortedMap String Group}
    (h : groupRows A rows groupBy = .ok groups) :
    (Partitions A groupBy rows (groups.entries.map Prod.snd) ↔ TextsTell A groupBy rows) ∧
    (groupBy.length = 1 → (∀ row ∈ rows, ∀ key, groupKey A groupBy row = .ok key →
      ∀ v ∈ key, v.Spelled) → Partitions A groupBy rows (groups.entries.map Prod.snd)) := by
  refine ⟨partitions_iff_textsTell h, fun hone hspelled => (partitions_iff_textsTell h).mpr ?_⟩
  intro a ha b hb ka kb hka hkb
  obtain ⟨v, rfl⟩ := List.length_eq_one_iff.mp ((length_groupKey hka).trans hone)
  obtain ⟨w, rfl⟩ := List.length_eq_one_iff.mp ((length_groupKey hkb).trans hone)
  exact valueKeyStr_singleton_iff (hspelled a ha _ hka v List.mem_cons_self)
    (hspelled b hb _ hkb w List.mem_cons_self)

end Partition

section PartitionRuns

/-- Floats by their bits, aggregates counting rows. -/
def countApi : AggregateApi Unit Unit where
  eval _ _ := .ok .null
  allMatch _ _ := .ok true
  computeOneAggregate rows _ := .ok (.integer (Int64.ofNat rows.length))
  fmt bits := bits.toNat.repr
  partialCmp a b := some (compare a b)
  asF64 n := n.toUInt64

def keyRow (v : Value) : Row := SortedMap.ofList [("k", v)]

lemma groupKey_keyRow (v : Value) :
    groupKey countApi [GroupKeySpec.column "k"] (keyRow v) = .ok [v] := rfl

theorem groupRows_partitions_strings : ∃ groups,
    groupRows countApi [keyRow (.string "x"), keyRow (.string "y|z"), keyRow (.string "x")]
      [GroupKeySpec.column "k"] = .ok groups ∧
    Partitions countApi [GroupKeySpec.column "k"]
      [keyRow (.string "x"), keyRow (.string "y|z"), keyRow (.string "x")]
      (groups.entries.map Prod.snd) := by
  refine ⟨_, rfl, (groupRows_partitions_iff rfl).2 rfl ?_⟩
  intro row hrow key hkey
  simp only [List.mem_cons, List.not_mem_nil, or_false] at hrow
  rcases hrow with rfl | rfl | rfl <;>
    (obtain rfl := Except.ok.inj ((groupKey_keyRow _).symm.trans hkey); simp [Value.Spelled])

/-- Two byte strings of one length are put into one group. -/
theorem groupRows_merges_bytes : ∃ groups,
    groupRows countApi [keyRow (.bytes [1]), keyRow (.bytes [2])] [GroupKeySpec.column "k"]
      = .ok groups ∧
    ¬ Partitions countApi [GroupKeySpec.column "k"] [keyRow (.bytes [1]), keyRow (.bytes [2])]
      (groups.entries.map Prod.snd) := by
  refine ⟨_, rfl, fun hpart => ?_⟩
  have hsame := ((partitions_iff_textsTell rfl).mp hpart _ List.mem_cons_self _
    (List.mem_cons_of_mem _ List.mem_cons_self) _ _ (groupKey_keyRow (.bytes [1]))
    (groupKey_keyRow (.bytes [2]))).mp rfl
  simp [SameValues, Value.meaning] at hsame

end PartitionRuns

end NodedbLite.Query
