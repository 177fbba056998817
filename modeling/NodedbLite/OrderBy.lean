import NodedbLite.Having
import NodedbLite.StableSort

/-! ORDER BY on the rows of a scan. The rows are decorated with their key values and sorted by the
first key on which they differ. The place of null is decided before the direction is applied, so a
descending key turns it round. -/
namespace NodedbLite.Query

open StableSort

/-- A sort key names a column or is another expression. -/
inductive SortExpr (S : Type)
  | column (name : String)
  | other (e : S)

structure SortKey (S : Type) where
  expr : SortExpr S
  ascending : Bool
  nullsFirst : Bool

inductive ResolvedKey (Q : Type)
  | colIndex (idx : Nat)
  | expr (e : Q)

structure SortKeyResolved (Q : Type) where
  key : ResolvedKey Q
  ascending : Bool
  nullsFirst : Bool

/-- Expressions and the comparison of values of the shared crates. -/
structure SortApi (S Q : Type) where
  convertSqlExpr : S → Except LiteError Q
  eval : Q → List String → List Value → Except LiteError Value
  compareValues : Value → Value → Ordering

/-- The part of a name behind the last point. -/
def bareName (name : String) : String := String.ofList ((name.toList.splitOn '.').getLastD [])

section Sorting

variable {S Q : Type} (A : SortApi S Q)

def resolveSortKeys (sortKeys : List (SortKey S)) (columns : List String) :
    Except LiteError (List (SortKeyResolved Q)) :=
  sortKeys.mapM (fun sk => do
    let key ← match sk.expr with
      | .column name =>
        match (columns.findIdx? (· = name)).or (columns.findIdx? (· = bareName name)) with
        | some idx => .ok (ResolvedKey.colIndex idx)
        | none => .error (.badRequest ("ORDER BY column '" ++ name ++ "' not found in scan output"))
      | .other e => (A.convertSqlExpr e).map ResolvedKey.expr
    .ok ⟨key, sk.ascending, sk.nullsFirst⟩)

def extractKeyValue (row : List Value) (columns : List String) : ResolvedKey Q → Except LiteError Value
  | .colIndex idx => .ok (row.getD idx .null)
  | .expr e => A.eval e columns row

def cmpWithNulls (a b : Value) (nullsFirst : Bool) : Ordering :=
  match a, b with
  | .null, .null => .eq
  | .null, _ => if nullsFirst then .lt else .gt
  | _, .null => if nullsFirst then .gt else .lt
  | va, vb => A.compareValues va vb

/-- The comparison of a key, turned round if it is descending. -/
def compareKey (sk : SortKeyResolved Q) (a b : Value) : Ordering :=
  if sk.ascending then cmpWithNulls A a b sk.nullsFirst else (cmpWithNulls A a b sk.nullsFirst).swap

/-- The first key whose comparison is not a tie decides. -/
def compareFrom (compareKey : SortKeyResolved Q → Value → Value → Ordering) (a b : List Value) :
    Nat → List (SortKeyResolved Q) → Ordering
  | _, [] => .eq
  | i, sk :: rest =>
    (compareKey sk (a.getD i .null) (b.getD i .null)).then (compareFrom compareKey a b (i + 1) rest)

def compareKeys (a b : List Value) (keys : List (SortKeyResolved Q)) : Ordering :=
  compareFrom (compareKey A) a b 0 keys

def keyValues (columns : List String) (resolved : List (SortKeyResolved Q)) (row : List Value) :
    Except LiteError (List Value) :=
  resolved.mapM (fun sk => extractKeyValue A row columns sk.key)

def sortRows (result : QueryResult) (sortKeys : List (SortKey S)) : Except LiteError QueryResult :=
  if sortKeys.isEmpty then .ok result
  else do
    let resolved ← resolveSortKeys A sortKeys result.columns
    let decorated ← result.rows.mapM (fun row => do
      let keys ← keyValues A result.columns resolved row
      .ok (keys, row))
    .ok { result with
      rows := (sort (fun a b => compareKeys A a.1 b.1 resolved) decorated).map Prod.snd }

end Sorting

section Meaning

variable {S Q : Type} (A : SortApi S Q)

/-- The comparison of a key in SQL: the direction is that of the values, the place of null is fixed. -/
def sqlCompareKey (sk : SortKeyResolved Q) (a b : Value) : Ordering :=
  if a.isNull || b.isNull then cmpWithNulls A a b sk.nullsFirst
  else if sk.ascending then A.compareValues a b else (A.compareValues a b).swap

/-- The key values of a row; a row that has none is not in the output. -/
def keysOf (columns : List String) (resolved : List (SortKeyResolved Q)) (row : List Value) : List Value :=
  match keyValues A columns resolved row with
  | .ok keys => keys
  | .error _ => []

/-- The order of rows in SQL. -/
def sqlCompareRows (columns : List String) (resolved : List (SortKeyResolved Q)) (a b : List Value) :
    Ordering :=
  compareFrom (sqlCompareKey A) (keysOf A columns resolved a) (keysOf A columns resolved b) 0 resolved

/-- The first key on which the rows are not tied is descending, and null in one of them. -/
def NullFlipped (a b : List Value) : Nat → List (SortKeyResolved Q) → Prop
  | _, [] => False
  | i, sk :: rest =>
    if cmpWithNulls A (a.getD i .null) (b.getD i .null) sk.nullsFirst = .eq then
      NullFlipped a b (i + 1) rest
    else sk.ascending = false ∧ (a.getD i .null).isNull ≠ (b.getD i .null).isNull

/-- The comparison is a total preorder on values other than null. -/
structure TotalPreorder (cmp : Value → Value → Ordering) : Prop where
  oriented : ∀ a b, a.isNull = false → b.isNull = false → cmp a b = (cmp b a).swap
  trans : ∀ a b c, a.isNull = false → b.isNull = false → c.isNull = false →
    (cmp a b).isLE → (cmp b c).isLE → (cmp a c).isLE

end Meaning

section Comparators

variable {S Q : Type} {A : SortApi S Q}

lemma cmpWithNulls_eq (a b : Value) (nullsFirst : Bool) :
    cmpWithNulls A a b nullsFirst
      = if a.isNull then (if b.isNull then .eq else if nullsFirst then .lt else .gt)
        else if b.isNull then (if nullsFirst then .gt else .lt) else A.compareValues a b := by
  cases a <;> cases b <;> rfl

lemma transCmp_cmpWithNulls (laws : TotalPreorder A.compareValues) (nullsFirst : Bool) :
    Std.TransCmp (fun a b => cmpWithNulls A a b nullsFirst) where
  eq_swap {a b} := by
    simp only [cmpWithNulls_eq]
    cases ha : a.isNull <;> cases hb : b.isNull <;> cases nullsFirst <;>
      simp [laws.oriented a b, *]
  isLE_trans {a b c} := by
    simp only [cmpWithNulls_eq]
    have htrans := laws.trans a b c
    cases ha : a.isNull <;> cases hb : b.isNull <;> cases hc : c.isNull <;> cases nullsFirst <;>
      simp_all

lemma TotalPreorder.swap {cmp : Value → Value → Ordering} (laws : TotalPreorder cmp) :
    TotalPreorder (fun a b => (cmp a b).swap) where
  oriented a b ha hb := congrArg Ordering.swap (laws.oriented a b ha hb)
  trans a b c ha hb hc hab hbc := by
    rw [← laws.oriented b a hb ha] at hab
    rw [← laws.oriented c b hc hb] at hbc
    rw [← laws.oriented c a hc ha]
    exact laws.trans c b a hc hb ha hbc hab

lemma transCmp_swap {α : Type} {cmp : α → α → Ordering} (h : Std.TransCmp cmp) :
    Std.TransCmp (fun a b => (cmp a b).swap) where
  eq_swap {a b} := congrArg Ordering.swap (swap_eq cmp b a)
  isLE_trans {a b c} hab hbc := by
    rw [← swap_eq cmp a b] at hab
    rw [← swap_eq cmp b c] at hbc
    rw [← swap_eq cmp a c]
    exact h.isLE_trans hbc hab

lemma transCmp_compareKey (laws : TotalPreorder A.compareValues) (sk : SortKeyResolved Q) :
    Std.TransCmp (compareKey A sk) := by
  have hnulls := transCmp_cmpWithNulls laws sk.nullsFirst
  unfold compareKey
  cases sk.ascending with
  | true => simpa using hnulls
  | false => simpa using transCmp_swap hnulls

lemma sqlCompareKey_eq (sk : SortKeyResolved Q) (a b : Value) :
    sqlCompareKey A sk a b = if sk.ascending then cmpWithNulls A a b sk.nullsFirst
      else cmpWithNulls { A with compareValues := fun a b => (A.compareValues a b).swap } a b
        sk.nullsFirst := by
  unfold sqlCompareKey
  simp only [cmpWithNulls_eq]
  cases a.isNull <;> cases b.isNull <;> cases sk.ascending <;> simp

lemma transCmp_sqlCompareKey (laws : TotalPreorder A.compareValues) (sk : SortKeyResolved Q) :
    Std.TransCmp (sqlCompareKey A sk) := by
  have heq : sqlCompareKey A sk = fun a b => _ := funext fun a => funext (sqlCompareKey_eq sk a)
  rw [heq]
  cases sk.ascending with
  | true => simpa using transCmp_cmpWithNulls laws sk.nullsFirst
  | false =>
    simpa using transCmp_cmpWithNulls
      (A := { A with compareValues := fun a b => (A.compareValues a b).swap }) laws.swap sk.nullsFirst

lemma transCmp_compareFrom {compareKey : SortKeyResolved Q → Value → Value → Ordering}
    (h : ∀ sk, Std.TransCmp (compareKey sk)) (keys : List (SortKeyResolved Q)) (i : Nat) :
    Std.TransCmp (fun a b => compareFrom compareKey a b i keys) := by
  induction keys generalizing i with
  | nil => exact { eq_swap := rfl, isLE_trans := fun _ _ => rfl }
  | cons sk rest ih =>
    have hfirst : Std.TransCmp (fun a b : List Value => compareKey sk (a.getD i .null) (b.getD i .null)) :=
      { eq_swap := swap_eq (compareKey sk) _ _, isLE_trans := (h sk).isLE_trans }
    have hrest := ih (i + 1)
    exact inferInstanceAs (Std.TransCmp (compareLex _ _))

lemma compareKey_eq_iff (sk : SortKeyResolved Q) (a b : Value) :
    compareKey A sk a b = .eq ↔ cmpWithNulls A a b sk.nullsFirst = .eq := by
  unfold compareKey
  cases sk.ascending <;> simp

lemma sqlCompareKey_eq_iff (sk : SortKeyResolved Q) (a b : Value) :
    sqlCompareKey A sk a b = .eq ↔ cmpWithNulls A a b sk.nullsFirst = .eq := by
  unfold sqlCompareKey
  simp only [cmpWithNulls_eq]
  cases a.isNull <;> cases b.isNull <;> cases sk.ascending <;> simp

/-- Where two rows are not tied the comparisons differ for a descending key that is null in one. -/
lemma compareKey_eq_sql_iff (sk : SortKeyResolved Q) {a b : Value}
    (htie : cmpWithNulls A a b sk.nullsFirst ≠ .eq) :
    compareKey A sk a b = sqlCompareKey A sk a b ↔ ¬ (sk.ascending = false ∧ a.isNull ≠ b.isNull) := by
  unfold compareKey sqlCompareKey
  simp only [cmpWithNulls_eq] at htie ⊢
  cases ha : a.isNull <;> cases hb : b.isNull <;> cases sk.ascending <;> cases sk.nullsFirst <;>
    simp_all

lemma compareFrom_eq_iff (a b : List Value) (keys : List (SortKeyResolved Q)) (i : Nat) :
    compareFrom (compareKey A) a b i keys = compareFrom (sqlCompareKey A) a b i keys ↔
      ¬ NullFlipped A a b i keys := by
  induction keys generalizing i with
  | nil => simp [compareFrom, NullFlipped]
  | cons sk rest ih =>
    rw [compareFrom, compareFrom, NullFlipped]
    by_cases htie : cmpWithNulls A (a.getD i .null) (b.getD i .null) sk.nullsFirst = .eq
    · rw [if_pos htie, (compareKey_eq_iff ..).mpr htie, (sqlCompareKey_eq_iff ..).mpr htie]
      exact ih (i + 1)
    · rw [if_neg htie, ← compareKey_eq_sql_iff sk htie]
      have hcode := mt (compareKey_eq_iff sk _ _).mp htie
      have hsql := mt (sqlCompareKey_eq_iff sk _ _).mp htie
      revert hcode hsql
      cases compareKey A sk (a.getD i .null) (b.getD i .null) <;>
        cases sqlCompareKey A sk (a.getD i .null) (b.getD i .null) <;> simp

lemma compareFrom_tie_iff (a b : List Value) (keys : List (SortKeyResolved Q)) (i : Nat) :
    compareFrom (compareKey A) a b i keys = .eq ↔ compareFrom (sqlCompareKey A) a b i keys = .eq := by
  induction keys generalizing i with
  | nil => rfl
  | cons sk rest ih =>
    rw [compareFrom, compareFrom, Ordering.then_eq_eq, Ordering.then_eq_eq, compareKey_eq_iff,
      sqlCompareKey_eq_iff, ih]

end Comparators

section Exact

variable {S Q : Type} {A : SortApi S Q} {result sorted : QueryResult} {sortKeys : List (SortKey S)}
  {resolved : List (SortKeyResolved Q)}

lemma rows_sortRows (hresolved : resolveSortKeys A sortKeys result.columns = .ok resolved)
    (h : sortRows A result sortKeys = .ok sorted) :
    sorted.rows = sort (fun a b => compareKeys A (keysOf A result.columns resolved a)
      (keysOf A result.columns resolved b) resolved) result.rows := by
  unfold sortRows at h
  split at h
  · rename_i hempty
    obtain rfl := Except.ok.inj h
    have hkeys : resolved = [] := by
      rw [List.isEmpty_iff.mp hempty] at hresolved
      exact (Except.ok.inj hresolved).symm
    subst hkeys
    exact (List.mergeSort_of_pairwise (List.pairwise_of_forall (fun _ _ => rfl))).symm
  · obtain ⟨keys, hkeys, h⟩ := ExceptFold.bind_eq_ok.mp h
    obtain rfl := Except.ok.inj (hresolved.symm.trans hkeys)
    obtain ⟨decorated, hdecorated, h⟩ := ExceptFold.bind_eq_ok.mp h
    obtain rfl := Except.ok.inj h
    obtain ⟨hrows, hvalues⟩ := ExceptFold.mapM_pair_ok hdecorated
    have hturn : ∀ entry ∈ decorated, entry.1 = keysOf A result.columns resolved entry.2 := by
      intro entry hentry
      simp only [keysOf, hvalues entry hentry]
    change (sort _ decorated).map Prod.snd = _
    rw [sort, List.map_mergeSort (s := fun a b => (compareKeys A (keysOf A result.columns resolved a)
      (keysOf A result.columns resolved b) resolved).isLE), hrows]
    · rfl
    · intro a ha b hb
      rw [hturn a ha, hturn b hb]

/-- The output is the stable sort of SQL exactly if no two rows are told apart first by a descending key
that is null in one of them. -/
theorem order_by_iff (laws : TotalPreorder A.compareValues)
    (hresolved : resolveSortKeys A sortKeys result.columns = .ok resolved)
    (h : sortRows A result sortKeys = .ok sorted) :
    IsStableSort (sqlCompareRows A result.columns resolved) result.rows sorted.rows ↔
      ∀ a ∈ result.rows, ∀ b ∈ result.rows, ¬ NullFlipped A (keysOf A result.columns resolved a)
        (keysOf A result.columns resolved b) 0 resolved := by
  rw [rows_sortRows hresolved h]
  have hcode := transCmp_compareFrom (transCmp_compareKey laws) resolved 0
  have hsql := transCmp_compareFrom (transCmp_sqlCompareKey laws) resolved 0
  have hcodeRows : Std.TransCmp (fun a b => compareKeys A (keysOf A result.columns resolved a)
      (keysOf A result.columns resolved b) resolved) :=
    { eq_swap := hcode.eq_swap, isLE_trans := hcode.isLE_trans }
  have hsqlRows : Std.TransCmp (sqlCompareRows A result.columns resolved) :=
    { eq_swap := hsql.eq_swap, isLE_trans := hsql.isLE_trans }
  have hties : ∀ a b, compareKeys A (keysOf A result.columns resolved a)
      (keysOf A result.columns resolved b) resolved = .eq ↔
        sqlCompareRows A result.columns resolved a b = .eq :=
    fun a b => compareFrom_tie_iff _ _ resolved 0
  rw [sort_isStableSort_iff hties]
  exact forall₂_congr (fun a _ => forall₂_congr (fun b _ => compareFrom_eq_iff _ _ resolved 0))

end Exact

section Runs

def Value.rank : Value → Int
  | .integer n => n.toInt
  | _ => 0

/-- Integers by their size, no other expressions than columns. -/
def integerSort : SortApi Unit Unit where
  convertSqlExpr _ := .ok ()
  eval _ _ _ := .ok .null
  compareValues a b := compare a.rank b.rank

lemma totalPreorder_integerSort : TotalPreorder integerSort.compareValues where
  oriented a b _ _ := (Std.OrientedOrd.eq_swap : compare a.rank b.rank = _)
  trans a _ c _ _ _ hab hbc := (Std.TransOrd.isLE_trans hab hbc : (compare a.rank c.rank).isLE)

def numbers (cells : List Value) : QueryResult := ⟨["n"], cells.map (fun v => [v]), 0, none⟩

theorem ascending_nulls_last : ∃ sorted,
    sortRows integerSort (numbers [.integer 3, .null, .integer 1]) [⟨.column "t.n", true, false⟩]
      = .ok sorted ∧
    IsStableSort (sqlCompareRows integerSort ["n"] [⟨.colIndex 0, true, false⟩])
      (numbers [.integer 3, .null, .integer 1]).rows sorted.rows := by
  have hresolved : resolveSortKeys integerSort [⟨.column "t.n", true, false⟩]
      (numbers [.integer 3, .null, .integer 1]).columns = .ok [⟨.colIndex 0, true, false⟩] := rfl
  obtain ⟨sorted, hsorted⟩ : ∃ sorted, sortRows integerSort (numbers [.integer 3, .null, .integer 1])
      [⟨.column "t.n", true, false⟩] = .ok sorted := ⟨_, rfl⟩
  refine ⟨sorted, hsorted, (order_by_iff totalPreorder_integerSort hresolved hsorted).mpr ?_⟩
  intro a _ b _ hflipped
  rw [NullFlipped] at hflipped
  split at hflipped
  · exact hflipped
  · exact absurd hflipped.1 (by decide)

/-- Of a null and a number in descending order with nulls last, the null comes first. -/
theorem descending_nulls_last : ∃ sorted,
    sortRows integerSort (numbers [.null, .integer 1]) [⟨.column "n", false, false⟩] = .ok sorted ∧
    ¬ IsStableSort (sqlCompareRows integerSort ["n"] [⟨.colIndex 0, false, false⟩])
      (numbers [.null, .integer 1]).rows sorted.rows := by
  have hresolved : resolveSortKeys integerSort [⟨.column "n", false, false⟩]
      (numbers [.null, .integer 1]).columns = .ok [⟨.colIndex 0, false, false⟩] := rfl
  obtain ⟨sorted, hsorted⟩ : ∃ sorted, sortRows integerSort (numbers [.null, .integer 1])
      [⟨.column "n", false, false⟩] = .ok sorted := ⟨_, rfl⟩
  refine ⟨sorted, hsorted, ?_⟩
  rw [rows_sortRows hresolved hsorted, sort, List.mergeSort_of_pairwise]
  · intro hstable
    have hfirst := List.rel_of_pairwise_cons hstable.sorted List.mem_cons_self
    exact absurd hfirst (by decide)
  · refine List.Pairwise.cons (fun b hb => ?_) (List.pairwise_singleton _ _)
    obtain rfl := List.mem_singleton.mp hb
    rfl

end Runs

end NodedbLite.Query
