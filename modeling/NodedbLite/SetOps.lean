import NodedbLite.Aggregate
import NodedbLite.Multiplicity

/-! UNION, INTERSECT and EXCEPT over the results of plans. Rows are told apart by the debug texts of
their values; the ALL forms use up a table of counts, the others remember the texts they have seen. -/
namespace NodedbLite.Query

open FirstOfEach Multiplicity

section Lowering

variable {P : Type} (execute : P → Except LiteError QueryResult) (debug : Value → String)

def rowKey (row : List Value) : String := "\x00".intercalate (row.map debug)

/-- Push the rows whose text passes the test and is new, together with the texts seen at the end. -/
def pushUnseen (p : String → Bool) (seen : List String) :
    List (List Value) → List (List Value) × List String
  | [] => ([], seen)
  | row :: rows =>
    if p (rowKey debug row) && !seen.contains (rowKey debug row) then
      let rest := pushUnseen p (rowKey debug row :: seen) rows
      (row :: rest.1, rest.2)
    else pushUnseen p seen rows

/-- The loop over the inputs of a union. The columns are those of the first input that has any. -/
def unionLoop (distinct : Bool) (columns : List String) (seen : List String) :
    List P → Except LiteError QueryResult
  | [] => .ok ⟨columns, [], 0, none⟩
  | plan :: plans => do
    let result ← execute plan
    let columns := if columns.isEmpty then result.columns else columns
    let pushed :=
      if distinct then pushUnseen debug (fun _ => true) seen result.rows else (result.rows, seen)
    let rest ← unionLoop distinct columns pushed.2 plans
    return ⟨rest.columns, pushed.1 ++ rest.rows, 0, none⟩

def lowerUnion (inputs : List P) (distinct : Bool) : Except LiteError QueryResult :=
  unionLoop execute debug distinct [] [] inputs

/-- How often each text occurs. -/
def rightCounts (rows : List (List Value)) : SortedMap String Nat :=
  rows.foldl (fun counts row =>
    counts.insert (rowKey debug row) ((counts.get (rowKey debug row)).getD 0 + 1)) .empty

def intersectAll (counts : SortedMap String Nat) : List (List Value) → List (List Value)
  | [] => []
  | row :: rows =>
    match counts.get (rowKey debug row) with
    | some (n + 1) => row :: intersectAll (counts.insert (rowKey debug row) n) rows
    | _ => intersectAll counts rows

/-- A text that is not in the table enters it with the count 0. -/
def exceptAll (counts : SortedMap String Nat) : List (List Value) → List (List Value)
  | [] => []
  | row :: rows =>
    let count := (counts.get (rowKey debug row)).getD 0
    if 0 < count then exceptAll (counts.insert (rowKey debug row) (count - 1)) rows
    else row :: exceptAll (counts.insert (rowKey debug row) count) rows

def lowerIntersect (left right : P) (all : Bool) : Except LiteError QueryResult := do
  let leftResult ← execute left
  let rightResult ← execute right
  let rightSet := rightResult.rows.map (rowKey debug)
  return ⟨leftResult.columns,
    if all then intersectAll debug (rightCounts debug rightResult.rows) leftResult.rows
    else (pushUnseen debug rightSet.contains [] leftResult.rows).1, 0, none⟩

def lowerExcept (left right : P) (all : Bool) : Except LiteError QueryResult := do
  let leftResult ← execute left
  let rightResult ← execute right
  let rightSet := rightResult.rows.map (rowKey debug)
  return ⟨leftResult.columns,
    if all then exceptAll debug (rightCounts debug rightResult.rows) leftResult.rows
    else (pushUnseen debug (fun key => !rightSet.contains key) [] leftResult.rows).1, 0, none⟩

end Lowering

section Passes

variable {debug : Value → String}

/-- The count that a table holds for a text, 0 if it has none. -/
def countOf (counts : SortedMap String Nat) (key : String) : Nat := (counts.get key).getD 0

lemma countOf_insert (counts : SortedMap String Nat) (key : String) (n : Nat) :
    countOf (counts.insert key n) = Function.update (countOf counts) key n := by
  funext k
  by_cases hk : k = key
  · subst hk
    simp [countOf]
  · simp [countOf, hk]

lemma countOf_rightCounts (rows : List (List Value)) :
    countOf (rightCounts debug rows) = classCount (rowKey debug) rows := by
  funext key
  induction rows using List.reverseRecOn with
  | nil => rfl
  | append_singleton rows row ih =>
    have hstep : rightCounts debug (rows ++ [row]) = (rightCounts debug rows).insert
        (rowKey debug row) (countOf (rightCounts debug rows) (rowKey debug row) + 1) := by
      simp [rightCounts, countOf]
    rw [hstep, countOf_insert]
    by_cases hkey : rowKey debug row = key
    · subst hkey
      rw [Function.update_self, ih]
      simp [classCount]
    · rw [Function.update_of_ne (Ne.symm hkey), ih]
      simp [classCount, hkey]

lemma intersectAll_eq (counts : SortedMap String Nat) (rows : List (List Value)) :
    intersectAll debug counts rows = (consume (rowKey debug) (countOf counts) rows).1 := by
  induction rows generalizing counts with
  | nil => rfl
  | cons row rows ih =>
    rw [intersectAll, consume]
    split
    next n hget =>
      have hcount : countOf counts (rowKey debug row) = n + 1 := by simp [countOf, hget]
      rw [ih, countOf_insert, hcount, if_pos n.succ_pos]
      rfl
    next hget =>
      have hcount : countOf counts (rowKey debug row) = 0 := by
        cases h : counts.get (rowKey debug row) with
        | none => simp [countOf, h]
        | some n =>
          cases n with
          | zero => simp [countOf, h]
          | succ n => exact absurd h (hget n)
      rw [ih, hcount, if_neg (lt_irrefl 0)]

lemma exceptAll_eq (counts : SortedMap String Nat) (rows : List (List Value)) :
    exceptAll debug counts rows = (consume (rowKey debug) (countOf counts) rows).2 := by
  induction rows generalizing counts with
  | nil => rfl
  | cons row rows ih =>
    rw [exceptAll, consume]
    change (if 0 < countOf counts (rowKey debug row) then _ else _) = _
    split_ifs with hcount
    · rw [ih, countOf_insert]
      rfl
    · rw [ih, countOf_insert]
      -- the text enters the table with the count it already stands for
      change row :: (consume _ (Function.update _ _ (countOf counts (rowKey debug row))) rows).2 = _
      rw [Function.update_eq_self]

lemma pushUnseen_rows (p : String → Bool) (seen : List String) (rows : List (List Value)) :
    (pushUnseen debug p seen rows).1 =
      retainUnseen (rowKey debug) seen (rows.filter (fun row => p (rowKey debug row))) := by
  induction rows generalizing seen with
  | nil => rfl
  | cons row rows ih =>
    by_cases hp : p (rowKey debug row) = true
    · rw [List.filter_cons_of_pos (p := fun row => p (rowKey debug row)) hp, pushUnseen,
        retainUnseen]
      by_cases hseen : rowKey debug row ∈ seen
      · simp [hp, hseen, ih]
      · simp [hp, hseen, ih]
    · rw [List.filter_cons_of_neg (p := fun row => p (rowKey debug row)) hp, pushUnseen]
      simp [hp, ih]

/-- What a pass has seen decides what a second pass pushes: two passes are one over both lists. -/
lemma pushUnseen_append (p : String → Bool) (seen : List String) (rows more : List (List Value)) :
    (pushUnseen debug p seen (rows ++ more)).1 = (pushUnseen debug p seen rows).1 ++
      (pushUnseen debug p (pushUnseen debug p seen rows).2 more).1 := by
  induction rows generalizing seen with
  | nil => rfl
  | cons row rows ih =>
    simp only [List.cons_append, pushUnseen]
    split_ifs with hnew
    · simp [ih]
    · exact ih seen

lemma unionLoop_rows {P : Type} {execute : P → Except LiteError QueryResult} (distinct : Bool)
    {plans : List P} {results : List QueryResult}
    (hrun : List.Forall₂ (fun plan result => execute plan = .ok result) plans results)
    (columns seen : List String) :
    ∃ out, unionLoop execute debug distinct columns seen plans = .ok out ∧
      out.rows = if distinct then (pushUnseen debug (fun _ => true) seen
        (results.flatMap (·.rows))).1 else results.flatMap (·.rows) := by
  induction hrun generalizing columns seen with
  | nil => exact ⟨⟨columns, [], 0, none⟩, rfl, by cases distinct <;> rfl⟩
  | @cons plan result plans results hplan _ ih =>
    cases distinct with
    | false =>
      obtain ⟨out, hout, hrows⟩ :=
        ih (if columns.isEmpty then result.columns else columns) seen
      refine ⟨⟨out.columns, result.rows ++ out.rows, 0, none⟩, ?_, by simp [hrows]⟩
      simp only [unionLoop, hplan, bind, Except.bind, hout, pure, Except.pure,
        Bool.false_eq_true, if_false]
    | true =>
      obtain ⟨out, hout, hrows⟩ := ih (if columns.isEmpty then result.columns else columns)
        (pushUnseen debug (fun _ => true) seen result.rows).2
      refine ⟨⟨out.columns, (pushUnseen debug (fun _ => true) seen result.rows).1 ++ out.rows, 0, none⟩,
        ?_, ?_⟩
      · simp only [unionLoop, hplan, bind, Except.bind, hout, pure, Except.pure, if_true]
      · simp only [if_true] at hrows ⊢
        rw [hrows, List.flatMap_cons, pushUnseen_append]

end Passes

section Laws

variable [DecidableEq Value]

/-- A result with a given number of copies of each row, in the order of the input. -/
structure Copies (input : List (List Value)) (n : List Value → Nat) (rows : List (List Value)) :
    Prop where
  count : ∀ row, rows.count row = n row
  sublist : rows.Sublist input

/-- A result with the rows of a kind once each, in the order in which the input has them first. -/
structure Once (input : List (List Value)) (p : List Value → Prop) (rows : List (List Value)) :
    Prop where
  mem : ∀ row, row ∈ rows ↔ p row
  nodup : rows.Nodup
  ordered : rows.Pairwise (fun a b => input.idxOf a < input.idxOf b)

/-- The operation succeeds, with rows of which a property holds. -/
def Returns (result : Except LiteError QueryResult) (p : List (List Value) → Prop) : Prop :=
  ∃ out, result = .ok out ∧ p out.rows

variable {debug : Value → String} {left right : List (List Value)}

lemma copies_of_classCount (hsep : Separates (rowKey debug) (left ++ right))
    {rows : List (List Value)} (hsub : rows.Sublist left) {n : Nat → Nat → Nat}
    (hzero : ∀ r, n 0 r = 0)
    (hcount : ∀ key, classCount (rowKey debug) rows key =
      n (classCount (rowKey debug) left key) (classCount (rowKey debug) right key)) :
    Copies left (fun row => n (left.count row) (right.count row)) rows := by
  refine ⟨fun row => ?_, hsub⟩
  by_cases hrow : row ∈ left ++ right
  · rw [count_eq_classCount hsep (List.Subset.trans hsub.subset (List.subset_append_left _ _)) hrow,
      hcount,
      ← count_eq_classCount hsep (List.subset_append_left _ _) hrow,
      ← count_eq_classCount hsep (List.subset_append_right _ _) hrow]
  · have hleft : row ∉ left := fun h => hrow (List.mem_append_left _ h)
    rw [List.count_eq_zero_of_not_mem (fun h => hleft (hsub.subset h)),
      List.count_eq_zero_of_not_mem hleft, hzero]

/-- A pass from nothing pushes each row that passes the test once, where it first appears. -/
lemma once_pushUnseen {rows : List (List Value)} (hsep : Separates (rowKey debug) rows)
    (p : String → Bool) :
    Once rows (fun row => row ∈ rows ∧ p (rowKey debug row) = true)
      (pushUnseen debug p [] rows).1 := by
  have heq : (pushUnseen debug p [] rows).1 =
      (firstOfEach (rowKey debug) rows).filter (fun row => p (rowKey debug row)) := by
    rw [pushUnseen_rows, retainUnseen_eq, firstOfEach_filter]
    simp
  rw [heq]
  refine ⟨fun row => ?_, ?_, (firstOfEach_ordered rows).filter _⟩
  · rw [List.mem_filter, mem_firstOfEach hsep]
  · exact ((pairwise_firstOfEach rows).imp fun hne h => hne (congrArg _ h)).filter _

omit [DecidableEq Value] in
lemma contains_rowKey (hsep : Separates (rowKey debug) (left ++ right)) {row : List Value}
    (hrow : row ∈ left) : (right.map (rowKey debug)).contains (rowKey debug row) = true ↔
      row ∈ right := by
  rw [List.contains_iff_mem, List.mem_map]
  constructor
  · rintro ⟨other, hother, hkey⟩
    have heq := hsep other (List.mem_append_right _ hother) row (List.mem_append_left _ hrow) hkey
    exact heq ▸ hother
  · exact fun h => ⟨row, h, rfl⟩

lemma once_left (hsep : Separates (rowKey debug) (left ++ right)) {p : String → Bool}
    {q : Prop → Prop} (htest : ∀ row ∈ left, p (rowKey debug row) = true ↔ q (row ∈ right)) :
    Once left (fun row => row ∈ left ∧ q (row ∈ right)) (pushUnseen debug p [] left).1 := by
  have hleft : Separates (rowKey debug) left := fun a ha b hb =>
    hsep a (List.mem_append_left _ ha) b (List.mem_append_left _ hb)
  have honce := once_pushUnseen hleft p
  refine ⟨fun row => ?_, honce.nodup, honce.ordered⟩
  rw [honce.mem]
  exact and_congr_right (htest row)

/-- The multiplicities of the six set operations over two results whose rows have the same text only
if they are equal. -/
theorem set_operation_multiplicities {P : Type} {execute : P → Except LiteError QueryResult}
    {l r : P} {left right : QueryResult} (hl : execute l = .ok left) (hr : execute r = .ok right)
    (hsep : Separates (rowKey debug) (left.rows ++ right.rows)) :
    Returns (lowerUnion execute debug [l, r] false) (Copies (left.rows ++ right.rows)
      (fun row => left.rows.count row + right.rows.count row)) ∧
    Returns (lowerIntersect execute debug l r true) (Copies left.rows
      (fun row => min (left.rows.count row) (right.rows.count row))) ∧
    Returns (lowerExcept execute debug l r true) (Copies left.rows
      (fun row => left.rows.count row - right.rows.count row)) ∧
    Returns (lowerUnion execute debug [l, r] true) (Once (left.rows ++ right.rows)
      (fun row => row ∈ left.rows ∨ row ∈ right.rows)) ∧
    Returns (lowerIntersect execute debug l r false) (Once left.rows
      (fun row => row ∈ left.rows ∧ row ∈ right.rows)) ∧
    Returns (lowerExcept execute debug l r false) (Once left.rows
      (fun row => row ∈ left.rows ∧ row ∉ right.rows)) := by
  have hrun : List.Forall₂ (fun plan result => execute plan = .ok result) [l, r] [left, right] :=
    .cons hl (.cons hr .nil)
  have hflat : [left, right].flatMap (·.rows) = left.rows ++ right.rows := by simp
  have hconsume := classCount_consume (f := rowKey debug)
    (countOf (rightCounts debug right.rows)) left.rows
  have hsub := consume_sublist (f := rowKey debug)
    (countOf (rightCounts debug right.rows)) left.rows
  refine ⟨?_, ?_, ?_, ?_, ?_, ?_⟩
  · obtain ⟨out, hout, hrows⟩ := @unionLoop_rows debug P execute false _ _ hrun [] []
    simp only [Bool.false_eq_true, if_false, hflat] at hrows
    exact ⟨out, hout, fun row => by rw [hrows, List.count_append], hrows ▸ List.Sublist.refl _⟩
  · refine ⟨_, by simp only [lowerIntersect, hl, hr]; rfl, ?_⟩
    simp only [if_true, intersectAll_eq]
    refine copies_of_classCount hsep hsub.1 (n := min) (fun _ => Nat.zero_min _) fun key => ?_
    rw [(hconsume key).1, countOf_rightCounts]
  · refine ⟨_, by simp only [lowerExcept, hl, hr]; rfl, ?_⟩
    simp only [if_true, exceptAll_eq]
    refine copies_of_classCount hsep hsub.2 (n := (· - ·)) Nat.zero_sub fun key => ?_
    rw [(hconsume key).2, countOf_rightCounts]
  · obtain ⟨out, hout, hrows⟩ := @unionLoop_rows debug P execute true _ _ hrun [] []
    simp only [if_true, hflat] at hrows
    refine ⟨out, hout, ?_⟩
    have honce := once_pushUnseen hsep (fun _ => true)
    rw [hrows]
    exact ⟨fun row => by rw [honce.mem]; simp, honce.nodup, honce.ordered⟩
  · refine ⟨_, by simp only [lowerIntersect, hl, hr]; rfl, ?_⟩
    exact once_left hsep (q := id) fun row hrow => contains_rowKey hsep hrow
  · refine ⟨_, by simp only [lowerExcept, hl, hr]; rfl, ?_⟩
    refine once_left hsep (q := Not) fun row hrow => ?_
    rw [Bool.not_eq_true', ← Bool.not_eq_true]
    exact not_congr (contains_rowKey hsep hrow)

end Laws

/-- Three rows, the null one twice, on one side and the null row on the other. -/
def nullTwice (isLeft : Bool) : Except LiteError QueryResult :=
  .ok ⟨["v"], if isLeft then [[.null], [.bool true], [.null]] else [[.null]], 0, none⟩

theorem set_operation_multiplicities_nulls :
    Separates (rowKey fun v => match v with | .null => "Null" | _ => "Bool(true)")
      [[.null], [.bool true], [.null], [.null]] ∧
    Returns (lowerExcept nullTwice (fun v => match v with | .null => "Null" | _ => "Bool(true)")
      true false false) (@Once (Classical.decEq Value) [[.null], [.bool true], [.null]]
        (fun row => row ∈ [[.null], [.bool true], [.null]] ∧ row ∉ [[Value.null]])) := by
  have hsep : Separates (rowKey fun v => match v with | .null => "Null" | _ => "Bool(true)")
      [[.null], [.bool true], [.null], [.null]] := by
    intro a ha b hb hkey
    simp only [List.mem_cons, List.not_mem_nil, or_false] at ha hb
    rcases ha with rfl | rfl | rfl | rfl <;> rcases hb with rfl | rfl | rfl | rfl <;>
      first | rfl | exact absurd hkey (by decide)
  exact ⟨hsep, (@set_operation_multiplicities (Classical.decEq Value) _ Bool nullTwice true false
    ⟨["v"], [[.null], [.bool true], [.null]], 0, none⟩ ⟨["v"], [[.null]], 0, none⟩ rfl rfl hsep).2.2.2.2.2⟩

end NodedbLite.Query
