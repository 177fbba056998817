import NodedbLite.Having

/-! HAVING under the three-valued logic of SQL. The evaluator has two answers, so a predicate is looked
at with the answer that matters: whether it is true, and behind an odd number of NOTs whether it is
false. Operands that are not evaluated do not matter at all. -/

namespace Kleene

def not (a : Option Bool) : Option Bool := a.map (fun b => !b)

def and : Option Bool → Option Bool → Option Bool
  | some false, _ => some false
  | some true, b => b
  | none, some false => some false
  | none, _ => none

def or : Option Bool → Option Bool → Option Bool
  | some true, _ => some true
  | some false, b => b
  | none, some true => some true
  | none, _ => none

def all (l : List (Option Bool)) : Option Bool := l.foldr and (some true)

def any (l : List (Option Bool)) : Option Bool := l.foldr or (some false)

end Kleene

namespace NodedbLite.Query

section Meaning

def Value.IsNumeric : Value → Prop
  | .integer _ | .float _ => True
  | _ => False

def Value.IsString : Value → Prop
  | .string _ => True
  | _ => False

/-- A comparison of SQL: unknown with null, and that of the evaluator on numbers and on strings. -/
structure SqlComparison (H : HavingApi) (cmp : Value → CompareOp → Value → Option Bool) : Prop where
  null_left : ∀ op r, cmp .null op r = none
  null_right : ∀ l op, cmp l op .null = none
  numbers : ∀ l op r, l.IsNumeric → r.IsNumeric → cmp l op r = some (compareValues H l op r)
  strings : ∀ l op r, l.IsString → r.IsString → cmp l op r = some (compareValues H l op r)

/-- The value a literal denotes. -/
def SqlValue.denote : SqlValue → Value
  | .other v => v
  | v => sqlValueToNdb v

variable (H : HavingApi) (cmp : Value → CompareOp → Value → Option Bool) (row : Row)
  (aggMap : SortedMap String String)

/-- The value of an expression; null makes arithmetic null. -/
def sqlExprValue : SqlExpr → Option Value
  | .literal v => some v.denote
  | .binaryOp left op right =>
    match sqlExprValue left, sqlExprValue right with
    | some lv, some rv => if lv.isNull || rv.isNull then some .null else arithmetic H op lv rv
    | _, _ => none
  | e => evalSqlExprValue H row aggMap e

def compareOperands (l : Option Value) (op : CompareOp) (r : Option Value) : Option Bool :=
  match l, r with
  | some lv, some rv => cmp lv op rv
  | _, _ => none

def negateIf (negated : Bool) (a : Option Bool) : Option Bool := if negated then Kleene.not a else a

def truthOfValue : Option Value → Option Bool
  | some (.bool b) => some b
  | _ => none

/-- The truth of an expression as a predicate. -/
def truthExpr : SqlExpr → Option Bool
  | .binaryOp left op right =>
    match op with
    | .and => Kleene.and (truthExpr left) (truthExpr right)
    | .or => Kleene.or (truthExpr left) (truthExpr right)
    | .compare op =>
      compareOperands cmp (sqlExprValue H row aggMap left) op (sqlExprValue H row aggMap right)
    | _ => none
  | .isNull e negated => (sqlExprValue H row aggMap e).map (fun v => v.isNull != negated)
  | .not e => Kleene.not (truthExpr e)
  | .inList e list negated => negateIf negated (Kleene.any (list.map (fun x =>
      compareOperands cmp (sqlExprValue H row aggMap e) .eq (sqlExprValue H row aggMap x))))
  | .between e low high negated => negateIf negated (Kleene.and
      (compareOperands cmp (sqlExprValue H row aggMap e) .ge (sqlExprValue H row aggMap low))
      (compareOperands cmp (sqlExprValue H row aggMap e) .le (sqlExprValue H row aggMap high)))
  | e => truthOfValue (sqlExprValue H row aggMap e)

mutual

/-- The truth of a predicate. -/
def truth : FilterExpr → Option Bool
  | .comparison field op value =>
    compareOperands cmp (lookupField H row aggMap field) op (some value.denote)
  | .and filters => Kleene.all (truths filters)
  | .or filters => Kleene.any (truths filters)
  | .not f => Kleene.not (truth f)
  | .inList field values => Kleene.any (values.map (fun value =>
      compareOperands cmp (lookupField H row aggMap field) .eq (some value.denote)))
  | .between field low high => Kleene.and
      (compareOperands cmp (lookupField H row aggMap field) .ge (some low.denote))
      (compareOperands cmp (lookupField H row aggMap field) .le (some high.denote))
  | .isNull field => (lookupField H row aggMap field).map Value.isNull
  | .isNotNull field => (lookupField H row aggMap field).map (fun v => !v.isNull)
  | .expr e => truthExpr H cmp row aggMap e

def truths : List FilterExpr → List (Option Bool)
  | [] => []
  | f :: fs => truth f :: truths fs

end

end Meaning

section Agreement

/-- Two numbers or two strings. -/
def Comparable (l r : Value) : Prop := (l.IsNumeric ∧ r.IsNumeric) ∨ (l.IsString ∧ r.IsString)

/-- An answer is that of SQL, as far as this truth value is asked for. -/
def Right (want answer : Bool) (t : Option Bool) : Prop := answer = want ↔ t = some want

variable (H : HavingApi) (cmp : Value → CompareOp → Value → Option Bool) (row : Row)
  (aggMap : SortedMap String String)

/-- A literal is compared right: as a number or a string, and otherwise the answer is no. -/
def Settled (want : Bool) (v : Value) (op : CompareOp) (value : SqlValue) : Prop :=
  Comparable v (sqlValueToNdb value) ∨ Right want false (cmp v op value.denote)

/-- The literals of a list up to the first that is equal. -/
def ListSettled (want : Bool) (v : Value) : List SqlValue → Prop
  | [] => True
  | value :: values => Settled cmp want v .eq value ∧
      (compareValues H v .eq (sqlValueToNdb value) = false → ListSettled want v values)

/-- No decimals, bytes, arrays or timestamps among the literals of an operand. -/
def PlainLiterals : SqlExpr → Prop
  | .literal (.other _) => False
  | .binaryOp left _ right => PlainLiterals left ∧ PlainLiterals right
  | _ => True

/-- An expression is decided right. What the evaluator does not find or does not know counts as yes. -/
def ExprAgrees (want : Bool) : SqlExpr → Prop
  | .binaryOp left op right =>
    match op with
    | .and => ExprAgrees want left ∧
        (evalSqlExprBool H row aggMap left = true → ExprAgrees want right)
    | .or => ExprAgrees want left ∧
        (evalSqlExprBool H row aggMap left = false → ExprAgrees want right)
    | .compare op => PlainLiterals left ∧ PlainLiterals right ∧
        match evalSqlExprValue H row aggMap left, evalSqlExprValue H row aggMap right with
        | some lv, some rv => Comparable lv rv ∨ Right want false (cmp lv op rv)
        | _, _ => want = false
    | _ => want = false
  | .isNull e negated => PlainLiterals e ∧ (sqlExprValue H row aggMap e = none → want = negated)
  | .not e => Right want true (truthExpr H cmp row aggMap (.not e))
  | .inList e list negated => Right want true (truthExpr H cmp row aggMap (.inList e list negated))
  | .between e low high negated =>
      Right want true (truthExpr H cmp row aggMap (.between e low high negated))
  | e => PlainLiterals e ∧
      match evalSqlExprValue H row aggMap e with
      | some (.bool _) => True
      | some .null => want = true
      | _ => want = false

mutual

/-- A predicate is decided right. NOT turns the answer that matters around, AND and OR stop at the
operand that decides; a field that is not found counts as yes. -/
def Agrees (want : Bool) : FilterExpr → Prop
  | .comparison field op value =>
    match lookupField H row aggMap field with
    | some v => Settled cmp want v op value
    | none => want = false
  | .and filters => AgreesAll want filters
  | .or filters => AgreesAny want filters
  | .not f => Agrees (!want) f
  | .inList field values =>
    match lookupField H row aggMap field with
    | some v => ListSettled H cmp want v values
    | none => want = false ∧ values ≠ []
  | .between field low high =>
    match lookupField H row aggMap field with
    | some v => Settled cmp want v .ge low ∧
        (compareValues H v .ge (sqlValueToNdb low) = true → Settled cmp want v .le high)
    | none => want = false
  | .isNull field => lookupField H row aggMap field = none → want = false
  | .isNotNull field => lookupField H row aggMap field = none → want = true
  | .expr e => ExprAgrees H cmp row aggMap want e

def AgreesAll (want : Bool) : List FilterExpr → Prop
  | [] => True
  | f :: fs => Agrees want f ∧ (evalHavingExpr H row aggMap f = true → AgreesAll want fs)

def AgreesAny (want : Bool) : List FilterExpr → Prop
  | [] => True
  | f :: fs => Agrees want f ∧ (evalHavingExpr H row aggMap f = false → AgreesAny want fs)

end

/-- One comparison, or one test for null, behind any number of NOTs. -/
def FilterExpr.Single : FilterExpr → Prop
  | .comparison _ _ _ | .isNull _ | .isNotNull _ => True
  | .not f => f.Single
  | _ => False

end Agreement

section Soundness

variable {H : HavingApi} {cmp : Value → CompareOp → Value → Option Bool} {row : Row}
  {aggMap : SortedMap String String} {want : Bool}

lemma Right.and : ∀ {want a b : Bool} {t u : Option Bool}, Right want a t →
    (a = true → Right want b u) → Right want (a && b) (Kleene.and t u) := by
  unfold Right
  decide

lemma Right.or : ∀ {want a b : Bool} {t u : Option Bool}, Right want a t →
    (a = false → Right want b u) → Right want (a || b) (Kleene.or t u) := by
  unfold Right
  decide

lemma right_not_iff : ∀ {want a : Bool} {t : Option Bool},
    Right want (!a) (Kleene.not t) ↔ Right (!want) a t := by
  unfold Right
  decide

lemma right_known (want b : Bool) : Right want b (some b) := by simp [Right]

/-- An answer yes where SQL has none is right only where a no matters. -/
lemma right_true_none : Right want true none ↔ want = false := by cases want <;> simp [Right]

lemma right_false_none : Right want false none ↔ want = true := by cases want <;> simp [Right]

lemma compareValues_of_not_comparable {l r : Value} (h : ¬ Comparable l r) (op : CompareOp) :
    compareValues H l op r = false := by
  cases l <;> cases r <;> first | rfl | exact absurd (by simp [Comparable, Value.IsNumeric, Value.IsString]) h

lemma SqlComparison.eq_some (laws : SqlComparison H cmp) {l r : Value} (h : Comparable l r)
    (op : CompareOp) : cmp l op r = some (compareValues H l op r) := by
  rcases h with ⟨hl, hr⟩ | ⟨hl, hr⟩
  · exact laws.numbers l op r hl hr
  · exact laws.strings l op r hl hr

lemma compareValues_right_iff (laws : SqlComparison H cmp) (l : Value) (op : CompareOp) (r : Value) :
    Right want (compareValues H l op r) (cmp l op r) ↔
      Comparable l r ∨ Right want false (cmp l op r) := by
  by_cases h : Comparable l r
  · rw [laws.eq_some h]
    exact iff_of_true (right_known _ _) (.inl h)
  · rw [compareValues_of_not_comparable h, or_iff_right h]

lemma settled_iff (laws : SqlComparison H cmp) {v : Value} {op : CompareOp} {value : SqlValue} :
    Settled cmp want v op value ↔
      Right want (compareValues H v op (sqlValueToNdb value)) (cmp v op value.denote) := by
  cases value with
  | other w =>
    have hnot : ¬ Comparable v .null := by simp [Comparable, Value.IsNumeric, Value.IsString]
    rw [Settled, sqlValueToNdb, or_iff_right hnot, compareValues_of_not_comparable hnot]
  | _ => exact (compareValues_right_iff laws _ _ _).symm

lemma arithmetic_ne_null {op : BinaryOp} {lv rv v : Value} (h : arithmetic H op lv rv = some v) :
    lv.isNull = false ∧ rv.isNull = false := by
  cases op <;> cases lv <;> cases rv <;>
    first | exact ⟨rfl, rfl⟩ | simp [arithmetic, numericOp] at h

variable (H row aggMap) in
/-- A value found is the value of the expression; where none is found SQL has none or null. -/
lemma sqlExprValue_cases : ∀ {e : SqlExpr}, PlainLiterals e →
    (∀ v, evalSqlExprValue H row aggMap e = some v → sqlExprValue H row aggMap e = some v) ∧
    (evalSqlExprValue H row aggMap e = none →
      sqlExprValue H row aggMap e = none ∨ sqlExprValue H row aggMap e = some .null)
  | .literal w, h => by
    cases w with
    | other v => exact h.elim
    | _ => exact ⟨fun _ h => h, fun h => .inl h⟩
  | .binaryOp left op right, ⟨hleft, hright⟩ => by
    obtain ⟨hlsome, hlnone⟩ := sqlExprValue_cases hleft
    obtain ⟨hrsome, hrnone⟩ := sqlExprValue_cases hright
    rw [evalSqlExprValue, sqlExprValue]
    cases hl : evalSqlExprValue H row aggMap left with
    | none =>
      refine ⟨fun v h => (nomatch h), fun _ => ?_⟩
      rcases hlnone hl with hsql | hsql <;> rw [hsql] <;>
        cases sqlExprValue H row aggMap right <;> simp [Value.isNull]
    | some lv =>
      cases hr : evalSqlExprValue H row aggMap right with
      | none =>
        refine ⟨fun v h => (nomatch h), fun _ => ?_⟩
        rw [hlsome lv hl]
        rcases hrnone hr with hsql | hsql <;> rw [hsql] <;> simp [Value.isNull]
      | some rv =>
        rw [hlsome lv hl, hrsome rv hr]
        refine ⟨fun v h => ?_, fun h => ?_⟩
        · obtain ⟨hlv, hrv⟩ := arithmetic_ne_null h
          simpa [hlv, hrv] using h
        · by_cases hnull : (lv.isNull || rv.isNull) = true
          · exact .inr (if_pos hnull)
          · exact .inl ((if_neg hnull).trans h)
  | .column _, _ | .function _ _, _ | .isNull _ _, _ | .not _, _ | .inList _ _ _, _
  | .between _ _ _ _, _ | .wildcard, _ => ⟨fun _ h => h, fun h => .inl h⟩

lemma compareOperands_eq_none (laws : SqlComparison H cmp) {l r : Option Value} {op : CompareOp}
    (h : l = none ∨ l = some .null ∨ r = none ∨ r = some .null) :
    compareOperands cmp l op r = none := by
  rcases h with rfl | rfl | rfl | rfl
  · rfl
  · cases r with
    | none => rfl
    | some rv => exact laws.null_left op rv
  · cases l <;> rfl
  · cases l with
    | none => rfl
    | some lv => exact laws.null_right lv op

lemma boolOfValue_right {e : SqlExpr} (hplain : PlainLiterals e)
    (h : match evalSqlExprValue H row aggMap e with
      | some (.bool _) => True
      | some .null => want = true
      | _ => want = false) :
    Right want (boolOfValue (evalSqlExprValue H row aggMap e))
      (truthOfValue (sqlExprValue H row aggMap e)) := by
  obtain ⟨hsome, hnone⟩ := sqlExprValue_cases H row aggMap hplain
  cases hv : evalSqlExprValue H row aggMap e with
  | none =>
    rw [hv] at h
    rcases hnone hv with hsql | hsql <;> rw [hsql] <;> exact right_true_none.mpr h
  | some v =>
    rw [hv] at h
    rw [hsome v hv]
    cases v with
    | bool b => exact right_known want b
    | null => exact right_false_none.mpr h
    | _ => exact right_true_none.mpr h

lemma evalSqlExprBool_right (laws : SqlComparison H cmp) : ∀ {e : SqlExpr},
    ExprAgrees H cmp row aggMap want e →
      Right want (evalSqlExprBool H row aggMap e) (truthExpr H cmp row aggMap e)
  | .binaryOp left op right, h => by
    cases op with
    | and =>
      rw [evalSqlExprBool, truthExpr]
      exact (evalSqlExprBool_right laws h.1).and fun ha => evalSqlExprBool_right laws (h.2 ha)
    | or =>
      rw [evalSqlExprBool, truthExpr]
      exact (evalSqlExprBool_right laws h.1).or fun ha => evalSqlExprBool_right laws (h.2 ha)
    | compare op =>
      obtain ⟨hleft, hright, hfound⟩ := h
      obtain ⟨hlsome, hlnone⟩ := sqlExprValue_cases H row aggMap hleft
      obtain ⟨hrsome, hrnone⟩ := sqlExprValue_cases H row aggMap hright
      simp only [evalSqlExprBool, truthExpr]
      cases hl : evalSqlExprValue H row aggMap left with
      | none =>
        rw [hl] at hfound
        rw [compareOperands_eq_none laws ((hlnone hl).elim .inl fun h => .inr (.inl h))]
        exact right_true_none.mpr hfound
      | some lv =>
        cases hr : evalSqlExprValue H row aggMap right with
        | none =>
          rw [hl, hr] at hfound
          rw [compareOperands_eq_none laws (.inr (.inr (hrnone hr)))]
          exact right_true_none.mpr hfound
        | some rv =>
          rw [hl, hr] at hfound
          rw [hlsome lv hl, hrsome rv hr]
          exact (compareValues_right_iff laws lv op rv).mpr hfound
    | _ => exact right_true_none.mpr h
  | .isNull e negated, ⟨hplain, hmissing⟩ => by
    obtain ⟨hsome, hnone⟩ := sqlExprValue_cases H row aggMap hplain
    rw [evalSqlExprBool, truthExpr]
    cases hv : evalSqlExprValue H row aggMap e with
    | some v =>
      rw [hsome v hv]
      cases negated <;> cases want <;> simp [Right]
    | none =>
      rcases hnone hv with hsql | hsql
      · rw [hsql, hmissing hsql]
        cases negated <;> simp [Right]
      · rw [hsql]
        cases negated <;> cases want <;> simp [Right, Value.isNull]
  | .not _, h | .inList _ _ _, h | .between _ _ _ _, h => h
  | .literal _, ⟨hplain, h⟩ | .column _, ⟨hplain, h⟩ | .function _ _, ⟨hplain, h⟩
  | .wildcard, ⟨hplain, h⟩ => boolOfValue_right hplain h

lemma list_right (laws : SqlComparison H cmp) {v : Value} : ∀ {values : List SqlValue},
    ListSettled H cmp want v values →
      Right want (values.any fun value => compareValues H v .eq (sqlValueToNdb value))
        (Kleene.any (values.map fun value =>
          compareOperands cmp (some v) .eq (some value.denote)))
  | [], _ => right_known want false
  | _ :: _, h => ((settled_iff laws).mp h.1).or fun ha => list_right laws (h.2 ha)

lemma any_none {α : Type} : ∀ {l : List α}, l ≠ [] →
    Kleene.any (l.map fun _ => (none : Option Bool)) = none
  | [], h => absurd rfl h
  | [_], _ => rfl
  | _ :: y :: l, _ => by
    rw [List.map_cons, Kleene.any, List.foldr_cons, ← Kleene.any, any_none (List.cons_ne_nil y l)]
    rfl

mutual

/-- A predicate in agreement with SQL is decided right. -/
theorem evalHavingExpr_right (laws : SqlComparison H cmp) : ∀ {want : Bool} {f : FilterExpr},
    Agrees H cmp row aggMap want f →
      Right want (evalHavingExpr H row aggMap f) (truth H cmp row aggMap f)
  | want, .comparison field op value, h => by
    rw [Agrees] at h
    rw [evalHavingExpr, truth]
    cases hv : lookupField H row aggMap field with
    | some v =>
      rw [hv] at h
      exact (settled_iff laws).mp h
    | none =>
      rw [hv] at h
      exact right_true_none.mpr h
  | want, .and filters, h => by
    rw [evalHavingExpr, truth]
    exact evalHavingAll_right laws h
  | want, .or filters, h => by
    rw [evalHavingExpr, truth]
    exact evalHavingAny_right laws h
  | want, .not f, h => by
    rw [evalHavingExpr, truth]
    exact right_not_iff.mpr (evalHavingExpr_right laws h)
  | want, .inList field values, h => by
    rw [Agrees] at h
    rw [evalHavingExpr, truth]
    cases hv : lookupField H row aggMap field with
    | some v =>
      rw [hv] at h
      exact list_right laws h
    | none =>
      rw [hv] at h
      exact (any_none h.2).symm ▸ right_true_none.mpr h.1
  | want, .between field low high, h => by
    rw [Agrees] at h
    rw [evalHavingExpr, truth]
    cases hv : lookupField H row aggMap field with
    | some v =>
      rw [hv] at h
      exact ((settled_iff laws).mp h.1).and fun ha => (settled_iff laws).mp (h.2 ha)
    | none =>
      rw [hv] at h
      exact right_true_none.mpr h
  | want, .isNull field, h => by
    rw [Agrees] at h
    rw [evalHavingExpr, truth]
    cases hv : lookupField H row aggMap field with
    | some v => exact right_known want _
    | none => exact right_true_none.mpr (h hv)
  | want, .isNotNull field, h => by
    rw [Agrees] at h
    rw [evalHavingExpr, truth]
    cases hv : lookupField H row aggMap field with
    | some v => exact right_known want _
    | none => exact right_false_none.mpr (h hv)
  | want, .expr e, h => by
    rw [evalHavingExpr, truth]
    exact evalSqlExprBool_right laws h

theorem evalHavingAll_right (laws : SqlComparison H cmp) : ∀ {want : Bool} {fs : List FilterExpr},
    AgreesAll H cmp row aggMap want fs →
      Right want (evalHavingAll H row aggMap fs) (Kleene.all (truths H cmp row aggMap fs))
  | want, [], _ => right_known want true
  | want, f :: fs, ⟨hf, hfs⟩ => by
    rw [evalHavingAll, truths]
    exact (evalHavingExpr_right laws hf).and fun ha => evalHavingAll_right laws (hfs ha)

theorem evalHavingAny_right (laws : SqlComparison H cmp) : ∀ {want : Bool} {fs : List FilterExpr},
    AgreesAny H cmp row aggMap want fs →
      Right want (evalHavingAny H row aggMap fs) (Kleene.any (truths H cmp row aggMap fs))
  | want, [], _ => right_known want false
  | want, f :: fs, ⟨hf, hfs⟩ => by
    rw [evalHavingAny, truths]
    exact (evalHavingExpr_right laws hf).or fun ha => evalHavingAny_right laws (hfs ha)

end

/-- Without AND, OR, IN and BETWEEN nothing hides a wrong answer: the condition is exact. -/
lemma agrees_of_right (laws : SqlComparison H cmp) : ∀ {want : Bool} {f : FilterExpr}, f.Single →
    Right want (evalHavingExpr H row aggMap f) (truth H cmp row aggMap f) →
      Agrees H cmp row aggMap want f
  | want, .comparison field op value, _, h => by
    rw [evalHavingExpr, truth] at h
    rw [Agrees]
    cases hv : lookupField H row aggMap field with
    | some v =>
      rw [hv] at h
      exact (settled_iff laws).mpr h
    | none =>
      rw [hv] at h
      exact right_true_none.mp h
  | want, .isNull field, _, h => by
    rw [evalHavingExpr, truth] at h
    intro hv
    rw [hv] at h
    exact right_true_none.mp h
  | want, .isNotNull field, _, h => by
    rw [evalHavingExpr, truth] at h
    intro hv
    rw [hv] at h
    exact right_false_none.mp h
  | want, .not f, hsingle, h => by
    rw [evalHavingExpr, truth] at h
    rw [Agrees]
    exact agrees_of_right laws hsingle (right_not_iff.mp h)

lemma all_evalHavingExpr (fs : List FilterExpr) :
    fs.all (evalHavingExpr H row aggMap) = evalHavingAll H row aggMap fs := by
  induction fs with
  | nil => rfl
  | cons f fs ih => rw [List.all_cons, ih, evalHavingAll]

end Soundness

section Runs

/-- Floats compared by their bits. -/
def bitsApi : HavingApi where
  toLowercase := id
  debug _ := ""
  asF64 n := n.toUInt64
  floatCmp l op r := cmpOrd l.toNat op r.toNat
  floatAdd := (· + ·)
  floatSub := (· - ·)
  floatMul := (· * ·)
  floatDiv := (· / ·)
  isZero bits := bits = 0

/-- Numbers and strings are compared, everything else is unknown. -/
def plainCompare (l : Value) (op : CompareOp) (r : Value) : Option Bool :=
  match l, r with
  | .integer _, .integer _ | .integer _, .float _ | .float _, .integer _ | .float _, .float _
  | .string _, .string _ => some (compareValues bitsApi l op r)
  | _, _ => none

lemma sqlComparison_plain : SqlComparison bitsApi plainCompare where
  null_left _ r := by cases r <;> rfl
  null_right l _ := by cases l <;> rfl
  numbers l op r hl hr := by
    cases l with
    | integer n | float bits =>
      cases r with
      | integer m | float bits' => rfl
      | _ => exact False.elim hr
    | _ => exact False.elim hl
  strings l op r hl hr := by
    cases l with
    | string s =>
      cases r with
      | string t => rfl
      | _ => exact False.elim hr
    | _ => exact False.elim hl

def sums : QueryResult := ⟨["g", "total"],
  [[.string "a", .integer 10], [.string "b", .integer 3], [.string "c", .null]], 0, none⟩

def totalAbove : FilterExpr := .comparison "sum(x)" .gt (.int 5)

def sumAlias : SortedMap String String := SortedMap.ofList [("sum(x)", "total")]

def tallies : QueryResult := ⟨["g", "total", "ty"],
  [[.string "a", .integer 10, .integer 2], [.string "b", .integer 3, .null],
    [.string "c", .null, .integer 7]], 0, none⟩

/-- The sum drops the groups b and c before the negated comparison is evaluated. -/
def aboveAndNot : FilterExpr := .and [totalAbove, .not (.comparison "ty" .gt (.int 5))]

end Runs

end NodedbLite.Query
