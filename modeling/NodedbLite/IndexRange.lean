import NodedbLite.Having
import NodedbLite.IndexLookup

/-! The index range of a scan: the bounds its filters put on an indexed field. The scan applies every
filter to the candidates again, so the range has to hold each row that satisfies them. -/
namespace NodedbLite.Index

open GuardedRun
open Query (Value SqlExpr FilterExpr SqlValue CompareOp BinaryOp sqlValueToValue)

inductive Side
  | lower
  | upper
  | both

def Side.isLower : Side → Bool
  | .lower | .both => true
  | .upper => false

def Side.isUpper : Side → Bool
  | .upper | .both => true
  | .lower => false

/-- One bound on one field. -/
structure Bound where
  field : String
  side : Side
  value : SqlValue

def compareSide : CompareOp → Option Side
  | .gt | .ge => some .lower
  | .lt | .le => some .upper
  | .eq => some .both
  | .ne => none

def binarySide : BinaryOp → Option Side
  | .compare op => compareSide op
  | _ => none

def flip : Side → Side
  | .lower => .upper
  | .upper => .lower
  | .both => .both

/-- The bound of a comparison of a column with a literal, whichever stands on the left. -/
def comparisonBounds (side : Side) : SqlExpr → SqlExpr → List Bound
  | .column name, .literal value => [⟨name, side, value⟩]
  | .literal value, .column name => [⟨name, flip side, value⟩]
  | _, _ => []

/-- Bounds in a conjunct of an expression filter. -/
def exprBounds : SqlExpr → List Bound
  | .binaryOp left .and right => exprBounds left ++ exprBounds right
  | .binaryOp left op right =>
    match binarySide op with
    | none => []
    | some side => comparisonBounds side left right
  | .between (.column name) (.literal low) (.literal high) false =>
    [⟨name, .lower, low⟩, ⟨name, .upper, high⟩]
  | _ => []

mutual

def boundsOf : FilterExpr → List Bound
  | .comparison field op value =>
    match compareSide op with
    | some side => [⟨field, side, value⟩]
    | none => []
  | .between field low high => [⟨field, .lower, low⟩, ⟨field, .upper, high⟩]
  | .and inner => filterBounds inner
  | .expr e => exprBounds e
  | _ => []

/-- Bounds in the top-level conjuncts of filters. -/
def filterBounds : List FilterExpr → List Bound
  | [] => []
  | f :: fs => boundsOf f ++ filterBounds fs

end

/-- A field as a path, and whether it is that of an array index. -/
def canonicalField (field : String) : String × Bool :=
  let isArray := decide (['[', ']'] <:+ field.toList)
  let inner := if isArray then field.toList.take (field.toList.length - 2) else field.toList
  (String.ofList (if inner.head? = some '$' then inner else '$' :: '.' :: inner), isArray)

def fieldSpec (path : String) (isArray : Bool) : String := if isArray then path ++ "[]" else path

variable {Predicate : Type}

def IndexState.defOnField (s : IndexState Predicate) (collection spec : String) :
    Option (IndexDef Predicate) :=
  s.defList.find? (fun d => d.collection = collection ∧ d.fieldSpec = spec)

structure IndexRange (Predicate : Type) where
  indexDef : IndexDef Predicate
  lower : Option Value
  upper : Option Value

section Range

variable (A : IndexApi Predicate)

def boundValue (b : Bound) : Option Value :=
  match sqlValueToValue A.toDecimalApi b.value with
  | .ok .null | .error _ => none
  | .ok v => some v

/-- The first value that bounds the field on a side. -/
def valueOf (bounds : List Bound) (field : String) (side : Side → Bool) : Option Value :=
  (bounds.filter (fun b => b.field = field ∧ side b.side)).findSome? (boundValue A)

/-- The range of one bound's field, if it has a full, case-sensitive, scalar index over the rows. -/
def rangeOfBound (s : IndexState Predicate) (collection : String) (engine : IndexEngine)
    (bounds : List Bound) (bound : Bound) : Option (IndexRange Predicate) :=
  let (path, isArray) := canonicalField bound.field
  if isArray then none
  else match s.defOnField collection (fieldSpec path false) with
    | none => none
    | some d =>
      if d.engine ≠ engine ∨ d.predicate.isSome ∨ d.caseInsensitive then none
      else
        let lower := valueOf A bounds bound.field Side.isLower
        let upper := valueOf A bounds bound.field Side.isUpper
        if lower.isNone ∧ upper.isNone then none else some ⟨d, lower, upper⟩

def indexRange (s : IndexState Predicate) (collection : String) (engine : IndexEngine)
    (filters : List FilterExpr) : Option (IndexRange Predicate) :=
  (filterBounds filters).findSome?
    (rangeOfBound A s collection engine (filterBounds filters))

end Range

section Meaning

/-- How a scan evaluates filters: the columns a row has beside its payload, how a filter reads a
field of the row built from them, comparisons, and the predicates the bounds do not look into. -/
structure RowFilter where
  columns : String → List (String × Value)
  read : Value → String → Option Value
  cmp : Value → CompareOp → Value → Bool
  otherFilter : FilterExpr → Value → Bool
  otherExpr : SqlExpr → Value → Bool

/-- The row a filter sees: the columns first, and the payload's fields where no column has the
name. A payload that is no object stays one column. -/
def RowFilter.rowToJson (F : RowFilter) (row : String × Value) : Value :=
  match row.2 with
  | .object fields =>
    .object (F.columns row.1 ++ fields.filter fun f => ((F.columns row.1).lookup f.1).isNone)
  | payload => .object (F.columns row.1 ++ [("data", payload)])

variable (A : IndexApi Predicate) (F : RowFilter) (row : Value)

def satisfiesComparison (field : String) (op : CompareOp) (value : SqlValue) : Bool :=
  match F.read row field, sqlValueToValue A.toDecimalApi value with
  | some v, .ok w => F.cmp v op w
  | _, _ => false

/-- A comparison read from right to left. -/
def mirror : CompareOp → CompareOp
  | .gt => .lt
  | .ge => .le
  | .lt => .gt
  | .le => .ge
  | op => op

def satisfiesExpr : SqlExpr → Bool
  | .binaryOp left .and right => satisfiesExpr left && satisfiesExpr right
  | .binaryOp (.column name) (.compare op) (.literal value) =>
    satisfiesComparison A F row name op value
  | .binaryOp (.literal value) (.compare op) (.column name) =>
    satisfiesComparison A F row name (mirror op) value
  | .between (.column name) (.literal low) (.literal high) false =>
    satisfiesComparison A F row name .ge low &&
      satisfiesComparison A F row name .le high
  | e => F.otherExpr e row

mutual

def satisfies : FilterExpr → Bool
  | .comparison field op value => satisfiesComparison A F row field op value
  | .between field low high => satisfiesComparison A F row field .ge low &&
      satisfiesComparison A F row field .le high
  | .and inner => satisfiesAll inner
  | .expr e => satisfiesExpr A F row e
  | f => F.otherFilter f row

def satisfiesAll : List FilterExpr → Bool
  | [] => true
  | f :: fs => satisfies f && satisfiesAll fs

end

/-- Comparisons hold only between values of one class, and follow its order. -/
structure ClassOrdered (A : IndexApi Predicate) (cmp : Value → CompareOp → Value → Bool) : Prop where
  holds : ∀ v op w, cmp v op w = true → ∃ cv cw, classTyped A v = some cv ∧ classTyped A w = some cw ∧
    cv.tag = cw.tag ∧ ∀ side, compareSide op = some side →
      (side.isLower = true → cw.Le cv) ∧ (side.isUpper = true → cv.Le cw)

end Meaning

section Sound

variable {A : IndexApi Predicate} {F : RowFilter} {row : Value}

/-- The row's field and the bound's value have forms in one class, ordered as the bound demands. -/
def BoundHolds (A : IndexApi Predicate) (F : RowFilter) (row : Value) (b : Bound) : Prop :=
  ∃ v w cv cw, F.read row b.field = some v ∧
    sqlValueToValue A.toDecimalApi b.value = .ok w ∧ classTyped A v = some cv ∧
    classTyped A w = some cw ∧ cv.tag = cw.tag ∧
    (b.side.isLower = true → cw.Le cv) ∧ (b.side.isUpper = true → cv.Le cw)

lemma compareSide_mirror (op : CompareOp) : compareSide (mirror op) = (compareSide op).map flip := by
  cases op <;> rfl

lemma boundHolds_of_satisfies (hF : ClassOrdered A F.cmp) {field : String} {op : CompareOp}
    {value : SqlValue} {side : Side} (hside : compareSide op = some side)
    (h : satisfiesComparison A F row field op value = true) :
    BoundHolds A F row ⟨field, side, value⟩ := by
  rw [satisfiesComparison] at h
  split at h
  · next v w hv hw =>
    obtain ⟨cv, cw, hcv, hcw, htag, hsides⟩ := hF.holds v op w h
    obtain ⟨hlower, hupper⟩ := hsides side hside
    exact ⟨v, w, cv, cw, hv, hw, hcv, hcw, htag, hlower, hupper⟩
  · exact absurd h Bool.false_ne_true

lemma boundHolds_of_between (hF : ClassOrdered A F.cmp) {field : String} {low high : SqlValue}
    (h : (satisfiesComparison A F row field .ge low &&
      satisfiesComparison A F row field .le high) = true) {b : Bound}
    (hb : b ∈ [(⟨field, .lower, low⟩ : Bound), ⟨field, .upper, high⟩]) :
    BoundHolds A F row b := by
  obtain ⟨hlow, hhigh⟩ := Bool.and_eq_true_iff.mp h
  rcases List.mem_pair.mp hb with rfl | rfl
  · exact boundHolds_of_satisfies hF rfl hlow
  · exact boundHolds_of_satisfies hF rfl hhigh

lemma boundHolds_of_mem_comparisonBounds (hF : ClassOrdered A F.cmp) {left right : SqlExpr}
    {op : CompareOp} {side : Side} (hside : compareSide op = some side)
    (h : satisfiesExpr A F row (.binaryOp left (.compare op) right) = true) {b : Bound}
    (hb : b ∈ comparisonBounds side left right) : BoundHolds A F row b := by
  unfold comparisonBounds at hb
  split at hb
  · rw [List.mem_singleton.mp hb]
    rw [satisfiesExpr] at h
    exact boundHolds_of_satisfies hF hside h
  · rw [List.mem_singleton.mp hb]
    rw [satisfiesExpr] at h
    have hflip : compareSide (mirror op) = some (flip side) := by
      rw [compareSide_mirror, hside, Option.map_some]
    exact boundHolds_of_satisfies hF hflip h
  · exact absurd hb List.not_mem_nil

lemma boundHolds_of_mem_exprBounds (hF : ClassOrdered A F.cmp) {e : SqlExpr}
    (h : satisfiesExpr A F row e = true) {b : Bound} (hb : b ∈ exprBounds e) :
    BoundHolds A F row b := by
  fun_induction exprBounds e with
  | case1 left right ihl ihr =>
    rw [satisfiesExpr] at h
    obtain ⟨hleft, hright⟩ := Bool.and_eq_true_iff.mp h
    rcases List.mem_append.mp hb with hb | hb
    · exact ihl hleft hb
    · exact ihr hright hb
  | case2 => exact absurd hb List.not_mem_nil
  | case3 left op right _ side hside =>
    cases op with
    | compare op => exact boundHolds_of_mem_comparisonBounds hF hside h hb
    | _ => cases hside
  | case4 name low high =>
    rw [satisfiesExpr] at h
    exact boundHolds_of_between hF h hb
  | case5 => exact absurd hb List.not_mem_nil

mutual

lemma boundHolds_of_mem_boundsOf (hF : ClassOrdered A F.cmp) {b : Bound} : (f : FilterExpr) →
    satisfies A F row f = true → b ∈ boundsOf f → BoundHolds A F row b
  | .comparison field op value, h, hb => by
    rw [satisfies] at h
    rw [boundsOf] at hb
    split at hb
    · next side hside =>
      rw [List.mem_singleton.mp hb]
      exact boundHolds_of_satisfies hF hside h
    · exact absurd hb List.not_mem_nil
  | .between field low high, h, hb => by
    rw [satisfies] at h
    rw [boundsOf] at hb
    exact boundHolds_of_between hF h hb
  | .and inner, h, hb => by
    rw [satisfies] at h
    rw [boundsOf] at hb
    exact boundHolds_of_mem_filterBounds hF inner h hb
  | .expr e, h, hb => by
    rw [satisfies] at h
    rw [boundsOf] at hb
    exact boundHolds_of_mem_exprBounds hF h hb
  | .or _, _, hb | .not _, _, hb | .inList _ _, _, hb | .isNull _, _, hb | .isNotNull _, _, hb => by
    simp [boundsOf] at hb

lemma boundHolds_of_mem_filterBounds (hF : ClassOrdered A F.cmp) {b : Bound} :
    (fs : List FilterExpr) → satisfiesAll A F row fs = true → b ∈ filterBounds fs →
      BoundHolds A F row b
  | [], _, hb => by
    rw [filterBounds] at hb
    exact absurd hb List.not_mem_nil
  | f :: fs, h, hb => by
    rw [satisfiesAll] at h
    rw [filterBounds] at hb
    obtain ⟨hf, hfs⟩ := Bool.and_eq_true_iff.mp h
    rcases List.mem_append.mp hb with hb | hb
    · exact boundHolds_of_mem_boundsOf hF f hf hb
    · exact boundHolds_of_mem_filterBounds hF fs hfs hb

end

end Sound

section Scan

variable {A : IndexApi Predicate} {F : RowFilter}
  {s : IndexState Predicate} {collection : String} {engine : IndexEngine}
  {filters : List FilterExpr} {r : IndexRange Predicate}

/-- The rows a scan reads: what the index lists for the range, or every row. -/
def scanCandidates (A : IndexApi Predicate)
    (s : IndexState Predicate) (collection : String) (engine : IndexEngine)
    (filters : List FilterExpr) (rows : List (String × Value)) :
    Except RangePanic (List (String × Value)) :=
  match indexRange A s collection engine filters with
  | none => .ok rows
  | some r => (lookupRange A s r.indexDef r.lower r.upper).map fun
    | none => rows
    | some ids => ids.flatMap fun id => rows.filter (fun row => row.1 = id)

lemma not_suffix_of_canonicalField {field : String} (h : (canonicalField field).2 = false) :
    ¬ ['[', ']'] <:+ (canonicalField field).1.toList := by
  have hfield : ¬ ['[', ']'] <:+ field.toList := of_decide_eq_false h
  simp only [canonicalField, hfield, decide_false, Bool.false_eq_true, if_false, String.toList_ofList]
  split_ifs
  · exact hfield
  · simp [List.suffix_cons_iff, hfield]

lemma path_of_fieldSpec {field : String} {d : IndexDef Predicate}
    (h : (canonicalField field).2 = false)
    (hspec : d.fieldSpec = fieldSpec (canonicalField field).1 false) :
    d.isArray = false ∧ d.path = (canonicalField field).1 := by
  cases harray : d.isArray with
  | false =>
    rw [IndexDef.fieldSpec, harray] at hspec
    exact ⟨rfl, hspec⟩
  | true =>
    rw [IndexDef.fieldSpec, harray, if_pos rfl] at hspec
    have hsuffix := not_suffix_of_canonicalField h
    rw [show (canonicalField field).1 = d.path ++ "[]" from hspec.symm, String.toList_append] at hsuffix
    exact absurd (List.suffix_append _ _) hsuffix

lemma exists_bound_of_valueOf {bounds : List Bound} {field : String} {side : Side → Bool} {w : Value}
    (h : valueOf A bounds field side = some w) :
    ∃ b ∈ bounds, b.field = field ∧ side b.side = true ∧
      sqlValueToValue A.toDecimalApi b.value = .ok w := by
  obtain ⟨b, hb, hvalue⟩ := List.exists_of_findSome?_eq_some h
  obtain ⟨hmem, htest⟩ := List.mem_filter.mp hb
  obtain ⟨hfield, hside⟩ := of_decide_eq_true htest
  refine ⟨b, hmem, hfield, hside, ?_⟩
  rw [boundValue] at hvalue
  split at hvalue
  · cases hvalue
  · cases hvalue
  · next v _ hok =>
    obtain rfl := Option.some.inj hvalue
    exact hok

/-- What a range is taken from: a scalar, full, case-sensitive index on one field's path, and the
bounds on that field. -/
structure RangeOf (A : IndexApi Predicate) (s : IndexState Predicate)
    (collection : String) (engine : IndexEngine) (bounds : List Bound) (field : String)
    (r : IndexRange Predicate) : Prop where
  mem : r.indexDef ∈ s.defList
  collection : r.indexDef.collection = collection
  engine : r.indexDef.engine = engine
  full : r.indexDef.predicate = none
  exactCase : r.indexDef.caseInsensitive = false
  scalar : r.indexDef.isArray = false
  path : r.indexDef.path = (canonicalField field).1
  lower : r.lower = valueOf A bounds field Side.isLower
  upper : r.upper = valueOf A bounds field Side.isUpper
  bounded : r.lower.isSome = true ∨ r.upper.isSome = true

lemma rangeOf_rangeOfBound {bounds : List Bound} {bound : Bound}
    (h : rangeOfBound A s collection engine bounds bound = some r) :
    RangeOf A s collection engine bounds bound.field r := by
  simp only [rangeOfBound] at h
  split at h
  · cases h
  next harray =>
  split at h
  · cases h
  next d hd =>
  split at h
  · cases h
  next hfits =>
  split at h
  · cases h
  next hbounded =>
  obtain rfl := Option.some.inj h
  have hspec := List.find?_some hd
  obtain ⟨hcollection, hspec⟩ := of_decide_eq_true hspec
  obtain ⟨hscalar, hpath⟩ := path_of_fieldSpec (Bool.eq_false_iff.mpr harray) hspec
  simp only [not_or, not_not, Bool.not_eq_true, Option.isSome_eq_false_iff,
    Option.isNone_iff_eq_none] at hfits
  obtain ⟨hengine, hfull, hcase⟩ := hfits
  refine ⟨List.mem_of_find?_eq_some hd, hcollection, hengine, hfull, hcase, hscalar, hpath, rfl,
    rfl, ?_⟩
  simp only [Option.isNone_iff_eq_none, not_and_or, ← Option.isSome_iff_ne_none] at hbounded
  exact hbounded

lemma exists_rangeOf (h : indexRange A s collection engine filters = some r) :
    ∃ field, RangeOf A s collection engine (filterBounds filters) field r := by
  obtain ⟨bound, -, hbound⟩ := List.exists_of_findSome?_eq_some h
  exact ⟨bound.field, rangeOf_rangeOfBound hbound⟩

lemma classTyped_mem_classValues {v : Value} {c : ClassValue} (h : classTyped A v = some c) :
    c ∈ classValues A v := by
  cases v with
  | string s =>
    obtain rfl := Option.some.inj h
    exact List.mem_cons_self
  | _ => exact Option.mem_toList.mpr h

lemma foldCase_of_exactCase {d : IndexDef Predicate} (h : d.caseInsensitive = false) (v : Value) :
    foldCase A d v = v := by
  cases v with
  | string s => simp [foldCase, h]
  | _ => rfl

lemma indexValues_of_scalar {d : IndexDef Predicate} {row v : Value} {c : ClassValue}
    (hfull : d.predicate = none) (hcase : d.caseInsensitive = false) (hscalar : d.isArray = false)
    (hfield : fieldAt row d.path = some v) (hc : classTyped A v = some c) :
    indexValues A d row = [v] := by
  have hindexable : indexable v = true := by
    cases v with
    | null | array | object => cases hc
    | _ => rfl
  simp [indexValues, hfull, hscalar, hfield, hindexable, foldCase_of_exactCase hcase]

/-- The row has a form in the index, in a class the bounds share and between them. -/
def InRange (A : IndexApi Predicate) (r : IndexRange Predicate) (row : Value) : Prop :=
  ∃ c ∈ rowClasses A r.indexDef row,
    SharesClass (boundClasses A r.indexDef r.lower) (boundClasses A r.indexDef r.upper) c.tag ∧
      Within (boundClasses A r.indexDef r.lower) (boundClasses A r.indexDef r.upper) c

/-- A bound of the range has a form in the class of the row's field, ordered as its side demands. -/
lemma exists_form_of_valueOf {bounds : List Bound} {row v w : Value} {cv : ClassValue}
    {field : String} {side : Side → Bool} (hbounds : ∀ b ∈ bounds, BoundHolds A F row b)
    (hv : F.read row field = some v) (hcv : classTyped A v = some cv)
    (hw : valueOf A bounds field side = some w) :
    ∃ cw ∈ classValues A w, cw.tag = cv.tag ∧ ∃ actual : Side, side actual = true ∧
      (actual.isLower = true → cw.Le cv) ∧ (actual.isUpper = true → cv.Le cw) := by
  obtain ⟨b, hb, rfl, hside, hvalue⟩ := exists_bound_of_valueOf hw
  obtain ⟨v', w', cv', cw, hv', hw', hcv', hcw, htag, hlower, hupper⟩ := hbounds b hb
  obtain rfl := Option.some.inj (hv.symm.trans hv')
  obtain rfl := Except.ok.inj (hvalue.symm.trans hw')
  obtain rfl := Option.some.inj (hcv.symm.trans hcv')
  exact ⟨cw, classTyped_mem_classValues hcw, htag.symm, b.side, hside, hlower, hupper⟩

/-- Where a filter bounds the field of the index the range is taken from, it reads of the row what
the index holds. -/
def ReadsIndexed (F : RowFilter) (r : IndexRange Predicate) (filters : List FilterExpr)
    (row : String × Value) : Prop :=
  ∀ b ∈ filterBounds filters, (canonicalField b.field).1 = r.indexDef.path → ∀ v,
    F.read (F.rowToJson row) b.field = some v → fieldAt row.2 r.indexDef.path = some v

lemma inRange_of_satisfiesAll (hF : ClassOrdered A F.cmp) {row : String × Value}
    (hr : indexRange A s collection engine filters = some r)
    (hread : ReadsIndexed F r filters row)
    (hsat : satisfiesAll A F (F.rowToJson row) filters = true) : InRange A r row.2 := by
  have hbounds : ∀ b ∈ filterBounds filters, BoundHolds A F (F.rowToJson row) b :=
    fun b hb => boundHolds_of_mem_filterBounds hF filters hsat hb
  obtain ⟨field, hof⟩ := exists_rangeOf hr
  -- One of the two bounds is there, and it fixes the class of the row's field.
  obtain ⟨v, cv, hv, hheld, hcv⟩ : ∃ v cv, F.read (F.rowToJson row) field = some v ∧
      fieldAt row.2 r.indexDef.path = some v ∧ classTyped A v = some cv := by
    have hexists : ∀ side w, valueOf A (filterBounds filters) field side = some w →
        ∃ v cv, F.read (F.rowToJson row) field = some v ∧
          fieldAt row.2 r.indexDef.path = some v ∧ classTyped A v = some cv := by
      intro side w hw
      obtain ⟨b, hb, rfl, -, -⟩ := exists_bound_of_valueOf hw
      obtain ⟨v, -, cv, -, hv, -, hcv, -⟩ := hbounds b hb
      exact ⟨v, cv, hv, hread b hb hof.path.symm v hv, hcv⟩
    rcases hof.bounded with hsome | hsome
    · obtain ⟨w, hw⟩ := Option.isSome_iff_exists.mp hsome
      exact hexists _ w (hof.lower ▸ hw)
    · obtain ⟨w, hw⟩ := Option.isSome_iff_exists.mp hsome
      exact hexists _ w (hof.upper ▸ hw)
  have hmem : cv ∈ rowClasses A r.indexDef row.2 := by
    rw [rowClasses, indexValues_of_scalar hof.full hof.exactCase hof.scalar hheld hcv]
    simpa using classTyped_mem_classValues hcv
  have hlower : ∀ lo ∈ boundClasses A r.indexDef r.lower, ∃ l ∈ lo, l.tag = cv.tag ∧ l.Le cv := by
    intro lo hlo
    obtain ⟨w, hw, rfl⟩ := Option.map_eq_some_iff.mp hlo
    obtain ⟨cw, hcw, htag, actual, hside, hle, -⟩ :=
      exists_form_of_valueOf hbounds hv hcv (hof.lower.symm.trans hw)
    rw [foldCase_of_exactCase hof.exactCase]
    exact ⟨cw, hcw, htag, hle hside⟩
  have hupper : ∀ hi ∈ boundClasses A r.indexDef r.upper, ∃ h ∈ hi, h.tag = cv.tag ∧ cv.Le h := by
    intro hi hhi
    obtain ⟨w, hw, rfl⟩ := Option.map_eq_some_iff.mp hhi
    obtain ⟨cw, hcw, htag, actual, hside, -, hle⟩ :=
      exists_form_of_valueOf hbounds hv hcv (hof.upper.symm.trans hw)
    rw [foldCase_of_exactCase hof.exactCase]
    exact ⟨cw, hcw, htag, hle hside⟩
  have hgiven : (boundClasses A r.indexDef r.lower).isSome = true ∨
      (boundClasses A r.indexDef r.upper).isSome = true := by
    simpa [boundClasses] using hof.bounded
  refine ⟨cv, hmem, ⟨hgiven, fun lo hlo => ?_, fun hi hhi => ?_⟩, fun lo hlo => ?_,
    fun hi hhi => ?_⟩
  · obtain ⟨l, hl, htag, -⟩ := hlower lo hlo
    exact ⟨l, hl, htag⟩
  · obtain ⟨h, hh, htag, -⟩ := hupper hi hhi
    exact ⟨h, hh, htag⟩
  · obtain ⟨l, hl, -, hle⟩ := hlower lo hlo
    exact ⟨l, hl, hle⟩
  · obtain ⟨h, hh, -, hle⟩ := hupper hi hhi
    exact ⟨h, hh, hle⟩

lemma flatMap_filter_perm {rows : List (String × Value)} (hrows : (rows.map Prod.fst).Nodup)
    {ids : List String} (hids : ids.Nodup) :
    (ids.flatMap fun id => rows.filter (fun row => row.1 = id)).Perm
      (rows.filter (fun row => row.1 ∈ ids)) := by
  have hnodup : rows.Nodup := hrows.of_map
  rw [List.perm_ext_iff_of_nodup _ (hnodup.filter _)]
  · intro row
    simp only [List.mem_flatMap, List.mem_filter, decide_eq_true_eq]
    constructor
    · rintro ⟨id, hid, hrow, rfl⟩
      exact ⟨hrow, hid⟩
    · rintro ⟨hrow, hid⟩
      exact ⟨row.1, hid, hrow, rfl⟩
  · rw [List.nodup_flatMap]
    refine ⟨fun id _ => hnodup.filter _, hids.imp fun {a b} hne row ha hb => hne ?_⟩
    have ha' := of_decide_eq_true (List.mem_filter.mp ha).2
    have hb' := of_decide_eq_true (List.mem_filter.mp hb).2
    exact ha'.symm.trans hb'

lemma liveRows_ids_nodup (s : IndexSys Predicate) (engine : IndexEngine) (collection : String) :
    ((s.liveRows engine collection).map Prod.fst).Nodup := by
  have hkeyed : ∀ rows : SortedMap Bytes Value,
      ((rows.entries.map fun e => (docIdOfKey e.1, e.2)).map Prod.fst).Nodup := by
    intro rows
    rw [List.map_map, show Prod.fst ∘ (fun e : Bytes × Value => (docIdOfKey e.1, e.2)) =
      docIdOfKey ∘ Prod.fst from rfl, ← List.map_map]
    exact rows.keys_nodup.map docIdOfKey_injective
  cases engine with
  | document =>
    rw [IndexSys.liveRows]
    split_ifs
    · exact (s.history collection).keys_nodup
    · exact (s.crdt collection).keys_nodup
  | strict => exact hkeyed _
  | keyValue => exact hkeyed _

/-- Texts compare by their bytes, and nothing else compares. -/
def textCompare : Value → CompareOp → Value → Bool
  | .string a, op, .string b =>
    match op with
    | .eq => a = b
    | .ne => a ≠ b
    | .gt => Bytes.ofString b < Bytes.ofString a
    | .ge => Bytes.ofString b ≤ Bytes.ofString a
    | .lt => Bytes.ofString a < Bytes.ofString b
    | .le => Bytes.ofString a ≤ Bytes.ofString b
  | _, _, _ => false

/-- A document has its id as a column, and a filter reads the fields of an object. -/
def textFilter : RowFilter where
  columns id := [("id", .string id)]
  read
    | .object fields, field => fields.lookup field
    | _, _ => none
  cmp := textCompare
  otherFilter _ _ := true
  otherExpr _ _ := true

lemma textFilter_classOrdered : ClassOrdered textApi textFilter.cmp where
  holds v op w h := by
    cases v with
    | string a =>
      cases w with
      | string b =>
        refine ⟨_, _, rfl, rfl, rfl, fun side hside => ?_⟩
        cases op <;> cases hside <;>
          simp_all [textFilter, textCompare, Side.isLower, Side.isUpper, ClassValue.Le, le_of_lt]
      | _ => cases h
    | _ => cases h

def pathIndex (field : String) : IndexDef Empty :=
  fieldDef "i" ("$." ++ field) documentIndex.name_short false .document

def pathCalls (field : String) : List (IndexLabel Empty) :=
  [.createIndex (pathIndex field) true, .documentPut "c" "a" (textRow "m"),
    .documentPut "c" "b" (textRow "z")]

/-- The field at least `k`, and below `p`. -/
def textBounds : List FilterExpr :=
  [.and [.comparison "f" .ge (.string "k"), .isNotNull "f"],
    .expr (.binaryOp (.literal (.string "p")) (.compare .gt) (.column "f"))]

end Scan

end NodedbLite.Index
