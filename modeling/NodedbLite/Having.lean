import NodedbLite.Aggregate

/-! HAVING predicates on the rows of an aggregate. The evaluator answers yes or no; SQL has a third
answer, unknown, for comparisons with null. -/
namespace NodedbLite.Query

inductive CompareOp
  | eq
  | ne
  | gt
  | ge
  | lt
  | le
  deriving DecidableEq

inductive BinaryOp
  | and
  | or
  | compare (op : CompareOp)
  | add
  | sub
  | mul
  | div
  | other (name : String)

/-- A literal. The last kind holds decimals, bytes, arrays and timestamps, as the values they denote. -/
inductive SqlValue
  | string (s : String)
  | int (n : Int64)
  | float (bits : UInt64)
  | bool (b : Bool)
  | null
  | other (v : Value)

section Literals

variable (D : DecimalApi)

mutual

def literalValue : Value → Except LiteError Value
  | .decimal units scale =>
    match D.parseF64 (D.decimalText units scale) with
    | some bits => .ok (.float bits)
    | none => .error (.badRequest ("decimal value " ++ D.decimalText units scale ++
        " could not be converted to f64"))
  | .array items => (literalValues items).map Value.array
  | v => .ok v

def literalValues : List Value → Except LiteError (List Value)
  | [] => .ok []
  | v :: vs => do
    let value ← literalValue v
    let values ← literalValues vs
    .ok (value :: values)

end

def sqlValueToValue (v : SqlValue) : Except LiteError Value :=
  match v with
  | .int n => .ok (.integer n)
  | .float bits => .ok (.float bits)
  | .string s => .ok (.string s)
  | .bool b => .ok (.bool b)
  | .null => .ok .null
  | .other v => literalValue D v

end Literals

inductive SqlExpr
  | literal (v : SqlValue)
  | column (name : String)
  | function (name : String) (args : List SqlExpr)
  | binaryOp (left : SqlExpr) (op : BinaryOp) (right : SqlExpr)
  | isNull (expr : SqlExpr) (negated : Bool)
  | not (expr : SqlExpr)
  | inList (expr : SqlExpr) (list : List SqlExpr) (negated : Bool)
  | between (expr low high : SqlExpr) (negated : Bool)
  | wildcard

inductive FilterExpr
  | comparison (field : String) (op : CompareOp) (value : SqlValue)
  | and (filters : List FilterExpr)
  | or (filters : List FilterExpr)
  | not (filter : FilterExpr)
  | inList (field : String) (values : List SqlValue)
  | between (field : String) (low high : SqlValue)
  | isNull (field : String)
  | isNotNull (field : String)
  | expr (e : SqlExpr)

/-- Floats, the lower case of a text and the debug text of an expression. -/
structure HavingApi where
  toLowercase : String → String
  debug : SqlExpr → String
  asF64 : Int64 → UInt64
  floatCmp : UInt64 → CompareOp → UInt64 → Bool
  floatAdd : UInt64 → UInt64 → UInt64
  floatSub : UInt64 → UInt64 → UInt64
  floatMul : UInt64 → UInt64 → UInt64
  floatDiv : UInt64 → UInt64 → UInt64
  isZero : UInt64 → Bool

def Value.isNull : Value → Bool
  | .null => true
  | _ => false

def cmpOrd {α : Type} [LinearOrder α] (l : α) (op : CompareOp) (r : α) : Bool :=
  match op with
  | .eq => l = r
  | .ne => l ≠ r
  | .gt => r < l
  | .ge => r ≤ l
  | .lt => l < r
  | .le => l ≤ r

section Evaluator

variable (H : HavingApi)

def compareValues (left : Value) (op : CompareOp) (right : Value) : Bool :=
  match left, right with
  | .integer l, .integer r => cmpOrd l.toInt op r.toInt
  | .float l, .float r => H.floatCmp l op r
  | .integer l, .float r => H.floatCmp (H.asF64 l) op r
  | .float l, .integer r => H.floatCmp l op (H.asF64 r)
  | .string l, .string r => cmpOrd l op r
  | _, _ => false

def sqlValueToNdb : SqlValue → Value
  | .string s => .string s
  | .int n => .integer n
  | .float bits => .float bits
  | .bool b => .bool b
  | .null => .null
  | .other _ => .null

/-- A field of the row, or the aggregate that is named by its canonical key. -/
def lookupField (row : Row) (aggMap : SortedMap String String) (field : String) : Option Value :=
  match row.get field with
  | some v => some v
  | none =>
    match (aggMap.get field).or (aggMap.get (H.toLowercase field)) with
    | some name => row.get name
    | none => none

def numericOp (l r : Value) (floatOp : UInt64 → UInt64 → Value) (intOp : Int64 → Int64 → Value) :
    Option Value :=
  match l, r with
  | .integer a, .integer b => some (intOp a b)
  | .float a, .float b => some (floatOp a b)
  | .integer a, .float b => some (floatOp (H.asF64 a) b)
  | .float a, .integer b => some (floatOp a (H.asF64 b))
  | _, _ => none

def arithmetic (op : BinaryOp) (l r : Value) : Option Value :=
  match op with
  | .add => numericOp H l r (fun a b => .float (H.floatAdd a b)) (fun a b => .integer (a + b))
  | .sub => numericOp H l r (fun a b => .float (H.floatSub a b)) (fun a b => .integer (a - b))
  | .mul => numericOp H l r (fun a b => .float (H.floatMul a b)) (fun a b => .integer (a * b))
  | .div => numericOp H l r (fun a b => if H.isZero b then .null else .float (H.floatDiv a b))
      (fun a b => if b = 0 then .null else .integer (a / b))
  | _ => none

/-- The text that names a function's first argument. -/
def argumentText : List SqlExpr → String
  | [] => ""
  | .column name :: _ => name
  | .wildcard :: _ => "*"
  | other :: _ => H.debug other

def evalSqlExprValue (row : Row) (aggMap : SortedMap String String) : SqlExpr → Option Value
  | .literal v => some (sqlValueToNdb v)
  | .column name => lookupField H row aggMap name
  | .function name args =>
    match aggMap.get (H.toLowercase name ++ "(" ++ argumentText H args ++ ")") with
    | some aliasName => row.get aliasName
    | none => none
  | .binaryOp left op right =>
    match evalSqlExprValue row aggMap left, evalSqlExprValue row aggMap right with
    | some lv, some rv => arithmetic H op lv rv
    | _, _ => none
  | _ => none

/-- What a value other than a comparison says as a predicate. -/
def boolOfValue : Option Value → Bool
  | some (.bool b) => b
  | some .null => false
  | some _ => true
  | none => true

def evalSqlExprBool (row : Row) (aggMap : SortedMap String String) : SqlExpr → Bool
  | .binaryOp left op right =>
    match op with
    | .and => evalSqlExprBool row aggMap left && evalSqlExprBool row aggMap right
    | .or => evalSqlExprBool row aggMap left || evalSqlExprBool row aggMap right
    | .compare op =>
      match evalSqlExprValue H row aggMap left, evalSqlExprValue H row aggMap right with
      | some lv, some rv => compareValues H lv op rv
      | _, _ => true
    | _ => true
  | .isNull inner negated =>
    let isNull := ((evalSqlExprValue H row aggMap inner).map Value.isNull).getD true
    if negated then !isNull else isNull
  | e => boolOfValue (evalSqlExprValue H row aggMap e)

mutual

def evalHavingExpr (row : Row) (aggMap : SortedMap String String) : FilterExpr → Bool
  | .comparison field op value =>
    match lookupField H row aggMap field with
    | some rv => compareValues H rv op (sqlValueToNdb value)
    | none => true
  | .and filters => evalHavingAll row aggMap filters
  | .or filters => evalHavingAny row aggMap filters
  | .not f => !evalHavingExpr row aggMap f
  | .inList field values =>
    match lookupField H row aggMap field with
    | some rv => values.any (fun v => compareValues H rv .eq (sqlValueToNdb v))
    | none => true
  | .between field low high =>
    match lookupField H row aggMap field with
    | some rv => compareValues H rv .ge (sqlValueToNdb low) && compareValues H rv .le (sqlValueToNdb high)
    | none => true
  | .isNull field => ((lookupField H row aggMap field).map Value.isNull).getD true
  | .isNotNull field => ((lookupField H row aggMap field).map (fun v => !v.isNull)).getD false
  | .expr e => evalSqlExprBool H row aggMap e

def evalHavingAll (row : Row) (aggMap : SortedMap String String) : List FilterExpr → Bool
  | [] => true
  | f :: fs => evalHavingExpr row aggMap f && evalHavingAll row aggMap fs

def evalHavingAny (row : Row) (aggMap : SortedMap String String) : List FilterExpr → Bool
  | [] => false
  | f :: fs => evalHavingExpr row aggMap f || evalHavingAny row aggMap fs

end

def applyHavingResult (result : QueryResult) (having : List FilterExpr)
    (aggMap : SortedMap String String) : QueryResult :=
  if having.isEmpty then result
  else { result with
    rows := result.rows.filter (fun row => having.all
      (evalHavingExpr H (SortedMap.ofList (result.columns.zip row)) aggMap)) }

end Evaluator

end NodedbLite.Query
