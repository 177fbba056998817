import NodedbLite.Results
import NodedbLite.Binary64Bits
import NodedbLite.ByteString
import NodedbLite.SortedMap

/-! Values of query rows, what they stand for, and the texts that stand for them in hash maps: a text
keeps the length of bytes, arrays and objects only, and the texts of several values are joined by a
bar. -/
namespace NodedbLite.Query

/-- A value of a row. A float is its bit pattern, a decimal its units of a power of ten, a date its
microseconds, the fields of an object are in the order of their names. -/
inductive Value
  | null
  | bool (b : Bool)
  | integer (n : Int64)
  | float (bits : UInt64)
  | string (s : String)
  | uuid (s : String)
  | ulid (s : String)
  | regex (s : String)
  | bytes (b : Bytes)
  | array (items : List Value)
  | set (items : List Value)
  | object (fields : List (String × Value))
  | decimal (units : Int) (scale : Nat)
  | dateTime (micros : Int64)
  | naiveDateTime (micros : Int64)
  | vector (items : List UInt32)
  | other (debug : String)

abbrev Row := SortedMap String Value

/-- The text of a decimal, and the float a text denotes. -/
structure DecimalApi where
  decimalText : Int → Nat → String
  parseF64 : String → Option UInt64

/-- The text of a value in a key. `fmt` is the decimal text of a float. -/
def valueDiscriminant (fmt : UInt64 → String) : Value → String
  | .null => "null"
  | .bool b => "b:" ++ (if b then "true" else "false")
  | .integer n => "i:" ++ n.toInt.repr
  | .float bits => "f:" ++ fmt bits
  | .string s => "s:" ++ s
  | .uuid s | .ulid s | .regex s => "str:" ++ s
  | .bytes b => "by:" ++ b.length.repr
  | .array a | .set a => "a:" ++ a.length.repr
  | .object m => "o:" ++ m.length.repr
  | _ => "other"

/-- Stable text of a list of values. -/
def valueKeyStr (fmt : UInt64 → String) (key : List Value) : String :=
  "|".intercalate (key.map (valueDiscriminant fmt))

section Meaning

/-- What values are compared by. Numbers of all types are one kind. -/
inductive Meaning
  | number (x : Binary64)
  | array (items : List Meaning)
  | set (items : List Meaning)
  | object (fields : List (String × Meaning))
  | atom (v : Value)

mutual

/-- Two values are equal if they mean the same: `1` and `1.0`, the two zeros, all NaNs. -/
def Value.meaning : Value → Meaning
  | .integer n => .number (.finite n.toInt)
  | .float bits => .number (Binary64.ofBits bits)
  | .decimal units scale => .number (.finite (units / 10 ^ scale))
  | .array items => .array (meanings items)
  | .set items => .set (meanings items)
  | .object fields => .object (fieldMeanings fields)
  | .vector items => .atom (.vector (items.map fun bits => if bits = 0x80000000 then 0 else bits))
  | v => .atom v

def meanings : List Value → List Meaning
  | [] => []
  | v :: vs => v.meaning :: meanings vs

def fieldMeanings : List (String × Value) → List (String × Meaning)
  | [] => []
  | (name, v) :: fields => (name, v.meaning) :: fieldMeanings fields

end

/-- Equality of lists of values, value by value. -/
def SameValues (a b : List Value) : Prop := a.map Value.meaning = b.map Value.meaning

end Meaning

section Texts

variable {fmt : UInt64 → String} {v w : Value}

/-- A value whose text holds all of it. -/
def Value.Spelled : Value → Prop
  | .null | .bool _ | .integer _ | .string _ => True
  | _ => False

lemma append_left_inj_text {tag a b : String} (h : tag ++ a = tag ++ b) : a = b := by
  have hlist := congrArg String.toList h
  rw [String.toList_append, String.toList_append] at hlist
  exact String.toList_inj.mp (List.append_cancel_left hlist)

lemma valueDiscriminant_inj (hv : v.Spelled) (hw : w.Spelled)
    (h : valueDiscriminant fmt v = valueDiscriminant fmt w) : v = w := by
  -- the first character tells the four types apart
  have hmark := congrArg (fun text => text.toList.head?) h
  cases v with
  | null =>
    cases w with
    | null => rfl
    | bool _ | integer _ | string _ => simp [valueDiscriminant, String.toList_append] at hmark
    | _ => exact hw.elim
  | bool b =>
    cases w with
    | bool b' =>
      have hbody := append_left_inj_text h
      cases b <;> cases b' <;> first | rfl | exact absurd hbody (by decide)
    | null | integer _ | string _ => simp [valueDiscriminant, String.toList_append] at hmark
    | _ => exact hw.elim
  | integer n =>
    cases w with
    | integer n' => rw [Int64.toInt_inj.mp (Int.repr_injective (append_left_inj_text h))]
    | null | bool _ | string _ => simp [valueDiscriminant, String.toList_append] at hmark
    | _ => exact hw.elim
  | string x =>
    cases w with
    | string y => rw [append_left_inj_text h]
    | null | bool _ | integer _ => simp [valueDiscriminant, String.toList_append] at hmark
    | _ => exact hw.elim
  | _ => exact hv.elim

lemma meaning_inj (hv : v.Spelled) (hw : w.Spelled) (h : v.meaning = w.meaning) : v = w := by
  cases v <;> cases w <;>
    first
    | exact hv.elim
    | exact hw.elim
    | simp_all [Value.meaning, Int64.toInt_inj]

/-- One value whose text holds all of it has the text of another exactly if they are equal. -/
lemma valueKeyStr_singleton_iff (hv : v.Spelled) (hw : w.Spelled) :
    valueKeyStr fmt [v] = valueKeyStr fmt [w] ↔ SameValues [v] [w] := by
  constructor
  · intro h
    rw [valueDiscriminant_inj hv hw h]
    rfl
  · intro h
    rw [meaning_inj hv hw (List.cons.inj h).1]

end Texts

end NodedbLite.Query
