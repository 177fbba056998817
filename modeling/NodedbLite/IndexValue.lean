import NodedbLite.SortedSet
import NodedbLite.QueryValue

/-! Secondary indexes: what a definition says, the values it holds for a row, and the encoding
those values sort by. Coerced equality, predicates, number and date parsing and the stored form of
a definition come from the shared crates and are a parameter record here. -/
namespace NodedbLite.Index

open Query (Value)

/-- The engine whose rows an index covers. -/
inductive IndexEngine
  | document
  | strict
  | keyValue
  deriving DecidableEq, Repr

/-- A name whose length fits the four length bytes of a key component, as every SQL identifier
does. -/
def ShortName (s : String) : Prop := (Bytes.ofString s).length < 2 ^ 32

instance (s : String) : Decidable (ShortName s) := inferInstanceAs (Decidable (_ < _))

structure IndexDef (Predicate : Type) where
  name : String
  collection : String
  path : String
  unique : Bool
  caseInsensitive : Bool
  isArray : Bool
  predicate : Option Predicate
  engine : IndexEngine
  name_short : ShortName name
  collection_short : ShortName collection
  deriving DecidableEq

/-- What the shared crates provide. -/
structure IndexApi (Predicate : Type) extends Query.DecimalApi where
  eqCoerced : Value → Value → Bool
  /-- Whether a partial-index predicate evaluates to exactly `true`. -/
  matchesRow : Predicate → Value → Bool
  toLowercase : String → String
  intToF64 : Int64 → UInt64
  parseDateTime : String → Option Int64
  /-- The MessagePack bytes of a value. -/
  msgpack : Value → Option Bytes
  /-- The `Debug` text of a value. -/
  debug : Value → String
  encodeDef : IndexDef Predicate → Bytes

variable {Predicate : Type} (A : IndexApi Predicate)

def tagBool : UInt8 := 0x10
def tagNumber : UInt8 := 0x20
def tagDatetime : UInt8 := 0x30
def tagString : UInt8 := 0x40
def tagOther : UInt8 := 0x50

def terminator : Bytes := [0x00, 0x01]
def escapedZero : Bytes := [0x00, 0xFF]

def signBit : UInt64 := (1 : UInt64) <<< 63

/-- Both zeros to one pattern, every NaN to one pattern. -/
def canonicalBits (bits : UInt64) : UInt64 :=
  let magnitude := bits &&& ~~~signBit
  if magnitude = 0 then 0
  else if 0x7FF0000000000000 < magnitude then 0x7FF8000000000000
  else bits

def encodeNumber (bits : UInt64) : Bytes :=
  let bits := canonicalBits bits
  let sortable := if bits &&& signBit ≠ 0 then ~~~bits else bits ^^^ signBit
  tagNumber :: Bytes.ofNatBE 8 sortable.toNat

def encodeDatetime (micros : Int64) : Bytes :=
  tagDatetime :: Bytes.ofNatBE 8 (micros.toUInt64 ^^^ signBit).toNat

def escape (b : UInt8) : Bytes := if b = 0 then escapedZero else [b]

def encodeEscaped (tag : UInt8) (payload : Bytes) : Bytes :=
  tag :: (payload.flatMap escape ++ terminator)

/-- The encoding of one value as exactly its own type, none for what no index holds. -/
def encodeTyped : Value → Option Bytes
  | .null | .array _ | .object _ => none
  | .bool b => some [tagBool, if b then 1 else 0]
  | .integer i => some (encodeNumber (A.intToF64 i))
  | .float bits => some (encodeNumber bits)
  | .decimal units scale => (A.parseF64 (A.decimalText units scale)).map encodeNumber
  | .dateTime micros | .naiveDateTime micros => some (encodeDatetime micros)
  | .string s => some (encodeEscaped tagString (Bytes.ofString s))
  | value => (A.msgpack value).map (encodeEscaped tagOther)

/-- The encodings of a value under every class a coerced comparison can match it in. -/
def encodeCoercible : Value → List Bytes
  | .string s =>
    encodeEscaped tagString (Bytes.ofString s) ::
      ((A.parseF64 s).map encodeNumber).toList ++ ((A.parseDateTime s).map encodeDatetime).toList
  | value => (encodeTyped A value).toList

/-- The end of an escaped payload: `i` bytes are behind, the rest follow. -/
def escapedEnd : Nat → Bytes → Option Nat
  | i, b :: c :: rest =>
    if b = 0 then
      if c = 0x01 then some (i + 2)
      else if c = 0xFF then escapedEnd (i + 2) rest
      else none
    else escapedEnd (i + 1) (c :: rest)
  | _, _ => none

/-- The length of the encoded value at the start of `bytes`. -/
def encodedLen (bytes : Bytes) : Option Nat :=
  match bytes with
  | [] => none
  | tag :: payload =>
    if tag = tagBool then if 2 ≤ bytes.length then some 2 else none
    else if tag = tagNumber ∨ tag = tagDatetime then if 9 ≤ bytes.length then some 9 else none
    else if tag = tagString ∨ tag = tagOther then escapedEnd 1 payload
    else none

/-- A path cut at its dots. -/
def splitDots : List Char → List (List Char)
  | [] => [[]]
  | c :: cs =>
    if c = '.' then [] :: splitDots cs
    else match splitDots cs with
      | [] => [[c]]
      | segment :: rest => (c :: segment) :: rest

def fieldWalk : Value → List (List Char) → Option Value
  | current, [] => some current
  | .object fields, segment :: rest =>
    (fields.lookup (String.ofList segment)).bind (fieldWalk · rest)
  | _, _ :: _ => none

/-- The value at a path such as `$.a.b`, none when a segment is absent or crosses a non-object. -/
def fieldAt (row : Value) (path : String) : Option Value :=
  let path := (path.toList.dropWhile (· = '$')).dropWhile (· = '.')
  if path = [] then some row else fieldWalk row (splitDots path)

def foldCase (d : IndexDef Predicate) : Value → Value
  | .string s => if d.caseInsensitive then .string (A.toLowercase s) else .string s
  | value => value

def indexable : Value → Bool
  | .null | .array _ | .object _ => false
  | _ => true

/-- The values an index holds for a row: none when the row fails the predicate or lacks the
field, one per scalar element under an array index, otherwise the field's scalar value. -/
def indexValues (d : IndexDef Predicate) (row : Value) : List Value :=
  if d.predicate.any (fun p => !A.matchesRow p row) then []
  else match fieldAt row d.path with
    | none => []
    | some field =>
      match d.isArray, field with
      | true, .array items => (items.filter indexable).map (foldCase A d)
      | _, field => if indexable field then [foldCase A d field] else []

/-- The field as `CREATE INDEX` spells it. -/
def IndexDef.fieldSpec (d : IndexDef Predicate) : String :=
  if d.isArray then d.path ++ "[]" else d.path

lemma escapedEnd_escape (payload rest : Bytes) (i : Nat) :
    escapedEnd i (payload.flatMap escape ++ terminator ++ rest) =
      some (i + (payload.flatMap escape).length + 2) := by
  induction payload generalizing i with
  | nil => simp [terminator, escapedEnd]
  | cons b payload ih =>
    by_cases hb : b = 0
    · subst hb
      have hstep := ih (i + 2)
      simp only [List.flatMap_cons, escape, if_true, escapedZero, List.cons_append,
        List.nil_append, List.length_cons, escapedEnd]
      rw [if_neg (by decide), hstep]
      congr 1
      omega
    · have hstep := ih (i + 1)
      -- The scan looks one byte ahead, and the terminator makes sure there is one.
      obtain ⟨c, tail, htail⟩ : ∃ c tail, payload.flatMap escape ++ terminator ++ rest = c :: tail :=
        List.exists_cons_of_ne_nil (by simp [terminator])
      simp only [List.flatMap_cons, escape, if_neg hb, List.cons_append, List.nil_append,
        List.length_cons, htail, escapedEnd]
      rw [← htail, hstep]
      congr 1
      omega

lemma encodedLen_encodeEscaped {tag : UInt8} (htag : tag = tagString ∨ tag = tagOther)
    (payload rest : Bytes) :
    encodedLen (encodeEscaped tag payload ++ rest) = some (encodeEscaped tag payload).length := by
  have hbool : tag ≠ tagBool := by rcases htag with rfl | rfl <;> decide
  have hfix : ¬ (tag = tagNumber ∨ tag = tagDatetime) := by rcases htag with rfl | rfl <;> decide
  have hlen : (encodeEscaped tag payload).length = 1 + (payload.flatMap escape).length + 2 := by
    simp only [encodeEscaped, terminator, List.length_cons, List.length_append, List.length_nil]
    omega
  rw [hlen, ← escapedEnd_escape payload rest 1]
  simp only [encodeEscaped, List.cons_append, encodedLen, if_neg hbool, if_neg hfix, if_pos htag]

lemma encodedLen_fixed {tag : UInt8} (htag : tag = tagNumber ∨ tag = tagDatetime) (n : Nat)
    (rest : Bytes) : encodedLen (tag :: Bytes.ofNatBE 8 n ++ rest) = some 9 := by
  have hbool : tag ≠ tagBool := by rcases htag with rfl | rfl <;> decide
  simp [encodedLen, if_neg hbool, if_pos htag]

lemma encodedLen_encodeTyped {v : Value} {enc : Bytes} (h : encodeTyped A v = some enc)
    (rest : Bytes) : encodedLen (enc ++ rest) = some enc.length := by
  have hnum : ∀ bits, encodedLen (encodeNumber bits ++ rest) = some (encodeNumber bits).length := by
    intro bits
    simpa [encodeNumber] using encodedLen_fixed (.inl rfl) _ rest
  have hdate : ∀ t, encodedLen (encodeDatetime t ++ rest) = some (encodeDatetime t).length := by
    intro t
    simpa [encodeDatetime] using encodedLen_fixed (.inr rfl) _ rest
  cases v with
  | null | array | object => simp [encodeTyped] at h
  | bool b =>
    obtain rfl := Option.some.inj h
    simp [encodedLen]
  | integer i =>
    obtain rfl := Option.some.inj h
    exact hnum _
  | float bits =>
    obtain rfl := Option.some.inj h
    exact hnum _
  | decimal units scale =>
    obtain ⟨bits, -, rfl⟩ := Option.map_eq_some_iff.mp h
    exact hnum _
  | dateTime t =>
    obtain rfl := Option.some.inj h
    exact hdate _
  | naiveDateTime t =>
    obtain rfl := Option.some.inj h
    exact hdate _
  | string s =>
    obtain rfl := Option.some.inj h
    exact encodedLen_encodeEscaped (.inl rfl) _ rest
  | _ =>
    obtain ⟨bytes, -, rfl⟩ := Option.map_eq_some_iff.mp h
    exact encodedLen_encodeEscaped (.inr rfl) _ rest

/-- Every encoding ends where `encodedLen` says, whatever follows it. -/
theorem encodedLen_encodeCoercible {v : Value} {enc : Bytes} (h : enc ∈ encodeCoercible A v)
    (rest : Bytes) : encodedLen (enc ++ rest) = some enc.length := by
  by_cases hs : ∃ s, v = .string s
  · obtain ⟨s, rfl⟩ := hs
    simp only [encodeCoercible, List.cons_append, List.mem_cons, List.mem_append,
      Option.mem_toList, Option.map_eq_some_iff] at h
    rcases h with rfl | ⟨bits, -, rfl⟩ | ⟨t, -, rfl⟩
    · exact encodedLen_encodeEscaped (.inl rfl) _ rest
    · exact encodedLen_encodeTyped A (v := .float bits) rfl rest
    · exact encodedLen_encodeTyped A (v := .dateTime t) rfl rest
  · have htyped : encodeCoercible A v = (encodeTyped A v).toList := by
      cases v <;> first | rfl | exact absurd ⟨_, rfl⟩ hs
    rw [htyped, Option.mem_toList] at h
    exact encodedLen_encodeTyped A h rest

end NodedbLite.Index
