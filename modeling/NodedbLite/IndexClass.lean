import NodedbLite.Binary64Bits
import NodedbLite.CodeOrder
import NodedbLite.IndexValue

/-! What the encoded values of an index mean. A value is held once for every class a coerced
comparison can match it in; within a class the encodings order like what they stand for, and no
encoding continues another. -/
namespace NodedbLite.Index

open Query (Value)

/-- A value as one class sees it. Numbers are binary64 words. -/
inductive ClassValue
  | bool (b : Bool)
  | number (bits : UInt64)
  | datetime (micros : Int64)
  | string (bytes : Bytes)
  | other (bytes : Bytes)
  deriving DecidableEq, Repr

namespace ClassValue

def tag : ClassValue → UInt8
  | bool _ => tagBool
  | number _ => tagNumber
  | datetime _ => tagDatetime
  | string _ => tagString
  | other _ => tagOther

def encode : ClassValue → Bytes
  | bool b => [tagBool, if b then 1 else 0]
  | number bits => encodeNumber bits
  | datetime micros => encodeDatetime micros
  | string bytes => encodeEscaped tagString bytes
  | other bytes => encodeEscaped tagOther bytes

/-- The order of one class; values of two classes are not compared. Numbers compare as numbers, and
a word that denotes none is above them all. -/
def Le : ClassValue → ClassValue → Prop
  | bool a, bool b => a ≤ b
  | number a, number b =>
    Binary64.IsNan b ∨ ¬Binary64.IsNan a ∧ Binary64.le (.ofBits a) (.ofBits b) = true
  | datetime a, datetime b => a ≤ b
  | string a, string b => a ≤ b
  | other a, other b => a ≤ b
  | _, _ => False

/-- One value. Number words are one value when they denote one number, or both none. -/
def Same : ClassValue → ClassValue → Prop
  | number a, number b => Binary64.ofBits a = Binary64.ofBits b
  | a, b => a = b

end ClassValue

variable {Predicate : Type} (A : IndexApi Predicate)

/-- The value in exactly its own class, none for what no index holds. -/
def classTyped : Value → Option ClassValue
  | .null | .array _ | .object _ => none
  | .bool b => some (.bool b)
  | .integer i => some (.number (A.intToF64 i))
  | .float bits => some (.number bits)
  | .decimal units scale => (A.parseF64 (A.decimalText units scale)).map .number
  | .dateTime micros | .naiveDateTime micros => some (.datetime micros)
  | .string s => some (.string (Bytes.ofString s))
  | value => (A.msgpack value).map .other

/-- The value in every class a coerced comparison can match it in. -/
def classValues : Value → List ClassValue
  | .string s =>
    .string (Bytes.ofString s) ::
      ((A.parseF64 s).map .number).toList ++ ((A.parseDateTime s).map .datetime).toList
  | value => (classTyped A value).toList

lemma encodeTyped_eq (v : Value) : encodeTyped A v = (classTyped A v).map ClassValue.encode := by
  cases v <;> simp [encodeTyped, classTyped, ClassValue.encode, Function.comp_def]

/-- The encodings of a value are those of its classes. -/
theorem encodeCoercible_eq (v : Value) :
    encodeCoercible A v = (classValues A v).map ClassValue.encode := by
  cases v with
  | string s =>
    simp [encodeCoercible, classValues, ClassValue.encode, Option.map_map, Function.comp_def,
      ← Option.toList_map]
  | _ => simp [encodeCoercible, classValues, encodeTyped_eq, ← Option.toList_map]

lemma eq_of_mem_classValues {v : Value} {a b : ClassValue} (ha : a ∈ classValues A v)
    (hb : b ∈ classValues A v) (htag : a.tag = b.tag) : a = b := by
  by_cases hs : ∃ s, v = .string s
  · obtain ⟨s, rfl⟩ := hs
    simp only [classValues, List.cons_append, List.mem_cons, List.mem_append, Option.mem_toList,
      Option.map_eq_some_iff] at ha hb
    rcases ha with rfl | ⟨x, hx, rfl⟩ | ⟨x, hx, rfl⟩ <;>
      rcases hb with rfl | ⟨y, hy, rfl⟩ | ⟨y, hy, rfl⟩ <;>
      first
        | rfl
        | (rw [hx] at hy; rw [Option.some.inj hy])
        | simp [ClassValue.tag, tagString, tagNumber, tagDatetime] at htag
  · have htyped : classValues A v = (classTyped A v).toList := by
      cases v <;> first | rfl | exact absurd ⟨_, rfl⟩ hs
    rw [htyped, Option.mem_toList] at ha hb
    exact Option.some.inj (ha.symm.trans hb)

section Order

lemma escaped_lt_escaped {a b : Bytes} (h : a < b) :
    a.flatMap escape ++ terminator < b.flatMap escape ++ terminator := by
  induction a generalizing b with
  | nil =>
    cases b with
    | nil => exact absurd h (lt_irrefl _)
    | cons y b =>
      -- The terminator is below an escaped zero and below every other byte.
      by_cases hy : y = 0
      · simp [hy, escape, escapedZero, terminator, List.cons_lt_cons_iff]
      · have hpos : 0 < y := UInt8.pos_iff_ne_zero.mpr hy
        simp [hy, escape, terminator, List.cons_lt_cons_iff, hpos]
  | cons x a ih =>
    cases b with
    | nil => exact absurd h (List.not_lt_nil _)
    | cons y b =>
      simp only [List.flatMap_cons, List.append_assoc]
      rcases List.cons_lt_cons_iff.mp h with hxy | ⟨rfl, hab⟩
      · have hy : y ≠ 0 := by
          rintro rfl
          exact absurd hxy (by simp)
        by_cases hx : x = 0
        · have hpos : 0 < y := UInt8.pos_iff_ne_zero.mpr hy
          simp [hx, hy, escape, escapedZero, List.cons_lt_cons_iff, hpos]
        · simp [hx, hy, escape, List.cons_lt_cons_iff, hxy]
      · rw [Bytes.append_lt_append_left_iff]
        exact ih hab

lemma encodeEscaped_le_iff (tag : UInt8) (a b : Bytes) :
    encodeEscaped tag a ≤ encodeEscaped tag b ↔ a ≤ b := by
  have hmono : StrictMono (encodeEscaped tag) := by
    intro a b hab
    exact List.cons_lt_cons_iff.mpr (.inr ⟨rfl, escaped_lt_escaped hab⟩)
  exact hmono.le_iff_le

lemma canonicalBits_eq (bits : UInt64) : canonicalBits bits =
    if Binary64.IsZero bits then 0 else if Binary64.IsNan bits then 0x7FF8000000000000 else bits := by
  have hmagnitude := Binary64.toNat_and_not_signWord bits
  have hzero : bits &&& ~~~signBit = 0 ↔ Binary64.IsZero bits := by
    rw [← UInt64.toNat_inj, Binary64.IsZero, ← hmagnitude]
    rfl
  have hnan : 0x7FF0000000000000 < bits &&& ~~~signBit ↔ Binary64.IsNan bits := by
    rw [UInt64.lt_iff_toNat_lt, Binary64.IsNan, ← hmagnitude]
    rfl
  simp only [canonicalBits, hzero, hnan]

lemma isZero_canonicalBits_iff (bits : UInt64) :
    Binary64.IsZero (canonicalBits bits) ↔ Binary64.IsZero bits := by
  rw [canonicalBits_eq]
  split_ifs with hzero hnan
  · exact iff_of_true (by decide) hzero
  · exact iff_of_false (by decide) hzero
  · exact Iff.rfl

lemma units_canonicalBits {bits : UInt64} (h : ¬Binary64.IsNan bits) :
    Binary64.units (canonicalBits bits) = Binary64.units bits := by
  rw [canonicalBits_eq, if_neg h]
  split_ifs with hzero
  · rw [Binary64.IsZero] at hzero
    rw [Binary64.units, Binary64.units, hzero]
    simp [Binary64.magnitude, Binary64.scaled_zero]
  · rfl

lemma encodeNumber_eq (bits : UInt64) :
    encodeNumber bits = tagNumber :: Bytes.ofNatBE 8 (Binary64.sortKey (canonicalBits bits)) := by
  rw [← Binary64.toNat_flip]
  rfl

lemma sortKey_le_of_not_isNan {bits : UInt64} (h : ¬Binary64.IsNan bits) :
    Binary64.sortKey bits ≤ Binary64.infMagnitude + 2 ^ 63 := by
  have hword := Binary64.toNat_eq_magnitude bits
  rw [Binary64.IsNan, not_lt] at h
  rw [Binary64.sortKey]
  split_ifs with hneg
  · rw [if_pos hneg] at hword
    omega
  · rw [if_neg hneg] at hword
    omega

lemma sortKey_canonicalBits_le {bits : UInt64} (h : ¬Binary64.IsNan bits) :
    Binary64.sortKey (canonicalBits bits) ≤ Binary64.infMagnitude + 2 ^ 63 := by
  apply sortKey_le_of_not_isNan
  rw [canonicalBits_eq, if_neg h]
  split_ifs
  · decide
  · exact h

lemma sortKey_canonicalBits_of_isNan {bits : UInt64} (h : Binary64.IsNan bits) :
    Binary64.infMagnitude + 2 ^ 63 < Binary64.sortKey (canonicalBits bits) := by
  have hpos : ¬Binary64.IsZero bits := by
    rw [Binary64.IsZero]
    rw [Binary64.IsNan] at h
    omega
  rw [canonicalBits_eq, if_neg hpos, if_pos h]
  decide

/-- Stored numbers order as numbers, with one form for the two zeros and one above all numbers for
the words that denote none. -/
lemma encodeNumber_le_iff (a b : UInt64) :
    encodeNumber a ≤ encodeNumber b ↔ (ClassValue.number a).Le (.number b) := by
  have hkeys : encodeNumber a ≤ encodeNumber b ↔
      Binary64.sortKey (canonicalBits a) ≤ Binary64.sortKey (canonicalBits b) := by
    rw [encodeNumber_eq, encodeNumber_eq, Bytes.cons_le_cons_iff_of_same]
    exact Bytes.ofNatBE_le_ofNatBE_iff (Binary64.sortKey_lt _) (Binary64.sortKey_lt _)
  rw [hkeys, ClassValue.Le]
  by_cases hb : Binary64.IsNan b
  · refine iff_of_true ?_ (.inl hb)
    by_cases ha : Binary64.IsNan a
    · have hzero : ∀ {x}, Binary64.IsNan x → ¬Binary64.IsZero x := by
        intro x hx
        rw [Binary64.IsZero]
        rw [Binary64.IsNan] at hx
        omega
      rw [canonicalBits_eq, canonicalBits_eq, if_neg (hzero ha), if_neg (hzero hb), if_pos ha,
        if_pos hb]
    · exact (sortKey_canonicalBits_le ha).trans (sortKey_canonicalBits_of_isNan hb).le
  · by_cases ha : Binary64.IsNan a
    · refine iff_of_false ?_ (by simp [ha, hb])
      exact not_le.mpr ((sortKey_canonicalBits_le hb).trans_lt (sortKey_canonicalBits_of_isNan ha))
    · simp only [ha, hb, not_false_eq_true, true_and, false_or]
      rw [Binary64.le_ofBits_iff ha hb, ← units_canonicalBits ha, ← units_canonicalBits hb]
      by_cases hzero : Binary64.IsZero a ∧ Binary64.IsZero b
      · rw [canonicalBits_eq, canonicalBits_eq, if_pos hzero.1, if_pos hzero.2]
        simp
      · apply Binary64.sortKey_le_iff_units
        rwa [isZero_canonicalBits_iff, isZero_canonicalBits_iff]

lemma encodeDatetime_le_iff (a b : Int64) : encodeDatetime a ≤ encodeDatetime b ↔ a ≤ b := by
  have hkey : ∀ t : Int64, ((t.toUInt64 ^^^ signBit).toNat : ℤ) = t.toInt + 2 ^ 63 :=
    Binary64.toNat_toUInt64_xor_signWord
  have hlt : ∀ t : Int64, (t.toUInt64 ^^^ signBit).toNat < 256 ^ 8 := fun t => UInt64.toNat_lt _
  rw [encodeDatetime, encodeDatetime, Bytes.cons_le_cons_iff_of_same, Int64.le_iff_toInt_le,
    Bytes.ofNatBE_le_ofNatBE_iff (hlt a) (hlt b), ← Int.ofNat_le, hkey, hkey]
  omega

lemma encodeBool_le_iff (a b : Bool) :
    (ClassValue.bool a).encode ≤ (ClassValue.bool b).encode ↔ a ≤ b := by
  simp only [ClassValue.encode, Bytes.cons_le_cons_iff_of_same]
  cases a <;> cases b <;> decide

/-- Within a class the encodings order like what they stand for. -/
theorem ClassValue.encode_le_iff {a b : ClassValue} (htag : a.tag = b.tag) :
    a.encode ≤ b.encode ↔ a.Le b := by
  cases a <;> cases b <;>
    first
      | exact encodeNumber_le_iff _ _
      | exact encodeDatetime_le_iff _ _
      | exact encodeEscaped_le_iff _ _ _
      | exact encodeBool_le_iff _ _
      | simp [ClassValue.tag, tagBool, tagNumber, tagDatetime, tagString, tagOther] at htag

lemma ClassValue.Le.tag_eq {a b : ClassValue} (h : a.Le b) : a.tag = b.tag := by
  cases a <;> cases b <;> first | rfl | exact h.elim

lemma ClassValue.encode_eq_cons (c : ClassValue) : ∃ payload, c.encode = c.tag :: payload := by
  cases c <;> exact ⟨_, rfl⟩

@[simp] lemma ClassValue.head?_encode (c : ClassValue) : c.encode.head? = some c.tag := by
  obtain ⟨payload, h⟩ := c.encode_eq_cons
  rw [h, List.head?_cons]

lemma ClassValue.encode_le_encode_iff (a b : ClassValue) :
    a.encode ≤ b.encode ↔ a.tag < b.tag ∨ a.Le b := by
  by_cases htag : a.tag = b.tag
  · rw [encode_le_iff htag, htag]
    simp
  · have hle : ¬ a.Le b := fun h => htag h.tag_eq
    obtain ⟨p, hp⟩ := a.encode_eq_cons
    obtain ⟨q, hq⟩ := b.encode_eq_cons
    rw [hp, hq, ← not_lt, List.cons_lt_cons_iff]
    simp only [hle, or_false, Ne.symm htag, false_and, not_lt]
    exact ⟨fun h => lt_of_le_of_ne h htag, le_of_lt⟩

lemma ClassValue.number_same_iff (a b : UInt64) :
    (number a).Same (number b) ↔ (number a).Le (number b) ∧ (number b).Le (number a) := by
  simp only [Same, Le, ← Binary64.ofBits_eq_nan_iff]
  constructor
  · intro heq
    rw [heq]
    by_cases hnan : Binary64.ofBits b = .nan
    · exact ⟨.inl hnan, .inl hnan⟩
    · have hle := (Binary64.le_and_ge_iff (.ofBits b) (.ofBits b)).mpr ⟨rfl, hnan⟩
      exact ⟨.inr ⟨hnan, hle.1⟩, .inr ⟨hnan, hle.1⟩⟩
  · rintro ⟨hb | ⟨hna, hab⟩, ha | ⟨hnb, hba⟩⟩
    · rw [ha, hb]
    · exact absurd hb hnb
    · exact absurd ha hna
    · exact ((Binary64.le_and_ge_iff _ _).mp ⟨hab, hba⟩).1

lemma ClassValue.same_iff (a b : ClassValue) : a.Same b ↔ a.Le b ∧ b.Le a := by
  cases a with
  | number x =>
    cases b with
    | number y => exact number_same_iff x y
    | _ => simp [Same, Le]
  | datetime s =>
    cases b with
    | datetime t =>
      simp only [Same, Le, datetime.injEq]
      exact ⟨fun heq => heq ▸ ⟨Int64.le_refl s, Int64.le_refl s⟩,
        fun hle => Int64.le_antisymm hle.1 hle.2⟩
    | _ => simp [Same, Le]
  | _ => cases b <;> simp [Same, Le, le_antisymm_iff]

/-- Equal bytes mean one value. -/
theorem ClassValue.encode_eq_iff (a b : ClassValue) : a.encode = b.encode ↔ a.Same b := by
  rw [le_antisymm_iff, encode_le_encode_iff, encode_le_encode_iff, same_iff]
  constructor
  · rintro ⟨hab | hab, hba | hba⟩
    · exact absurd (hab.trans hba) (lt_irrefl _)
    · exact absurd hba.tag_eq hab.ne'
    · exact absurd hab.tag_eq hba.ne'
    · exact ⟨hab, hba⟩
  · exact fun h => ⟨.inr h.1, .inr h.2⟩

end Order

section Ends

lemma ClassValue.encodedLen_encode (c : ClassValue) (rest : Bytes) :
    encodedLen (c.encode ++ rest) = some c.encode.length := by
  cases c with
  | bool b => simp [encode, encodedLen]
  | number bits => simpa [encode, encodeNumber] using encodedLen_fixed (.inl rfl) _ rest
  | datetime micros => simpa [encode, encodeDatetime] using encodedLen_fixed (.inr rfl) _ rest
  | string bytes => exact encodedLen_encodeEscaped (.inl rfl) bytes rest
  | other bytes => exact encodedLen_encodeEscaped (.inr rfl) bytes rest

lemma ClassValue.encode_eq_of_isPrefix {a b : ClassValue} (h : a.encode <+: b.encode) :
    a.encode = b.encode := by
  obtain ⟨rest, hrest⟩ := h
  have ha := a.encodedLen_encode rest
  have hb := b.encodedLen_encode []
  rw [List.append_nil, ← hrest, ha, Option.some.injEq] at hb
  exact (List.prefix_append _ rest).eq_of_length hb |>.trans hrest

/-- No encoding continues another. -/
theorem ClassValue.apart_encode (a b : ClassValue) : Bytes.Apart a.encode b.encode := by
  rintro (h | h)
  · exact encode_eq_of_isPrefix h
  · exact (encode_eq_of_isPrefix h).symm

/-- The encoding embeds the order of every class, puts the classes in the order of their tags, and
keeps both when anything follows; its end is found in front of anything. -/
theorem ClassValue.encode_embeds_order (a b : ClassValue) (x y : Bytes) :
    (a.tag = b.tag → (a.encode ≤ b.encode ↔ a.Le b)) ∧ (a.encode = b.encode ↔ a.Same b) ∧
      (a.tag < b.tag → a.encode < b.encode) ∧
      (a.encode < b.encode → a.encode ++ x < b.encode ++ y) ∧
      encodedLen (a.encode ++ x) = some a.encode.length := by
  refine ⟨encode_le_iff, encode_eq_iff a b, fun htag => ?_, fun hlt => ?_, a.encodedLen_encode x⟩
  · refine lt_of_le_not_ge ((encode_le_encode_iff a b).mpr (.inl htag)) (fun hge => ?_)
    rcases (encode_le_encode_iff b a).mp hge with hgt | hle
    · exact absurd (htag.trans hgt) (lt_irrefl _)
    · exact absurd hle.tag_eq htag.ne'
  · exact Bytes.append_lt_append_of_apart (apart_encode a b) hlt x y

end Ends

end NodedbLite.Index
