import NodedbLite.ByteString

/-! Numbers as digits of a base up to 16, as bytes: of a fixed width, and read back; signed decimal
ones. -/
namespace Digits

def digit (n : Nat) : UInt8 := if n < 10 then UInt8.ofNat (48 + n) else UInt8.ofNat (87 + n)

/-- The value of a digit; letters are digits in either case. -/
def value (base : Nat) (b : UInt8) : Option Nat :=
  (if 48 ≤ b ∧ b ≤ 57 then some (b.toNat - 48)
  else if 97 ≤ b ∧ b ≤ 102 then some (b.toNat - 87)
  else if 65 ≤ b ∧ b ≤ 70 then some (b.toNat - 55)
  else none).filter (· < base)

/-- The `w` low digits of `n`, most significant first. -/
def encode (base : Nat) : Nat → Nat → Bytes
  | 0, _ => []
  | w + 1, n => digit (n / base ^ w % base) :: encode base w n

def decodeFrom (base acc : Nat) : Bytes → Option Nat
  | [] => some acc
  | b :: bs => (value base b).bind (fun d => decodeFrom base (acc * base + d) bs)

def decode (base : Nat) (bs : Bytes) : Option Nat := decodeFrom base 0 bs

/-- The digits of a decimal number, at least one. -/
def decodeDecimal (bs : Bytes) : Option Nat := if bs = [] then none else decode 10 bs

lemma value_digit {base n : Nat} (hbase : base ≤ 16) (h : n < base) :
    value base (digit n) = some n := by
  have hhex : ∀ n < 16, value 16 (digit n) = some n := by decide
  obtain ⟨hdigit, -⟩ := Option.filter_eq_some_iff.mp (hhex n (by omega))
  exact Option.filter_eq_some_iff.mpr ⟨hdigit, decide_eq_true h⟩

lemma digit_lt_digit : ∀ a < 16, ∀ b < 16, a < b → digit a < digit b := by decide

lemma digit_ne_colon : ∀ n < 16, digit n ≠ 58 := by decide

lemma digit_bounds : ∀ n < 10, 48 ≤ digit n ∧ digit n ≤ 57 := by decide

@[simp] lemma length_encode (base w n : Nat) : (encode base w n).length = w := by
  induction w with
  | zero => rfl
  | succ w ih => simp [encode, ih]

lemma mem_encode {base w n : Nat} (hbase : 0 < base) {b : UInt8} (h : b ∈ encode base w n) :
    ∃ d < base, b = digit d := by
  induction w with
  | zero => cases h
  | succ w ih =>
    rcases List.mem_cons.mp h with rfl | hmem
    · exact ⟨_, Nat.mod_lt _ hbase, rfl⟩
    · exact ih hmem

lemma colon_notMem_encode (w n : Nat) : (58 : UInt8) ∉ encode 16 w n := by
  intro h
  obtain ⟨d, hd, heq⟩ := mem_encode (by decide) h
  exact digit_ne_colon d hd heq.symm

lemma bounds_of_mem_encode {w n : Nat} {b : UInt8} (h : b ∈ encode 10 w n) : 48 ≤ b ∧ b ≤ 57 := by
  obtain ⟨d, hd, rfl⟩ := mem_encode (by decide) h
  exact digit_bounds d hd

section Base

variable {base : Nat} (hpos : 0 < base) (hbase : base ≤ 16)
include hpos hbase

lemma decodeFrom_encode (acc w n : Nat) :
    decodeFrom base acc (encode base w n) = some (acc * base ^ w + n % base ^ w) := by
  induction w generalizing acc with
  | zero => simp [encode, decodeFrom, Nat.mod_one]
  | succ w ih =>
    have hd : n / base ^ w % base < base := Nat.mod_lt _ hpos
    have hmod : n % base ^ (w + 1) = n % base ^ w + base ^ w * (n / base ^ w % base) := by
      rw [Nat.pow_succ, Nat.mod_mul]
    simp only [encode, decodeFrom, value_digit hbase hd, Option.bind_some, ih, hmod]
    congr 1
    ring

theorem decode_encode {w n : Nat} (h : n < base ^ w) : decode base (encode base w n) = some n := by
  rw [decode, decodeFrom_encode hpos hbase, Nat.mod_eq_of_lt h]
  simp

lemma encode_injOn {w a b : Nat} (ha : a < base ^ w) (hb : b < base ^ w)
    (h : encode base w a = encode base w b) : a = b := by
  have hdec : decode base (encode base w a) = decode base (encode base w b) := by rw [h]
  rw [decode_encode hpos hbase ha, decode_encode hpos hbase hb] at hdec
  exact Option.some.inj hdec

omit hpos hbase in
lemma encode_mod (w v n : Nat) (h : w ≤ v) : encode base w (n % base ^ v) = encode base w n := by
  induction w with
  | zero => rfl
  | succ w ih =>
    have hdigit : n % base ^ v / base ^ w % base = n / base ^ w % base := by
      obtain ⟨k, rfl⟩ := Nat.exists_eq_add_of_le h
      rw [show w + 1 + k = w + (k + 1) by omega, pow_add, Nat.mod_mul_right_div_self, pow_succ,
        Nat.mul_comm (base ^ k) base, Nat.mod_mul_right_mod]
    rw [encode, encode, hdigit, ih (by omega)]

/-- Numbers of one width are ordered as their digits are. -/
theorem encode_lt_encode {w a b : Nat} (hb : b < base ^ w) (hab : a < b) :
    encode base w a < encode base w b := by
  induction w generalizing a b with
  | zero =>
    rw [pow_zero] at hb
    omega
  | succ w ih =>
    have hqb : b / base ^ w < base := Nat.div_lt_of_lt_mul (by rwa [pow_succ] at hb)
    have hqa : a / base ^ w ≤ b / base ^ w := Nat.div_le_div_right hab.le
    rw [encode, encode, Nat.mod_eq_of_lt hqb, Nat.mod_eq_of_lt (by omega)]
    rcases Nat.lt_or_eq_of_le hqa with hlt | heq
    · exact List.Lex.rel (digit_lt_digit _ (by omega) _ (by omega) hlt)
    · rw [heq]
      apply List.Lex.cons
      rw [← encode_mod w w a le_rfl, ← encode_mod w w b le_rfl]
      apply ih (Nat.mod_lt _ (pow_pos hpos w))
      have ha := Nat.div_add_mod a (base ^ w)
      have hb' := Nat.div_add_mod b (base ^ w)
      rw [heq] at ha
      omega

end Base

lemma decodeDecimal_encode {w n : Nat} (h : n < 10 ^ (w + 1)) :
    decodeDecimal (encode 10 (w + 1) n) = some n := by
  have hne : encode 10 (w + 1) n ≠ [] := by simp [encode]
  rw [decodeDecimal, if_neg hne, decode_encode (by decide) (by decide) h]

/-- The width is the whole width, sign included. -/
def encodeSigned (w : Nat) (n : Int) : Bytes :=
  if n < 0 then 45 :: encode 10 (w - 1) n.natAbs else encode 10 w n.natAbs

/-- The value of a text with an optional sign, if it is one of the `bits` wide signed integers. -/
def decodeSigned (bits : Nat) (bs : Bytes) : Option Int :=
  let read (sign : Int) (digits : Bytes) := ((decodeDecimal digits).map (fun n : Nat => sign * n)).filter
    (fun n => -2 ^ (bits - 1) ≤ n ∧ n < 2 ^ (bits - 1))
  match bs with
  | 45 :: rest => read (-1) rest
  | 43 :: rest => read 1 rest
  | _ => read 1 bs

lemma encodeSigned_of_nonneg (w : Nat) {n : Int} (h : 0 ≤ n) :
    encodeSigned w n = encode 10 w n.natAbs := by
  rw [encodeSigned, if_neg (by omega)]

theorem decodeSigned_encodeSigned {bits w : Nat} {n : Int} (h : 0 ≤ n) (hw : n < 10 ^ (w + 1))
    (hbits : n < 2 ^ (bits - 1)) : decodeSigned bits (encodeSigned (w + 1) n) = some n := by
  have habs : n.natAbs < 10 ^ (w + 1) := by
    zify
    rw [abs_of_nonneg h]
    exact hw
  rw [encodeSigned_of_nonneg _ h]
  have hread : decodeSigned bits (encode 10 (w + 1) n.natAbs)
      = ((decodeDecimal (encode 10 (w + 1) n.natAbs)).map (fun m : Nat => (1 : Int) * m)).filter
        (fun n => -2 ^ (bits - 1) ≤ n ∧ n < 2 ^ (bits - 1)) := by
    have hfirst := digit_bounds (n.natAbs / 10 ^ w % 10) (Nat.mod_lt _ (by decide))
    unfold decodeSigned encode
    dsimp only
    split
    next heq =>
      rw [(List.cons.inj heq).1] at hfirst
      exact absurd hfirst.1 (by decide)
    next heq =>
      rw [(List.cons.inj heq).1] at hfirst
      exact absurd hfirst.1 (by decide)
    next => rfl
  have hlow : -(2 : Int) ^ (bits - 1) ≤ n := by
    have hpos : (0 : Int) ≤ 2 ^ (bits - 1) := by positivity
    omega
  rw [hread, decodeDecimal_encode habs, Option.map_some, Int.natAbs_of_nonneg h, one_mul,
    Option.filter_some, if_pos (decide_eq_true ⟨hlow, hbits⟩)]

theorem decodeSigned_encodeSigned_of_neg {bits w : Nat} {n : Int} (h : n < 0)
    (hw : -10 ^ (w + 1) < n) (hbits : -2 ^ (bits - 1) ≤ n) :
    decodeSigned bits (encodeSigned (w + 2) n) = some n := by
  have habs : n.natAbs < 10 ^ (w + 1) := by
    zify
    rw [abs_of_neg h]
    omega
  have hvalue : (-1 : Int) * (n.natAbs : Int) = n := by omega
  have hhigh : n < 2 ^ (bits - 1) := h.trans (by positivity)
  rw [encodeSigned, if_pos h]
  change ((decodeDecimal (encode 10 (w + 1) n.natAbs)).map (fun m : Nat => (-1 : Int) * m)).filter
    (fun n => -2 ^ (bits - 1) ≤ n ∧ n < 2 ^ (bits - 1)) = some n
  rw [decodeDecimal_encode habs, Option.map_some, hvalue, Option.filter_some,
    if_pos (decide_eq_true ⟨hbits, hhigh⟩)]

lemma bounds_of_mem_encodeSigned {w : Nat} {n : Int} {b : UInt8} (h : b ∈ encodeSigned w n) :
    45 ≤ b ∧ b ≤ 57 := by
  rw [encodeSigned] at h
  split at h
  next =>
    rcases List.mem_cons.mp h with rfl | h
    · decide
    · obtain ⟨hlow, hhigh⟩ := bounds_of_mem_encode h
      exact ⟨le_trans (by decide) hlow, hhigh⟩
  next =>
    obtain ⟨hlow, hhigh⟩ := bounds_of_mem_encode h
    exact ⟨le_trans (by decide) hlow, hhigh⟩

end Digits
