import NodedbLite.Binary64

/-! The words of binary64 numbers and their order. Without its sign a word orders like the number it
denotes, so one flip of bits turns words into integers that order like numbers, except that the two
zeros denote one number and a word that denotes none goes to the ends. -/
namespace Binary64

/-- The word without its sign. -/
def magnitude (bits : UInt64) : Nat := bits.toNat % 2 ^ 63

def isNegative (bits : UInt64) : Bool := 2 ^ 63 ≤ bits.toNat

/-- The magnitude of the infinities; a larger one denotes no number. -/
def infMagnitude : Nat := 2047 * 2 ^ 52

def IsNan (bits : UInt64) : Prop := infMagnitude < magnitude bits

instance (bits : UInt64) : Decidable (IsNan bits) := inferInstanceAs (Decidable (_ < _))

def IsZero (bits : UInt64) : Prop := magnitude bits = 0

instance (bits : UInt64) : Decidable (IsZero bits) := inferInstanceAs (Decidable (_ = _))

/-- What a magnitude denotes in units of the smallest positive number. -/
def scaled (m : Nat) : Nat :=
  if m / 2 ^ 52 = 0 then m % 2 ^ 52 else (2 ^ 52 + m % 2 ^ 52) * 2 ^ (m / 2 ^ 52 - 1)

/-- What a word denotes in these units; the infinities count as the numbers that would come next. -/
def units (bits : UInt64) : ℤ :=
  if isNegative bits then -(scaled (magnitude bits) : ℤ) else scaled (magnitude bits)

/-- The value of a word. -/
def ofBits (bits : UInt64) : Binary64 :=
  if IsNan bits then .nan
  else if magnitude bits = infMagnitude then .inf (isNegative bits)
  else .finite ((units bits : ℚ) / 2 ^ 1074)

/-- The words as integers that order like numbers. -/
def sortKey (bits : UInt64) : Nat :=
  if isNegative bits then 2 ^ 64 - 1 - bits.toNat else bits.toNat + 2 ^ 63

lemma scaled_lt_succ (m : Nat) : scaled m < scaled (m + 1) := by
  by_cases hlast : m % 2 ^ 52 = 2 ^ 52 - 1
  · -- The next magnitude has the next exponent and no fraction.
    have hdiv : (m + 1) / 2 ^ 52 = m / 2 ^ 52 + 1 := by omega
    have hmod : (m + 1) % 2 ^ 52 = 0 := by omega
    rw [scaled, scaled, hdiv, hmod, hlast, if_neg (Nat.succ_ne_zero _), Nat.add_sub_cancel]
    by_cases hzero : m / 2 ^ 52 = 0
    · rw [if_pos hzero, hzero]
      norm_num
    · obtain ⟨e, he⟩ := Nat.exists_eq_succ_of_ne_zero hzero
      rw [if_neg hzero, he, Nat.succ_sub_one, Nat.pow_succ 2 e, Nat.add_zero, Nat.mul_comm (2 ^ e) 2,
        ← Nat.mul_assoc]
      exact Nat.mul_lt_mul_of_pos_right (by norm_num) (Nat.two_pow_pos e)
  · have hdiv : (m + 1) / 2 ^ 52 = m / 2 ^ 52 := by omega
    have hmod : (m + 1) % 2 ^ 52 = m % 2 ^ 52 + 1 := by omega
    rw [scaled, scaled, hdiv, hmod]
    split_ifs
    · exact Nat.lt_succ_self _
    · exact Nat.mul_lt_mul_of_pos_right (by omega) (Nat.two_pow_pos _)

lemma scaled_strictMono : StrictMono scaled := strictMono_nat_of_lt_succ scaled_lt_succ

lemma scaled_zero : scaled 0 = 0 := rfl

lemma toNat_eq_magnitude (bits : UInt64) :
    bits.toNat = if isNegative bits then 2 ^ 63 + magnitude bits else magnitude bits := by
  have hlt := bits.toNat_lt
  by_cases hneg : 2 ^ 63 ≤ bits.toNat
  · rw [isNegative, decide_eq_true hneg, if_pos rfl, magnitude]
    omega
  · rw [isNegative, decide_eq_false hneg, if_neg Bool.false_ne_true, magnitude]
    omega

/-- The integers order like what the words denote, but for the two zeros. -/
lemma sortKey_le_iff_units {a b : UInt64} (hzero : ¬(IsZero a ∧ IsZero b)) :
    sortKey a ≤ sortKey b ↔ units a ≤ units b := by
  have ha := toNat_eq_magnitude a
  have hb := toNat_eq_magnitude b
  have hma : magnitude a < 2 ^ 63 := Nat.mod_lt _ (by norm_num)
  have hmb : magnitude b < 2 ^ 63 := Nat.mod_lt _ (by norm_num)
  have hpos : ∀ m, m ≠ 0 → 0 < scaled m := fun m hm =>
    scaled_zero ▸ scaled_strictMono (Nat.pos_of_ne_zero hm)
  have hle : ∀ m n, scaled m ≤ scaled n ↔ m ≤ n := fun m n => scaled_strictMono.le_iff_le
  rw [IsZero, IsZero] at hzero
  rw [sortKey, sortKey, units, units]
  cases hna : isNegative a <;> cases hnb : isNegative b <;>
    simp only [hna, hnb, Bool.false_eq_true, if_true, if_false] at ha hb ⊢
  · rw [ha, hb, Nat.cast_le, hle]
    omega
  · -- A number without a sign against one with it.
    refine iff_of_false (by omega) ?_
    rcases Nat.eq_zero_or_pos (magnitude a) with hza | hza
    · have hzb := hpos (magnitude b) fun hzb => hzero ⟨hza, hzb⟩
      omega
    · have hza' := hpos (magnitude a) hza.ne'
      omega
  · refine iff_of_true (by omega) ?_
    have hnonneg := Nat.zero_le (scaled (magnitude b))
    omega
  · rw [ha, hb, neg_le_neg_iff, Nat.cast_le, hle]
    omega

lemma lt_eq_le_and_not_le (x y : Binary64) : lt x y = (le x y && !le y x) := by
  cases x with
  | finite a =>
    cases y with
    | finite b =>
      change decide (a < b) = (decide (a ≤ b) && !decide (b ≤ a))
      by_cases hba : b ≤ a
      · simp [hba]
      · simp [hba, not_le.mp hba, (not_le.mp hba).le]
    | inf t => cases t <;> rfl
    | nan => rfl
  | inf s => cases y <;> cases s <;> first | rfl | (rename_i t; cases t <;> rfl)
  | nan => cases y <;> rfl

lemma le_and_ge_iff (x y : Binary64) : le x y = true ∧ le y x = true ↔ x = y ∧ x ≠ .nan := by
  cases x with
  | finite a =>
    cases y with
    | finite b =>
      simp only [le, decide_eq_true_eq, finite.injEq, ne_eq, reduceCtorEq, not_false_eq_true, and_true]
      exact le_antisymm_iff.symm
    | inf t => cases t <;> simp [le]
    | nan => simp [le]
  | inf s =>
    cases y with
    | finite b => cases s <;> simp [le]
    | inf t => cases s <;> cases t <;> simp [le]
    | nan => simp [le]
  | nan => cases y <;> simp [le]

lemma ofBits_eq_nan_iff (bits : UInt64) : ofBits bits = .nan ↔ IsNan bits := by
  rw [ofBits]
  split_ifs with hnan hinf <;> simp [hnan]

lemma abs_units_lt {bits : UInt64} (h : magnitude bits < infMagnitude) :
    |units bits| < (scaled infMagnitude : ℤ) := by
  have hlt := scaled_strictMono h
  rw [units]
  split_ifs <;> simp only [abs_neg, Nat.abs_cast] <;> exact_mod_cast hlt

/-- The numeric order of words that denote numbers. -/
theorem le_ofBits_iff {a b : UInt64} (ha : ¬IsNan a) (hb : ¬IsNan b) :
    le (ofBits a) (ofBits b) = true ↔ units a ≤ units b := by
  have hbound : ∀ {x : UInt64}, ¬IsNan x → magnitude x ≠ infMagnitude →
      |units x| < (scaled infMagnitude : ℤ) := fun hnan hinf =>
    abs_units_lt (lt_of_le_of_ne (not_lt.mp hnan) hinf)
  have hinf : ∀ {x : UInt64}, magnitude x = infMagnitude →
      units x = if isNegative x then -(scaled infMagnitude : ℤ) else scaled infMagnitude := by
    intro x hx
    rw [units, hx]
  have hpos : (0 : ℤ) < scaled infMagnitude :=
    Int.natCast_pos.mpr ((Nat.zero_le _).trans_lt (scaled_strictMono (by decide : 0 < infMagnitude)))
  generalize (scaled infMagnitude : ℤ) = top at hbound hinf hpos
  rw [ofBits, ofBits, if_neg ha, if_neg hb]
  by_cases hia : magnitude a = infMagnitude <;> by_cases hib : magnitude b = infMagnitude
  · rw [if_pos hia, if_pos hib, hinf hia, hinf hib]
    cases isNegative a <;> cases isNegative b <;> simp [le] <;> omega
  · have hlt := abs_lt.mp (hbound hb hib)
    rw [if_pos hia, if_neg hib, hinf hia]
    cases isNegative a <;> simp [le] <;> omega
  · have hlt := abs_lt.mp (hbound ha hia)
    rw [if_neg hia, if_pos hib, hinf hib]
    cases isNegative b <;> simp [le] <;> omega
  · rw [if_neg hia, if_neg hib]
    simp only [le, decide_eq_true_eq]
    rw [div_le_div_iff_of_pos_right (by positivity), Int.cast_le]

/-- The integers order like the numbers, but for the two zeros. -/
theorem sortKey_le_iff {a b : UInt64} (ha : ¬IsNan a) (hb : ¬IsNan b)
    (hzero : ¬(IsZero a ∧ IsZero b)) : sortKey a ≤ sortKey b ↔ le (ofBits a) (ofBits b) = true := by
  rw [sortKey_le_iff_units hzero, le_ofBits_iff ha hb]

lemma sortKey_lt (bits : UInt64) : sortKey bits < 2 ^ 64 := by
  have hlt := bits.toNat_lt
  rw [sortKey]
  split_ifs with hneg
  · omega
  · have hpos := of_decide_eq_false (Bool.eq_false_iff.mpr hneg)
    omega

section Words

/-- The word of the sign alone. -/
def signWord : UInt64 := (1 : UInt64) <<< 63

lemma toNat_signWord : signWord.toNat = 2 ^ 63 := by decide

lemma toNat_xor_signWord (bits : UInt64) :
    (bits ^^^ signWord).toNat = (bits.toNat + 2 ^ 63) % 2 ^ 64 := by
  have hlt := bits.toNat_lt
  have hdiv : (bits.toNat ^^^ 2 ^ 63) / 2 ^ 63 = bits.toNat / 2 ^ 63 ^^^ 1 := by
    rw [Nat.xor_div_two_pow, Nat.div_self (Nat.two_pow_pos 63)]
  have hmod : (bits.toNat ^^^ 2 ^ 63) % 2 ^ 63 = bits.toNat % 2 ^ 63 := by
    rw [Nat.xor_mod_two_pow, Nat.mod_self, Nat.xor_zero]
  have htop : bits.toNat / 2 ^ 63 = 0 ∨ bits.toNat / 2 ^ 63 = 1 := by omega
  rw [UInt64.toNat_xor, toNat_signWord]
  rcases htop with h | h <;> rw [h] at hdiv <;>
    simp only [Nat.zero_xor, Nat.xor_self] at hdiv <;> omega

lemma and_signWord_ne_zero_iff (bits : UInt64) : bits &&& signWord ≠ 0 ↔ isNegative bits := by
  have hlt := bits.toNat_lt
  rw [ne_eq, ← UInt64.toNat_inj, UInt64.toNat_and, toNat_signWord, Nat.and_two_pow,
    Nat.testBit_eq_decide_div_mod_eq, isNegative, decide_eq_true_eq, UInt64.toNat_zero]
  by_cases h : bits.toNat / 2 ^ 63 % 2 = 1
  · simp only [h]
    norm_num
    omega
  · simp only [h]
    norm_num
    omega

lemma toNat_and_not_signWord (bits : UInt64) : (bits &&& ~~~signWord).toNat = magnitude bits := by
  have hmask : (~~~signWord).toNat = 2 ^ 63 - 1 := by decide
  rw [UInt64.toNat_and, hmask, Nat.and_two_pow_sub_one_eq_mod, magnitude]

lemma toNat_flip (bits : UInt64) :
    (if bits &&& signWord ≠ 0 then ~~~bits else bits ^^^ signWord).toNat = sortKey bits := by
  have hlt := bits.toNat_lt
  by_cases hneg : isNegative bits = true
  · rw [if_pos ((and_signWord_ne_zero_iff bits).mpr hneg), sortKey, if_pos hneg, UInt64.toNat_not]
    rfl
  · rw [if_neg (mt (and_signWord_ne_zero_iff bits).mp hneg), sortKey, if_neg hneg,
      toNat_xor_signWord]
    rw [isNegative, decide_eq_true_eq] at hneg
    omega

lemma toNat_toUInt64_xor_signWord (i : Int64) :
    ((i.toUInt64 ^^^ signWord).toNat : ℤ) = i.toInt + 2 ^ 63 := by
  have hlow := i.le_toInt
  have hhigh := i.toInt_lt
  have hword : (i.toUInt64.toNat : ℤ) = i.toInt % 2 ^ 64 := by
    have hbits : i.toInt = i.toBitVec.toInt := rfl
    have hlt := i.toBitVec.isLt
    change (i.toBitVec.toNat : ℤ) = _
    rw [hbits, BitVec.toInt_eq_toNat_cond]
    split_ifs <;> omega
  rw [toNat_xor_signWord]
  push_cast
  omega

end Words

end Binary64
