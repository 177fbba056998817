import Mathlib

/-! Binary64 arithmetic on rationals: finite values are the rationals they denote, and every
operation rounds its exact result to nearest, ties to even. The sign of a zero is not kept. -/
inductive Binary64
  | finite (q : ℚ)
  | inf (negative : Bool)
  | nan
  deriving DecidableEq

namespace Binary64

/-- A rational that some finite binary64 word denotes. -/
def Representable (q : ℚ) : Prop :=
  ∃ m e : ℤ, |m| < 2 ^ 53 ∧ -1074 ≤ e ∧ e ≤ 971 ∧ q = m * (2 : ℚ) ^ e

/-- The exponent of the last place of `q`. -/
def ulpExp (q : ℚ) : ℤ := max (-1074) (Int.log 2 |q| - 52)

def roundEven (q : ℚ) : ℤ :=
  if q - ⌊q⌋ < 1 / 2 then ⌊q⌋
  else if 1 / 2 < q - ⌊q⌋ then ⌊q⌋ + 1
  else if ⌊q⌋ % 2 = 0 then ⌊q⌋ else ⌊q⌋ + 1

def ofRat (q : ℚ) : Binary64 :=
  let r := (roundEven (q / (2 : ℚ) ^ ulpExp q) : ℚ) * (2 : ℚ) ^ ulpExp q
  if |r| < 2 ^ 1024 then .finite r else .inf (q < 0)

def ofInt (i : ℤ) : Binary64 := ofRat i

def neg : Binary64 → Binary64
  | .finite q => .finite (-q)
  | .inf s => .inf (!s)
  | .nan => .nan

def add : Binary64 → Binary64 → Binary64
  | .finite a, .finite b => ofRat (a + b)
  | .finite _, .inf s => .inf s
  | .inf s, .finite _ => .inf s
  | .inf s, .inf t => if s = t then .inf s else .nan
  | _, _ => .nan

def sub (a b : Binary64) : Binary64 := add a (neg b)

def lt : Binary64 → Binary64 → Bool
  | .finite a, .finite b => a < b
  | .finite _, .inf s => !s
  | .inf s, .finite _ => s
  | .inf s, .inf t => s && !t
  | _, _ => false

def le : Binary64 → Binary64 → Bool
  | .finite a, .finite b => a ≤ b
  | .finite _, .inf s => !s
  | .inf s, .finite _ => s
  | .inf s, .inf t => s || !t
  | _, _ => false

/-- The value has no fractional part. -/
def isWhole : Binary64 → Bool
  | .finite q => q.den = 1
  | _ => false

/-- The conversion to a 64-bit integer, which truncates and saturates. -/
def toInt64 : Binary64 → Int64
  | .finite q => Int64.ofIntClamp (if 0 ≤ q then ⌊q⌋ else ⌈q⌉)
  | .inf negative => if negative then Int64.minValue else Int64.maxValue
  | .nan => 0

@[simp] lemma roundEven_intCast (i : ℤ) : roundEven (i : ℚ) = i := by
  simp [roundEven]

lemma abs_lt_of_representable {m e : ℤ} (hm : |m| < 2 ^ 53) :
    |(m : ℚ) * (2 : ℚ) ^ e| < (2 : ℚ) ^ (53 + e) := by
  have hmq : |(m : ℚ)| < 2 ^ 53 := by exact_mod_cast hm
  have hpos : (0 : ℚ) < 2 ^ e := by positivity
  rw [abs_mul, abs_of_pos hpos, zpow_add₀ (by norm_num : (2 : ℚ) ≠ 0)]
  exact mul_lt_mul_of_pos_right (by exact_mod_cast hmq) hpos

/-- The last place of a representable value is no coarser than the exponent it is written
with. -/
lemma ulpExp_le {m e : ℤ} (hm : |m| < 2 ^ 53) (he : -1074 ≤ e) (hne : m ≠ 0) :
    ulpExp ((m : ℚ) * (2 : ℚ) ^ e) ≤ e := by
  have hpos : 0 < |(m : ℚ) * (2 : ℚ) ^ e| := by
    have : (m : ℚ) ≠ 0 := by exact_mod_cast hne
    positivity
  have hlog := (Int.lt_zpow_iff_log_lt (by norm_num : 1 < 2) hpos).mp
    (by exact_mod_cast abs_lt_of_representable hm)
  rw [ulpExp, max_le_iff]
  omega

/-- Rounding leaves a representable value alone. -/
theorem ofRat_of_representable {q : ℚ} (h : Representable q) : ofRat q = .finite q := by
  obtain ⟨m, e, hm, hlo, hhi, rfl⟩ := h
  set q : ℚ := (m : ℚ) * (2 : ℚ) ^ e with hq
  have hround : (roundEven (q / (2 : ℚ) ^ ulpExp q) : ℚ) * (2 : ℚ) ^ ulpExp q = q := by
    by_cases hzero : m = 0
    · have hq0 : q = 0 := by simp [hq, hzero]
      have := roundEven_intCast 0
      simp only [Int.cast_zero] at this
      simp [hq0, this]
    · have hle : ulpExp q ≤ e := ulpExp_le hm hlo hzero
      obtain ⟨k, hk⟩ := Int.le.dest hle
      have hscaled : q / (2 : ℚ) ^ ulpExp q = ((m * 2 ^ k : ℤ) : ℚ) := by
        have hexp : (2 : ℚ) ^ e = (2 : ℚ) ^ ulpExp q * (2 : ℚ) ^ k := by
          rw [← hk, zpow_add₀ (by norm_num : (2 : ℚ) ≠ 0), zpow_natCast]
        rw [div_eq_iff (by positivity)]
        calc q = (m : ℚ) * ((2 : ℚ) ^ ulpExp q * (2 : ℚ) ^ k) := by rw [hq, ← hexp]
          _ = ((m * 2 ^ k : ℤ) : ℚ) * (2 : ℚ) ^ ulpExp q := by push_cast; ring
      rw [hscaled, roundEven_intCast, ← hscaled, div_mul_cancel₀ _ (by positivity)]
  have hbound : |q| < 2 ^ 1024 := by
    refine (abs_lt_of_representable hm).trans_le ?_
    have hexp : (2 : ℚ) ^ (53 + e) ≤ (2 : ℚ) ^ (1024 : ℤ) :=
      zpow_le_zpow_right₀ (by norm_num) (by omega)
    exact_mod_cast hexp
  simp only [ofRat, hround, if_pos hbound]

lemma not_representable_maxInt : ¬ Representable (2 ^ 63 - 1) := by
  rintro ⟨m, e, hm, _, _, heq⟩
  rcases le_or_gt e 0 with he | he
  · have hm' : |(m : ℚ)| < 2 ^ 53 := by exact_mod_cast hm
    have hpow : (2 : ℚ) ^ e ≤ 1 := zpow_le_one_of_nonpos₀ (by norm_num) he
    have hpos : (0 : ℚ) < 2 ^ e := by positivity
    have hle : (m : ℚ) * 2 ^ e ≤ 2 ^ 53 := by
      calc (m : ℚ) * 2 ^ e ≤ |(m : ℚ)| * 2 ^ e := by gcongr; exact le_abs_self _
        _ ≤ 2 ^ 53 * 1 := by gcongr
        _ = 2 ^ 53 := mul_one _
    rw [← heq] at hle
    norm_num at hle
  · obtain ⟨k, rfl⟩ : ∃ k : ℕ, e = k + 1 := ⟨(e - 1).toNat, by omega⟩
    have hint : (9223372036854775807 : ℤ) = m * 2 ^ k * 2 := by
      have hcast : (9223372036854775807 : ℚ) = (m : ℚ) * 2 ^ k * 2 := by
        rw [zpow_add₀ (by norm_num : (2 : ℚ) ≠ 0), zpow_natCast, zpow_one, ← mul_assoc] at heq
        rw [← heq]
        norm_num
      exact_mod_cast hcast
    omega

end Binary64
