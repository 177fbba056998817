import Mathlib

/-! The proleptic Gregorian calendar, counted in months and days from the first of January 1970: the
length of each month, the day each month starts on, and the weekdays. -/
namespace Gregorian

def IsLeap (year : ℤ) : Prop := 4 ∣ year ∧ (¬ 100 ∣ year ∨ 400 ∣ year)

instance decidableIsLeap (year : ℤ) : Decidable (IsLeap year) := by
  unfold IsLeap
  infer_instance

/-- The days of a month, from one to twelve. -/
def monthLength (year month : ℤ) : ℤ :=
  if month = 2 then if IsLeap year then 29 else 28
  else if month = 4 ∨ month = 6 ∨ month = 9 ∨ month = 11 then 30
  else 31

/-- The year of a month counted from January 1970. -/
def yearOf (i : ℤ) : ℤ := 1970 + i / 12

def monthOf (i : ℤ) : ℤ := i % 12 + 1

/-- The number of a month of a year. -/
def monthIndex (year month : ℤ) : ℤ := 12 * (year - 1970) + (month - 1)

def monthDays (i : ℤ) : ℤ := monthLength (yearOf i) (monthOf i)

/-- The day a month starts on: the days of all months between. -/
def firstDay : ℤ → ℤ
  | .ofNat n => ∑ j ∈ Finset.range n, monthDays j
  | .negSucc n => -∑ j ∈ Finset.range (n + 1), monthDays (-(j : ℤ) - 1)

/-- The fifth of January 1970 was a Monday. -/
def IsMonday (day : ℤ) : Prop := day % 7 = 4

lemma monthLength_pos (year month : ℤ) : 0 < monthLength year month := by
  unfold monthLength
  split_ifs <;> norm_num

@[simp] lemma firstDay_zero : firstDay 0 = 0 := rfl

lemma firstDay_neg (n : ℕ) : firstDay (-(n : ℤ)) = -∑ j ∈ Finset.range n, monthDays (-(j : ℤ) - 1) := by
  cases n with
  | zero => simp
  | succ n => rfl

lemma firstDay_succ (i : ℤ) : firstDay (i + 1) = firstDay i + monthDays i := by
  induction i using Int.induction_on with
  | zero => rfl
  | succ n _ => exact Finset.sum_range_succ _ (n + 1)
  | pred n _ =>
    have hstep : firstDay (-((n + 1 : ℕ) : ℤ)) = firstDay (-(n : ℤ)) - monthDays (-(n : ℤ) - 1) := by
      rw [firstDay_neg, firstDay_neg, Finset.sum_range_succ]
      ring
    have hcast : (-(n : ℤ) - 1) = -((n + 1 : ℕ) : ℤ) := by
      push_cast
      ring
    rw [sub_add_cancel, hcast, hstep, ← hcast]
    ring

/-- A count that starts at zero and steps by the lengths of the months is the calendar's. -/
lemma eq_firstDay {f : ℤ → ℤ} (hzero : f 0 = 0) (hstep : ∀ i, f (i + 1) = f i + monthDays i) (i : ℤ) :
    f i = firstDay i := by
  induction i using Int.induction_on with
  | zero => exact hzero
  | succ n ih => rw [hstep, firstDay_succ, ih]
  | pred n ih =>
    have hf := hstep (-(n : ℤ) - 1)
    have hfirst := firstDay_succ (-(n : ℤ) - 1)
    rw [sub_add_cancel] at hf hfirst
    linarith

lemma firstDay_strictMono : StrictMono firstDay :=
  strictMono_int_of_lt_succ fun i => by
    rw [firstDay_succ]
    exact lt_add_of_pos_right _ (monthLength_pos _ _)

lemma le_firstDay {i : ℤ} (h : 0 ≤ i) : i ≤ firstDay i := by
  induction i, h using Int.leInduction with
  | base => exact le_rfl
  | succ i _ ih =>
    rw [firstDay_succ]
    have hpos : 0 < monthDays i := monthLength_pos _ _
    omega

lemma zero_le_of_lt_firstDay {i day : ℤ} (h0 : 0 ≤ day) (hlt : day < firstDay (i + 1)) : 0 ≤ i := by
  have hpos : firstDay 0 < firstDay (i + 1) := by
    rw [firstDay_zero]
    exact h0.trans_lt hlt
  exact Int.lt_add_one_iff.mp (firstDay_strictMono.lt_iff_lt.mp hpos)

/-- A day lies in the month whose first day is the last one up to it. -/
lemma isGreatest_firstDay {i day : ℤ} (hle : firstDay i ≤ day) (hlt : day < firstDay (i + 1)) :
    IsGreatest {d | d ≤ day ∧ ∃ j, d = firstDay j} (firstDay i) := by
  refine ⟨⟨hle, i, rfl⟩, ?_⟩
  rintro d ⟨hd, j, rfl⟩
  have hji : j < i + 1 := firstDay_strictMono.lt_iff_lt.mp (hd.trans_lt hlt)
  exact firstDay_strictMono.monotone (Int.lt_add_one_iff.mp hji)

lemma yearOf_monthIndex {year month : ℤ} (h1 : 1 ≤ month) (h12 : month ≤ 12) :
    yearOf (monthIndex year month) = year ∧ monthOf (monthIndex year month) = month := by
  unfold monthIndex yearOf monthOf
  omega

end Gregorian
