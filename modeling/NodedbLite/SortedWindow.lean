import NodedbLite.Gregorian
import NodedbLite.SortedDef

/-! The starts of calendar windows: with every arithmetic step checked, and against the calendar. -/
namespace NodedbLite.Sorted

open Gregorian

section Civil

lemma daysFromCivil_eq (year month day : ℤ) : daysFromCivil year month day
    = (let march := if month ≤ 2 then year - 1 else year
      365 * march + march / 4 - march / 100 + march / 400 +
        (153 * (if 2 < month then month - 3 else month + 9) + 2) / 5 + day - 1 - 719468) := by
  unfold daysFromCivil
  dsimp only
  generalize (if month ≤ 2 then year - 1 else year) = march
  generalize (if 2 < month then month - 3 else month + 9) = mp
  omega

lemma februaryLength_eq (year : ℤ) : (if IsLeap year then (29 : ℤ) else 28)
    = 28 + (year / 4 - (year - 1) / 4) - (year / 100 - (year - 1) / 100)
      + (year / 400 - (year - 1) / 400) := by
  split_ifs with h <;> unfold IsLeap at h <;> omega

lemma daysFromCivil_next {year month : ℤ} (h1 : 1 ≤ month) (h12 : month ≤ 12) :
    daysFromCivil (year + month / 12) (month % 12 + 1) 1
      = daysFromCivil year month 1 + monthLength year month := by
  rw [daysFromCivil_eq, daysFromCivil_eq, monthLength]
  have hleap := februaryLength_eq year
  interval_cases month
  all_goals norm_num
  all_goals omega

lemma daysFromCivil_first (i : ℤ) : daysFromCivil (yearOf i) (monthOf i) 1 = firstDay i := by
  apply eq_firstDay (f := fun i => daysFromCivil (yearOf i) (monthOf i) 1)
  · decide
  · intro i
    have hmonth : 1 ≤ monthOf i ∧ monthOf i ≤ 12 := by
      unfold monthOf
      omega
    rw [monthDays, ← daysFromCivil_next hmonth.1 hmonth.2]
    have hyear : yearOf (i + 1) = yearOf i + monthOf i / 12 := by
      unfold yearOf monthOf
      omega
    have hnext : monthOf (i + 1) = monthOf i % 12 + 1 := by
      unfold monthOf
      omega
    rw [hyear, hnext]

lemma yearOfEra_spec {doe : ℤ} (h0 : 0 ≤ doe) (h1 : doe < 146097) :
    let yoe := (doe - doe / 1460 + doe / 36524 - doe / 146096) / 365
    0 ≤ yoe ∧ yoe ≤ 399 ∧ 365 * yoe + yoe / 4 - yoe / 100 ≤ doe ∧
      (doe < 365 * (yoe + 1) + (yoe + 1) / 4 - (yoe + 1) / 100 ∨ yoe = 399) := by
  intro yoe
  by_cases hlast : doe = 146096
  · have hyoe : yoe = 399 := by
      simp only [yoe, hlast]
      norm_num
    omega
  -- the day as a century, four years of it, and a day of those
  obtain ⟨c, r, hdoe, hr0, hr1⟩ : ∃ c r, doe = 36524 * c + r ∧ 0 ≤ r ∧ r < 36524 :=
    ⟨doe / 36524, doe % 36524, by omega, by omega, by omega⟩
  obtain ⟨q, s, hrs, hs0, hs1⟩ : ∃ q s, r = 1461 * q + s ∧ 0 ≤ s ∧ s < 1461 :=
    ⟨r / 1461, r % 1461, by omega, by omega, by omega⟩
  have hc : 0 ≤ c ∧ c ≤ 3 := by omega
  have hq : 0 ≤ q ∧ q ≤ 24 := by omega
  have hcentury : doe / 36524 = c := by omega
  have hera : doe / 146096 = 0 := by omega
  obtain ⟨e, he, he0, he1⟩ : ∃ e, doe / 1460 = 25 * c + q + e ∧ 0 ≤ e ∧
      (e = 0 ∨ e = 1 ∧ 1460 ≤ 24 * c + q + s) ∧ (e = 0 → 24 * c + q + s < 1460) :=
    ⟨(24 * c + q + s) / 1460, by omega, by omega, by omega, by omega⟩
  obtain ⟨k, hk, hk0, hk3⟩ : ∃ k, yoe = 100 * c + 4 * q + k ∧ 365 * k ≤ s - e ∧
      s - e < 365 * (k + 1) :=
    ⟨(s - e) / 365, by simp only [yoe, hcentury, hera, he]; omega, by omega, by omega⟩
  have hbounds : 0 ≤ k ∧ k ≤ 3 := by omega
  have hfour : yoe / 4 = 25 * c + q := by omega
  have hhundred : yoe / 100 = c := by omega
  refine ⟨by omega, by omega, by omega, ?_⟩
  left
  have hfour' : (yoe + 1) / 4 = 25 * c + q + (if k = 3 then 1 else 0) := by
    split_ifs <;> omega
  have hhundred' : (yoe + 1) / 100 = c + (if k = 3 ∧ q = 24 then 1 else 0) := by
    split_ifs <;> omega
  rw [hfour', hhundred']
  split_ifs <;> omega

lemma civilYearMonth_spec (days : ℤ) :
    let date := civilYearMonth days
    1 ≤ date.2 ∧ date.2 ≤ 12 ∧ daysFromCivil date.1 date.2 1 ≤ days ∧
      days < daysFromCivil date.1 date.2 1 + monthLength date.1 date.2 := by
  intro date
  obtain ⟨era, doe, hz, h0, h1⟩ : ∃ era doe, days + 719468 = 146097 * era + doe ∧ 0 ≤ doe ∧
      doe < 146097 := ⟨(days + 719468) / 146097, (days + 719468) % 146097, by omega, by omega, by omega⟩
  have hera : (days + 719468) / 146097 = era := by omega
  have hdoe : (days + 719468) % 146097 = doe := by omega
  obtain ⟨hyoe0, hyoe1, hlow, hhigh⟩ := yearOfEra_spec h0 h1
  generalize hyoe : (doe - doe / 1460 + doe / 36524 - doe / 146096) / 365 = yoe at hyoe0 hyoe1 hlow hhigh
  obtain ⟨doy, hdoy⟩ : ∃ doy, doy = doe - (365 * yoe + yoe / 4 - yoe / 100) := ⟨_, rfl⟩
  obtain ⟨mp, hmp⟩ : ∃ mp, mp = (5 * doy + 2) / 153 := ⟨_, rfl⟩
  have hdate : date = (yoe + era * 400 + (if (if mp < 10 then mp + 3 else mp - 9) ≤ 2 then 1 else 0),
      if mp < 10 then mp + 3 else mp - 9) := by
    simp only [date, civilYearMonth, hera, hdoe, hyoe, hdoy, hmp]
  have hmp0 : 0 ≤ mp ∧ mp ≤ 11 := by omega
  have hmarch : ∀ k, (k + era * 400) / 4 = k / 4 + 100 * era ∧
      (k + era * 400) / 100 = k / 100 + 4 * era ∧ (k + era * 400) / 400 = k / 400 + era := by
    intro k
    refine ⟨?_, ?_, ?_⟩ <;> omega
  have hleap := februaryLength_eq (yoe + 1 + era * 400)
  rw [show yoe + 1 + era * 400 - 1 = yoe + era * 400 by ring, (hmarch yoe).1, (hmarch yoe).2.1,
    (hmarch yoe).2.2, (hmarch (yoe + 1)).1, (hmarch (yoe + 1)).2.1, (hmarch (yoe + 1)).2.2] at hleap
  have hera0 : yoe / 400 = 0 := by omega
  have hera1 : (yoe + 1) / 400 = if yoe = 399 then 1 else 0 := by
    split_ifs <;> omega
  rw [hera0, hera1] at hleap
  have hyear : doy < 365 + ((yoe + 1) / 4 - yoe / 4) - ((yoe + 1) / 100 - yoe / 100)
      + (if yoe = 399 then 1 else 0) := by
    split_ifs <;> omega
  have hfirst : ∀ year month, (if month ≤ 2 then year - 1 else year) = yoe + era * 400 →
      (if 2 < month then month - 3 else month + 9) = mp →
        daysFromCivil year month 1 = days - doy + (153 * mp + 2) / 5 := by
    intro year month hyear hmonth
    rw [daysFromCivil_eq]
    dsimp only
    rw [hyear, hmonth, (hmarch yoe).1, (hmarch yoe).2.1, (hmarch yoe).2.2, hera0]
    omega
  rw [hdate]
  dsimp only
  rw [hfirst _ _ (by split_ifs <;> omega) (by split_ifs <;> omega), monthLength]
  clear hfirst hdate hera hdoe hyoe hlow hhigh hz hmarch hera0 hera1
  rw [show yoe + 1 + era * 400 = yoe + era * 400 + 1 by ring] at hleap
  obtain ⟨hmp0, hmp11⟩ := hmp0
  interval_cases mp
  all_goals norm_num
  all_goals omega

lemma exists_month (days : ℤ) : ∃ i, civilYearMonth days = (yearOf i, monthOf i) ∧
    firstDay i ≤ days ∧ days < firstDay (i + 1) := by
  obtain ⟨h1, h12, hle, hlt⟩ := civilYearMonth_spec days
  obtain ⟨hyear, hmonth⟩ := @yearOf_monthIndex (civilYearMonth days).1 _ h1 h12
  refine ⟨monthIndex (civilYearMonth days).1 (civilYearMonth days).2, ?_, ?_, ?_⟩
  · rw [hyear, hmonth]
  · rwa [← daysFromCivil_first, hyear, hmonth]
  · rwa [firstDay_succ, monthDays, ← daysFromCivil_first, hyear, hmonth]

lemma civilYearMonth_firstDay (i : ℤ) : civilYearMonth (firstDay i) = (yearOf i, monthOf i) := by
  obtain ⟨j, hdate, hle, hlt⟩ := exists_month (firstDay i)
  have hji : j ≤ i := firstDay_strictMono.le_iff_le.mp hle
  have hij : i < j + 1 := firstDay_strictMono.lt_iff_lt.mp hlt
  obtain rfl : i = j := by omega
  exact hdate

end Civil

section Checked

/-- The result of an operation on `u64`, none where it leaves the range. -/
def u64 (n : ℤ) : Option ℤ := if 0 ≤ n ∧ n < 2 ^ 64 then some n else none

/-- The result of an operation on `i64`, none where it leaves the range. -/
def i64 (n : ℤ) : Option ℤ := if -2 ^ 63 ≤ n ∧ n < 2 ^ 63 then some n else none

def startOfDayChecked (nowMs : ℤ) : Option ℤ := u64 (nowMs / 86400000 * 86400000)

def startOfWeekChecked (nowMs : ℤ) : Option ℤ := do
  let days := nowMs / 86400000
  let shifted ← u64 (days + 3)
  let sinceMonday := shifted % 7
  let monday ← u64 (days - sinceMonday)
  u64 (monday * 86400000)

/-- `civil_year_month` with each sum, difference and product checked. -/
def civilYearMonthChecked (days : ℤ) : Option (ℤ × ℤ) := do
  let z ← i64 (days + 719468)
  let era := z / 146097
  let doe := z % 146097
  let less ← i64 (doe - doe / 1460)
  let more ← i64 (less + doe / 36524)
  let rest ← i64 (more - doe / 146096)
  let yoe := rest / 365
  let whole ← i64 (365 * yoe)
  let leap ← i64 (whole + yoe / 4)
  let before ← i64 (leap - yoe / 100)
  let doy ← i64 (doe - before)
  let five ← i64 (5 * doy)
  let shifted ← i64 (five + 2)
  let mp := shifted / 153
  let month ← i64 (if mp < 10 then mp + 3 else mp - 9)
  let eras ← i64 (era * 400)
  let march ← i64 (yoe + eras)
  let year ← i64 (march + (if month ≤ 2 then 1 else 0))
  return (year, month)

/-- `days_from_civil` with each sum, difference and product checked. -/
def daysFromCivilChecked (year month day : ℤ) : Option ℤ := do
  let year ← i64 (if month ≤ 2 then year - 1 else year)
  let era := year / 400
  let yoe := year % 400
  let mp ← i64 (if 2 < month then month - 3 else month + 9)
  let scaled ← i64 (153 * mp)
  let shifted ← i64 (scaled + 2)
  let upTo ← i64 (shifted / 5 + day)
  let doy ← i64 (upTo - 1)
  let whole ← i64 (yoe * 365)
  let leap ← i64 (whole + yoe / 4)
  let before ← i64 (leap - yoe / 100)
  let doe ← i64 (before + doy)
  let eras ← i64 (era * 146097)
  let sum ← i64 (eras + doe)
  i64 (sum - 719468)

/-- The casts between `u64` and `i64` keep the low bits. -/
def startOfMonthChecked (nowMs : ℤ) : Option ℤ := do
  let days := (nowMs / 86400000).bmod (2 ^ 64)
  let (year, month) ← civilYearMonthChecked days
  let first ← daysFromCivilChecked year month 1
  u64 (first % 2 ^ 64 * 86400000)

/-- `window_start`, none where an operation leaves its range. -/
def windowStartChecked (w : WindowDef) (nowMs : UInt64) : Option (Option ℤ) :=
  match w.kind with
  | .none => some none
  | .daily => (startOfDayChecked nowMs.toNat).map some
  | .weekly => (startOfWeekChecked nowMs.toNat).map some
  | .monthly => (startOfMonthChecked nowMs.toNat).map some
  | .custom =>
    if w.startMs ≤ nowMs && nowMs < w.endMs then some (some w.startMs.toNat)
    else some (some (2 ^ 64 - 1))

lemma u64_eq {n : ℤ} (h0 : 0 ≤ n) (h1 : n < 2 ^ 64) : u64 n = some n := if_pos ⟨h0, h1⟩

lemma i64_eq {n : ℤ} (h0 : -2 ^ 63 ≤ n) (h1 : n < 2 ^ 63) : i64 n = some n := if_pos ⟨h0, h1⟩

lemma civilYearMonthChecked_eq {days : ℤ} (h0 : 0 ≤ days) (h1 : days < 2 ^ 40) :
    civilYearMonthChecked days = some (civilYearMonth days) := by
  have hdoe : 0 ≤ (days + 719468) % 146097 ∧ (days + 719468) % 146097 < 146097 := by omega
  have hera : 0 ≤ (days + 719468) / 146097 ∧ (days + 719468) / 146097 < 2 ^ 40 := by omega
  obtain ⟨hyoe0, hyoe1, hlow, hhigh⟩ := yearOfEra_spec hdoe.1 hdoe.2
  unfold civilYearMonthChecked civilYearMonth
  rw [i64_eq (by omega) (by omega)]
  simp only [Option.bind_eq_bind, Option.bind_some]
  generalize (days + 719468) % 146097 = doe at hdoe hyoe0 hyoe1 hlow hhigh ⊢
  generalize (days + 719468) / 146097 = era at hera ⊢
  rw [i64_eq (n := doe - doe / 1460) (by omega) (by omega), Option.bind_some,
    i64_eq (by omega) (by omega), Option.bind_some, i64_eq (by omega) (by omega), Option.bind_some]
  generalize (doe - doe / 1460 + doe / 36524 - doe / 146096) / 365 = yoe at hyoe0 hyoe1 hlow hhigh ⊢
  rw [i64_eq (n := 365 * yoe) (by omega) (by omega), Option.bind_some,
    i64_eq (by omega) (by omega), Option.bind_some, i64_eq (by omega) (by omega), Option.bind_some,
    i64_eq (by omega) (by omega), Option.bind_some]
  have hdoy : 0 ≤ doe - (365 * yoe + yoe / 4 - yoe / 100) ∧
      doe - (365 * yoe + yoe / 4 - yoe / 100) < 400 := by omega
  generalize doe - (365 * yoe + yoe / 4 - yoe / 100) = doy at hdoy ⊢
  rw [i64_eq (n := 5 * doy) (by omega) (by omega), Option.bind_some,
    i64_eq (by omega) (by omega), Option.bind_some,
    i64_eq (by split_ifs <;> omega) (by split_ifs <;> omega), Option.bind_some,
    i64_eq (by omega) (by omega), Option.bind_some, i64_eq (by omega) (by omega), Option.bind_some,
    i64_eq (by split_ifs <;> omega) (by split_ifs <;> omega)]
  rfl

lemma daysFromCivilChecked_eq {year month : ℤ} (h1 : 1 ≤ month) (h12 : month ≤ 12)
    (hyear0 : -2 ^ 40 ≤ year) (hyear1 : year < 2 ^ 40) :
    daysFromCivilChecked year month 1 = some (daysFromCivil year month 1) := by
  have hbounds : -2 ^ 41 ≤ (if month ≤ 2 then year - 1 else year) ∧
      (if month ≤ 2 then year - 1 else year) < 2 ^ 41 := by
    split_ifs <;> omega
  have hmp : 0 ≤ (if 2 < month then month - 3 else month + 9) ∧
      (if 2 < month then month - 3 else month + 9) ≤ 11 := by
    split_ifs <;> omega
  unfold daysFromCivilChecked daysFromCivil
  simp only [Option.bind_eq_bind]
  generalize (if month ≤ 2 then year - 1 else year) = march at hbounds ⊢
  generalize (if 2 < month then month - 3 else month + 9) = mp at hmp ⊢
  rw [i64_eq (n := march) (by omega) (by omega), Option.bind_some,
    i64_eq (n := mp) (by omega) (by omega), Option.bind_some,
    i64_eq (by omega) (by omega), Option.bind_some, i64_eq (by omega) (by omega), Option.bind_some,
    i64_eq (by omega) (by omega), Option.bind_some, i64_eq (by omega) (by omega), Option.bind_some,
    i64_eq (by omega) (by omega), Option.bind_some, i64_eq (by omega) (by omega), Option.bind_some,
    i64_eq (by omega) (by omega), Option.bind_some, i64_eq (by omega) (by omega), Option.bind_some,
    i64_eq (by omega) (by omega), Option.bind_some, i64_eq (by omega) (by omega), Option.bind_some,
    i64_eq (by omega) (by omega)]

lemma daysFromCivilChecked_first {i : ℤ} (hi : 0 ≤ i) (hday : firstDay i < 2 ^ 40) :
    daysFromCivilChecked (yearOf i) (monthOf i) 1 = some (firstDay i) := by
  have hfirst : i ≤ firstDay i := le_firstDay hi
  have hmonth : 1 ≤ monthOf i ∧ monthOf i ≤ 12 := by
    unfold monthOf
    omega
  have hyear : -2 ^ 40 ≤ yearOf i ∧ yearOf i < 2 ^ 40 := by
    unfold yearOf
    omega
  rw [daysFromCivilChecked_eq hmonth.1 hmonth.2 hyear.1 hyear.2, daysFromCivil_first]

lemma days_lt (nowMs : UInt64) : (nowMs.toNat : ℤ) / 86400000 < 2 ^ 38 := by
  have h := nowMs.toNat_lt
  omega

/-- The month start is the first day of the month of the clock's day. -/
lemma startOfMonthChecked_eq (nowMs : UInt64) {i : ℤ}
    (hle : firstDay i ≤ (nowMs.toNat : ℤ) / 86400000)
    (hlt : (nowMs.toNat : ℤ) / 86400000 < firstDay (i + 1)) :
    startOfMonthChecked nowMs.toNat = some (firstDay i * 86400000) := by
  have hdays := days_lt nowMs
  have hnow := nowMs.toNat_lt
  have hcast : ((nowMs.toNat : ℤ) / 86400000).bmod (2 ^ 64) = (nowMs.toNat : ℤ) / 86400000 := by
    rw [Int.bmod_eq_of_le] <;> omega
  have hdate : civilYearMonth ((nowMs.toNat : ℤ) / 86400000) = (yearOf i, monthOf i) := by
    obtain ⟨j, hdate, hle', hlt'⟩ := exists_month ((nowMs.toNat : ℤ) / 86400000)
    have hji : j < i + 1 := firstDay_strictMono.lt_iff_lt.mp (hle'.trans_lt hlt)
    have hij : i < j + 1 := firstDay_strictMono.lt_iff_lt.mp (hle.trans_lt hlt')
    obtain rfl : i = j := by omega
    exact hdate
  have hi : 0 ≤ i := zero_le_of_lt_firstDay (by omega) hlt
  have hfirst : i ≤ firstDay i := le_firstDay hi
  rw [startOfMonthChecked, hcast, civilYearMonthChecked_eq (by omega) (by omega), hdate]
  simp only [Option.bind_eq_bind, Option.bind_some]
  rw [daysFromCivilChecked_first hi (by omega), Option.bind_some,
    Int.emod_eq_of_lt (by omega) (by omega)]
  exact u64_eq (by omega) (by omega)

/-- The times at which the windows of a kind start. -/
def Boundary : WindowKind → ℤ → Prop
  | .daily, time => ∃ day, time = day * 86400000
  | .weekly, time => ∃ day, IsMonday day ∧ time = day * 86400000
  | .monthly, time => ∃ i, time = firstDay i * 86400000
  | .none, _ => False
  | .custom, _ => False

/-- The kinds of windows that follow the calendar. -/
def WindowKind.IsCalendar (kind : WindowKind) : Prop :=
  kind = .daily ∨ kind = .weekly ∨ kind = .monthly

/-- With no operation out of range, every calendar window starts at the last boundary up to now,
and dates and day counts are inverse on the firsts of the clock's months. -/
structure StartsOnCalendar (nowMs : UInt64) : Prop where
  start : ∀ w : WindowDef, w.kind.IsCalendar → ∃ start,
    windowStartChecked w nowMs = some (some start) ∧
      IsGreatest {time : ℤ | time ≤ nowMs.toNat ∧ Boundary w.kind time} start
  date : ∀ i, 0 ≤ i → firstDay i * 86400000 < 2 ^ 64 →
    civilYearMonthChecked (firstDay i) = some (yearOf i, monthOf i)
  day : ∀ i, 0 ≤ i → firstDay i * 86400000 < 2 ^ 64 →
    daysFromCivilChecked (yearOf i) (monthOf i) 1 = some (firstDay i)

lemma isGreatest_days {p : ℤ → Prop} {now day : ℤ}
    (h : IsGreatest {d | d ≤ now / 86400000 ∧ p d} day) :
    IsGreatest {time | time ≤ now ∧ ∃ d, p d ∧ time = d * 86400000} (day * 86400000) := by
  obtain ⟨⟨hle, hp⟩, hmax⟩ := h
  refine ⟨⟨by omega, day, hp, rfl⟩, ?_⟩
  rintro time ⟨htime, d, hd, rfl⟩
  have hday : d ≤ day := hmax ⟨by omega, hd⟩
  omega

lemma startOfDay_calendar (nowMs : UInt64) : ∃ start, startOfDayChecked nowMs.toNat = some start ∧
    IsGreatest {time : ℤ | time ≤ nowMs.toNat ∧ Boundary .daily time} start := by
  have hnow := nowMs.toNat_lt
  refine ⟨(nowMs.toNat : ℤ) / 86400000 * 86400000, u64_eq (by omega) (by omega), ?_, ?_⟩
  · exact ⟨by omega, _, rfl⟩
  · rintro time ⟨htime, day, rfl⟩
    omega

/-- In the first four days the Monday before them lies before the clock starts. -/
lemma startOfWeekChecked_eq_none {nowMs : UInt64} (h : nowMs.toNat < 345600000) :
    startOfWeekChecked nowMs.toNat = none := by
  rw [startOfWeekChecked]
  dsimp only
  rw [u64_eq (by omega) (by omega)]
  simp only [Option.bind_eq_bind, Option.bind_some]
  have hmonday : u64 ((nowMs.toNat : ℤ) / 86400000 - ((nowMs.toNat : ℤ) / 86400000 + 3) % 7)
      = none := if_neg (by omega)
  rw [hmonday]
  rfl

lemma startOfWeek_calendar {nowMs : UInt64} (h : 345600000 ≤ nowMs.toNat) :
    ∃ start, startOfWeekChecked nowMs.toNat = some start ∧
      IsGreatest {time : ℤ | time ≤ nowMs.toNat ∧ Boundary .weekly time} start := by
  have hnow := nowMs.toNat_lt
  refine ⟨((nowMs.toNat : ℤ) / 86400000 - ((nowMs.toNat : ℤ) / 86400000 + 3) % 7) * 86400000, ?_, ?_⟩
  · rw [startOfWeekChecked]
    dsimp only
    rw [u64_eq (by omega) (by omega)]
    simp only [Option.bind_eq_bind, Option.bind_some]
    rw [u64_eq (by omega) (by omega)]
    exact u64_eq (by omega) (by omega)
  · apply isGreatest_days
    unfold IsMonday
    refine ⟨⟨by omega, by omega⟩, ?_⟩
    rintro d ⟨hd, hmonday⟩
    omega

lemma startOfMonth_calendar (nowMs : UInt64) :
    ∃ start, startOfMonthChecked nowMs.toNat = some start ∧
      IsGreatest {time : ℤ | time ≤ nowMs.toNat ∧ Boundary .monthly time} start := by
  obtain ⟨i, -, hle, hlt⟩ := exists_month ((nowMs.toNat : ℤ) / 86400000)
  refine ⟨firstDay i * 86400000, startOfMonthChecked_eq nowMs hle hlt, ?_⟩
  obtain ⟨⟨hfirst, -⟩, hmax⟩ := isGreatest_days (isGreatest_firstDay hle hlt)
  refine ⟨⟨hfirst, i, rfl⟩, ?_⟩
  rintro time ⟨htime, j, rfl⟩
  exact hmax ⟨htime, firstDay j, ⟨j, rfl⟩, rfl⟩

/-- Calendar windows start on the calendar exactly from the first Monday of the clock on. -/
theorem window_starts_on_calendar_iff (nowMs : UInt64) :
    StartsOnCalendar nowMs ↔ 345600000 ≤ nowMs.toNat := by
  constructor
  · intro h
    by_contra hearly
    obtain ⟨start, hstart, -⟩ := h.start ⟨.weekly, "", false, 0, 0⟩ (Or.inr (Or.inl rfl))
    rw [windowStartChecked, startOfWeekChecked_eq_none (not_le.mp hearly)] at hstart
    cases hstart
  · intro h
    refine ⟨?_, fun i hi hclock => ?_, fun i hi hclock => daysFromCivilChecked_first hi (by omega)⟩
    swap
    · have hfirst : i ≤ firstDay i := le_firstDay hi
      rw [civilYearMonthChecked_eq (by omega) (by omega), civilYearMonth_firstDay]
    rintro ⟨kind, column, desc, startMs, endMs⟩ (rfl | rfl | rfl)
    · obtain ⟨start, hstart, hgreatest⟩ := startOfDay_calendar nowMs
      exact ⟨start, by simp only [windowStartChecked, hstart, Option.map_some], hgreatest⟩
    · obtain ⟨start, hstart, hgreatest⟩ := startOfWeek_calendar h
      exact ⟨start, by simp only [windowStartChecked, hstart, Option.map_some], hgreatest⟩
    · obtain ⟨start, hstart, hgreatest⟩ := startOfMonth_calendar nowMs
      exact ⟨start, by simp only [windowStartChecked, hstart, Option.map_some], hgreatest⟩

/-- On the first day of the clock the weekly window has no start. -/
theorem first_week_underflows : ¬ StartsOnCalendar 0 := by
  intro h
  obtain ⟨start, hstart, -⟩ := h.start ⟨.weekly, "", false, 0, 0⟩ (Or.inr (Or.inl rfl))
  have hnone : windowStartChecked ⟨.weekly, "", false, 0, 0⟩ 0 = none := by decide
  rw [hnone] at hstart
  cases hstart

end Checked

end NodedbLite.Sorted
