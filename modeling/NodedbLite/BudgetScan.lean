import Mathlib

/-! Reading rows in order while their number and their total size stay within two budgets. A read
with a larger budget on larger sizes, cut afterwards to the smaller budget, is the read with the
smaller budget. -/
namespace BudgetScan

variable {α β : Type*}

/-- The budget that excludes the next row. -/
inductive Limit
  | records
  | bytes
  deriving DecidableEq

/-- Read rows while `records` rows and `bytes` bytes last. -/
def read (size : α → Nat) : List α → Nat → Nat → List α × Option Limit
  | [], _, _ => ([], none)
  | _ :: _, 0, _ => ([], some .records)
  | r :: rs, records + 1, bytes =>
    if size r ≤ bytes then
      let (es, limit) := read size rs records (bytes - size r)
      (r :: es, limit)
    else ([], some .bytes)

/-- Keep the rows read until the next one exceeds `maxBytes`, counted from `used` on. -/
def fit (size : α → Nat) (maxBytes : Nat) (limit : Option Limit) :
    List α → Nat → List α × Option Limit
  | [], _ => ([], limit)
  | r :: rs, used =>
    if used + size r ≤ maxBytes then
      let (es, limit) := fit size maxBytes limit rs (used + size r)
      (r :: es, limit)
    else ([], some .bytes)

variable {size size' : α → Nat} {slack records bytes : Nat}

@[simp] lemma read_nil : read size [] records bytes = ([], none) := by
  cases records <;> rfl

lemma read_cons_of_le {r : α} {rs : List α} (h : size r ≤ bytes) :
    read size (r :: rs) (records + 1) bytes =
      (r :: (read size rs records (bytes - size r)).1,
        (read size rs records (bytes - size r)).2) := by
  rw [read, if_pos h]

lemma read_cons_of_lt {r : α} {rs : List α} (h : bytes < size r) :
    read size (r :: rs) (records + 1) bytes = ([], some .bytes) := by
  rw [read, if_neg (not_le.mpr h)]

/-- A read on sizes with a slack for every row, under a budget with the same slack or one that
nothing exceeds, excludes no row for its size that the cut would keep. -/
theorem fit_read {used maxBytes : Nat} {rs : List α}
    (hsize : ∀ r ∈ rs, size r ≤ size' r ∧ size' r ≤ size r + slack) (hused : used ≤ maxBytes)
    (hbytes : maxBytes - used + slack * records ≤ bytes ∨ (rs.map size').sum ≤ bytes) :
    fit size maxBytes (read size' rs records bytes).2 (read size' rs records bytes).1 used =
      read size rs records (maxBytes - used) := by
  induction rs generalizing records used bytes with
  | nil => simp [fit]
  | cons r rs ih =>
    obtain ⟨hle, hslack⟩ := hsize r List.mem_cons_self
    rw [List.map_cons, List.sum_cons] at hbytes
    cases records with
    | zero => rfl
    | succ records =>
      rw [Nat.mul_succ] at hbytes
      by_cases hfits : size r ≤ maxBytes - used
      · have hinner : size' r ≤ bytes := by omega
        have hrest : fit size maxBytes (read size' rs records (bytes - size' r)).2
            (read size' rs records (bytes - size' r)).1 (used + size r) =
              read size rs records (maxBytes - (used + size r)) :=
          ih (fun x hx => hsize x (List.mem_cons_of_mem _ hx)) (by omega) (by omega)
        rw [read_cons_of_le hinner, read_cons_of_le hfits, fit, if_pos (by omega), hrest,
          show maxBytes - used - size r = maxBytes - (used + size r) by omega]
      · rw [read_cons_of_lt (not_le.mp hfits)]
        by_cases hinner : size' r ≤ bytes
        · rw [read_cons_of_le hinner, fit, if_neg (by omega)]
        · rw [read_cons_of_lt (not_le.mp hinner), fit]

lemma read_isPrefix (rs : List α) : (read size rs records bytes).1 <+: rs := by
  induction rs generalizing records bytes with
  | nil => simp
  | cons r rs ih =>
    cases records with
    | zero => exact List.nil_prefix
    | succ records =>
      by_cases hfits : size r ≤ bytes
      · rw [read_cons_of_le hfits]
        exact (List.prefix_cons_inj r).mpr ih
      · rw [read_cons_of_lt (not_le.mp hfits)]
        exact List.nil_prefix

lemma length_read_le (rs : List α) : (read size rs records bytes).1.length ≤ records := by
  induction rs generalizing records bytes with
  | nil => simp
  | cons r rs ih =>
    cases records with
    | zero => exact le_rfl
    | succ records =>
      by_cases hfits : size r ≤ bytes
      · rw [read_cons_of_le hfits]
        exact Nat.succ_le_succ ih
      · rw [read_cons_of_lt (not_le.mp hfits)]
        exact Nat.zero_le _

lemma sum_read_le (rs : List α) : ((read size rs records bytes).1.map size).sum ≤ bytes := by
  induction rs generalizing records bytes with
  | nil => simp
  | cons r rs ih =>
    cases records with
    | zero => exact Nat.zero_le _
    | succ records =>
      by_cases hfits : size r ≤ bytes
      · rw [read_cons_of_le hfits, List.map_cons, List.sum_cons]
        have hrest := @ih records (bytes - size r)
        omega
      · rw [read_cons_of_lt (not_le.mp hfits)]
        exact Nat.zero_le _

lemma isPrefix_read {rs run : List α} (hrun : run <+: rs) (hrecords : run.length ≤ records)
    (hbytes : (run.map size).sum ≤ bytes) : run <+: (read size rs records bytes).1 := by
  induction rs generalizing run records bytes with
  | nil =>
    rw [List.prefix_nil.mp hrun]
    exact List.nil_prefix
  | cons r rs ih =>
    cases run with
    | nil => exact List.nil_prefix
    | cons x run =>
      obtain ⟨rfl, hrest⟩ := List.cons_prefix_cons.mp hrun
      rw [List.map_cons, List.sum_cons] at hbytes
      cases records with
      | zero => cases hrecords
      | succ records =>
        rw [read_cons_of_le (by omega)]
        exact (List.prefix_cons_inj x).mpr
          (ih hrest (Nat.le_of_succ_le_succ hrecords) (by omega))

lemma limit_eq_none_iff (rs : List α) :
    (read size rs records bytes).2 = none ↔ (read size rs records bytes).1 = rs := by
  induction rs generalizing records bytes with
  | nil => simp
  | cons r rs ih =>
    cases records with
    | zero => simp [read]
    | succ records =>
      by_cases hfits : size r ≤ bytes
      · rw [read_cons_of_le hfits, List.cons.injEq, ih]
        exact (and_iff_right rfl).symm
      · rw [read_cons_of_lt (not_le.mp hfits)]
        simp

lemma read_eq_nil_iff {r : α} {rs : List α} :
    (read size (r :: rs) (records + 1) bytes).1 = [] ↔ bytes < size r := by
  by_cases hfits : size r ≤ bytes
  · rw [read_cons_of_le hfits]
    simpa using hfits
  · rw [read_cons_of_lt (not_le.mp hfits)]
    simpa using hfits

lemma read_map {f : β → α} (rs : List β) :
    read size (rs.map f) records bytes =
      ((read (fun r => size (f r)) rs records bytes).1.map f,
        (read (fun r => size (f r)) rs records bytes).2) := by
  induction rs generalizing records bytes with
  | nil => simp
  | cons r rs ih =>
    cases records with
    | zero => rfl
    | succ records =>
      by_cases hfits : size (f r) ≤ bytes
      · rw [List.map_cons, read_cons_of_le hfits, read_cons_of_le (by exact hfits), ih]
        rfl
      · rw [List.map_cons, read_cons_of_lt (not_le.mp hfits),
          read_cons_of_lt (by exact not_le.mp hfits)]
        rfl

lemma read_congr {rs : List α} (h : ∀ r ∈ rs, size r = size' r) :
    read size rs records bytes = read size' rs records bytes := by
  induction rs generalizing records bytes with
  | nil => simp
  | cons r rs ih =>
    cases records with
    | zero => rfl
    | succ records =>
      rw [read, read, h r List.mem_cons_self, ih (fun x hx => h x (List.mem_cons_of_mem _ hx))]

lemma fit_isPrefix (maxBytes : Nat) (limit : Option Limit) (rs : List α) (used : Nat) :
    (fit size maxBytes limit rs used).1 <+: rs := by
  induction rs generalizing used with
  | nil => exact List.nil_prefix
  | cons r rs ih =>
    rw [fit]
    split
    next => exact (List.prefix_cons_inj r).mpr (ih _)
    next => exact List.nil_prefix

lemma size_le_of_mem_fit {maxBytes used : Nat} {limit : Option Limit} {rs : List α} {r : α}
    (h : r ∈ (fit size maxBytes limit rs used).1) : used + size r ≤ maxBytes := by
  induction rs generalizing used with
  | nil => cases h
  | cons x rs ih =>
    rw [fit] at h
    split at h
    next hfits =>
      rcases List.mem_cons.mp h with rfl | hmem
      · exact hfits
      · have hlater := ih hmem
        omega
    next => cases h

lemma fit_map {f : β → α} (maxBytes : Nat) (limit : Option Limit) (rs : List β) (used : Nat) :
    fit size maxBytes limit (rs.map f) used =
      ((fit (fun r => size (f r)) maxBytes limit rs used).1.map f,
        (fit (fun r => size (f r)) maxBytes limit rs used).2) := by
  induction rs generalizing used with
  | nil => rfl
  | cons r rs ih =>
    rw [List.map_cons, fit, fit]
    by_cases hfits : used + size (f r) ≤ maxBytes
    · rw [if_pos hfits, if_pos hfits, ih]
      rfl
    · rw [if_neg hfits, if_neg hfits]
      rfl

end BudgetScan
