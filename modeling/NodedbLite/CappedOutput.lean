import Mathlib.Tactic

/-! An output that is filled one element after another up to a cap. Whether it is full is asked after
each push, so a cap of zero stops behind the first element. -/
namespace CappedOutput

structure Output (α : Type*) where
  items : List α
  full : Bool

variable {α : Type*} (cap : Nat)

def Output.start : Output α := ⟨[], false⟩

@[simp] lemma Output.items_start : (Output.start : Output α).items = [] := rfl

def Output.push (s : Output α) (x : α) : Output α :=
  ⟨s.items ++ [x], cap ≤ s.items.length + 1⟩

/-- Push the elements until the output is full. -/
def Output.pushAll : List α → Output α → Output α
  | [], s => s
  | x :: xs, s => if s.full then s else Output.pushAll xs (s.push cap x)

/-- The flag tells whether the cap is reached, and the cap is not passed. -/
structure Output.Sound (s : Output α) : Prop where
  full_iff : s.full = true ↔ cap ≤ s.items.length
  length_le : s.items.length ≤ cap

variable {cap}

lemma Output.Sound.of_lt {s : Output α} (hfull : s.full = false) (h : s.items.length < cap) :
    s.Sound cap :=
  ⟨by simp [hfull, h], h.le⟩

lemma Output.Sound.push {s : Output α} (h : s.Sound cap) (hfull : s.full = false) (x : α) :
    (s.push cap x).Sound cap := by
  have hlt : ¬ cap ≤ s.items.length := by simpa [hfull] using h.full_iff
  constructor
  · simp [Output.push]
  · simp only [Output.push, List.length_append, List.length_singleton]
    omega

lemma Output.pushAll_cons {s : Output α} (hfull : s.full = false) (x : α) (xs : List α) :
    s.pushAll cap (x :: xs) = (s.push cap x).pushAll cap xs := by
  rw [Output.pushAll, if_neg (by simp [hfull])]

@[simp] lemma Output.pushAll_of_full {s : Output α} (hfull : s.full = true) (xs : List α) :
    s.pushAll cap xs = s := by
  cases xs with
  | nil => rfl
  | cons x xs => rw [Output.pushAll, if_pos hfull]

lemma Output.Sound.pushAll {s : Output α} (h : s.Sound cap) (xs : List α) :
    (s.pushAll cap xs).Sound cap := by
  induction xs generalizing s with
  | nil => exact h
  | cons x xs ih =>
    rw [Output.pushAll]
    split
    · exact h
    · rename_i hfull
      exact ih (h.push (by simpa using hfull) x)

/-- What is pushed is kept up to the cap. -/
theorem Output.Sound.items_pushAll {s : Output α} (h : s.Sound cap) (xs : List α) :
    (s.pushAll cap xs).items = (s.items ++ xs).take cap := by
  induction xs generalizing s with
  | nil => simp [Output.pushAll, List.take_of_length_le h.length_le]
  | cons x xs ih =>
    rw [Output.pushAll]
    split
    · rename_i hfull
      have hlen : s.items.length = cap := le_antisymm h.length_le (h.full_iff.mp hfull)
      rw [List.take_left' hlen]
    · rename_i hfull
      rw [ih (h.push (by simpa using hfull) x)]
      simp [Output.push]

lemma Output.pushAll_append (s : Output α) (xs ys : List α) :
    s.pushAll cap (xs ++ ys) = (s.pushAll cap xs).pushAll cap ys := by
  induction xs generalizing s with
  | nil => rfl
  | cons x xs ih =>
    rw [List.cons_append, Output.pushAll, Output.pushAll]
    split
    · rename_i hfull
      rw [Output.pushAll_of_full hfull]
    · exact ih _

/-- What is kept of the first n elements is the first n of those wanted exactly if both say the same of
the first n, and these are all wanted or nothing behind them is. -/
lemma filter_take_eq_iff {f s : α → Bool} {l : List α} {n : Nat} :
    (l.take n).filter f = (l.filter s).take n ↔ (∀ a ∈ l.take n, f a = s a) ∧
      ((∀ a ∈ l.take n, s a = true) ∨ ∀ a ∈ l.drop n, s a = false) := by
  have hfirst : (l.filter s).take n = (l.take n).filter s ++
      ((l.drop n).filter s).take (n - ((l.take n).filter s).length) := by
    conv_lhs => rw [← List.take_append_drop n l, List.filter_append, List.take_append]
    rw [List.take_of_length_le ((List.length_filter_le _ _).trans (List.length_take_le n l))]
  rw [hfirst]
  constructor
  · intro heq
    have hwanted : ∀ a ∈ l.take n, f a = true → s a = true := by
      intro a ha hf
      have hmem : a ∈ (l.take n).filter f := List.mem_filter.mpr ⟨ha, hf⟩
      rw [heq] at hmem
      rcases List.mem_append.mp hmem with hmem | hmem
      · exact (List.mem_filter.mp hmem).2
      · exact (List.mem_filter.mp (List.mem_of_mem_take hmem)).2
    have hle := List.countP_mono_left hwanted
    rw [List.countP_eq_length_filter, List.countP_eq_length_filter] at hle
    have hlen := congrArg List.length heq
    rw [List.length_append] at hlen
    have hnone : ((l.drop n).filter s).take (n - ((l.take n).filter s).length) = [] :=
      List.length_eq_zero_iff.mp (by omega)
    rw [hnone, List.append_nil] at heq
    refine ⟨fun a ha => ?_, ?_⟩
    · have hmem : a ∈ (l.take n).filter f ↔ a ∈ (l.take n).filter s := by rw [heq]
      rw [List.mem_filter, List.mem_filter] at hmem
      rw [Bool.eq_iff_iff]
      exact ⟨fun hf => (hmem.mp ⟨ha, hf⟩).2, fun hs => (hmem.mpr ⟨ha, hs⟩).2⟩
    · rcases List.take_eq_nil_iff.mp hnone with hfull | hempty
      · refine .inl (List.length_filter_eq_length_iff.mp (le_antisymm (List.length_filter_le _ _) ?_))
        exact (List.length_take_le n l).trans (Nat.le_of_sub_eq_zero hfull)
      · exact .inr fun a ha => by simpa using List.filter_eq_nil_iff.mp hempty a ha
  · rintro ⟨hsame, hrest⟩
    rw [List.filter_congr hsame]
    refine (List.append_right_eq_self.mpr ?_).symm
    rcases hrest with hall | hnone
    · by_cases hshort : l.length ≤ n
      · rw [List.drop_of_length_le hshort, List.filter_nil, List.take_nil]
      · rw [List.filter_eq_self.mpr hall, List.length_take_of_le (by omega), Nat.sub_self]
        rfl
    · have hempty : (l.drop n).filter s = [] :=
        List.filter_eq_nil_iff.mpr fun a ha => by simp [hnone a ha]
      rw [hempty, List.take_nil]

end CappedOutput
