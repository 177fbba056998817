import Mathlib.Tactic

/-! The first element of each class of a list, where two elements are of one class if a function gives
the same for them. -/
namespace FirstOfEach

variable {α β γ : Type*} [DecidableEq β] [DecidableEq γ] (f : α → β) (g : α → γ)

def firstOfEach : List α → List α
  | [] => []
  | x :: xs => x :: (firstOfEach xs).filter (fun y => f y ≠ f x)

/-- One pass over the list that remembers what it has seen. -/
def retainUnseen (seen : List β) : List α → List α
  | [] => []
  | x :: xs => if f x ∈ seen then retainUnseen seen xs else x :: retainUnseen (f x :: seen) xs

variable {f g}

lemma firstOfEach_sublist (l : List α) : (firstOfEach f l).Sublist l := by
  induction l with
  | nil => exact .slnil
  | cons x xs ih => exact (List.filter_sublist.trans ih).cons_cons x

/-- The pass keeps the first elements of the classes it has not seen. -/
theorem retainUnseen_eq (seen : List β) (l : List α) :
    retainUnseen f seen l = (firstOfEach f l).filter (fun x => f x ∉ seen) := by
  induction l generalizing seen with
  | nil => rfl
  | cons x xs ih =>
    rw [retainUnseen, firstOfEach, ih, ih]
    by_cases hx : f x ∈ seen
    · rw [if_pos hx, List.filter_cons_of_neg (by simp [hx]), List.filter_filter]
      apply List.filter_congr
      intro y _
      by_cases hy : f y = f x
      · simp [hy, hx]
      · simp [hy]
    · rw [if_neg hx, List.filter_cons_of_pos (by simp [hx]), List.filter_filter]
      congr 1
      apply List.filter_congr
      intro y _
      simp [Bool.and_comm]

lemma pairwise_firstOfEach (l : List α) : (firstOfEach f l).Pairwise (fun a b => f a ≠ f b) := by
  induction l with
  | nil => exact .nil
  | cons x xs ih =>
    refine .cons (fun y hy => ?_) (ih.filter _)
    exact Ne.symm (of_decide_eq_true (List.mem_filter.mp hy).2)

lemma exists_first {l : List α} {x : α} (hx : x ∈ l) : ∃ y ∈ firstOfEach f l, f y = f x := by
  induction l with
  | nil => exact absurd hx List.not_mem_nil
  | cons z zs ih =>
    by_cases hz : f x = f z
    · exact ⟨z, List.mem_cons_self, hz.symm⟩
    · have hmem : x ∈ zs := (List.mem_cons.mp hx).resolve_left (fun heq => hz (congrArg f heq))
      obtain ⟨y, hy, hyx⟩ := ih hmem
      refine ⟨y, List.mem_cons_of_mem _ (List.mem_filter.mpr ⟨hy, ?_⟩), hyx⟩
      exact decide_eq_true (hyx.symm ▸ hz)

lemma firstOfEach_concat (l : List α) (x : α) :
    firstOfEach f (l ++ [x]) = firstOfEach f l ++ if ∃ y ∈ l, f y = f x then [] else [x] := by
  induction l with
  | nil => simp [firstOfEach]
  | cons z zs ih =>
    rw [List.cons_append, firstOfEach, ih, firstOfEach, List.filter_append, List.cons_append]
    congr 2
    by_cases hzs : ∃ y ∈ zs, f y = f x
    · obtain ⟨y, hy, heq⟩ := hzs
      rw [if_pos ⟨y, hy, heq⟩, if_pos ⟨y, List.mem_cons_of_mem z hy, heq⟩]
      rfl
    · rw [if_neg hzs, List.filter_singleton]
      simp only [List.mem_cons, exists_eq_or_imp, hzs, or_false]
      by_cases hz : f z = f x
      · simp [hz]
      · simp [hz, Ne.symm hz]

/-- Two functions have the same first elements exactly if each element is of the class of an earlier
one for both or for neither. -/
theorem firstOfEach_eq_iff (l : List α) : firstOfEach f l = firstOfEach g l ↔
    ∀ before x after, l = before ++ x :: after →
      ((∃ y ∈ before, f y = f x) ↔ ∃ y ∈ before, g y = g x) := by
  induction l using List.reverseRecOn with
  | nil => simp [firstOfEach]
  | append_singleton l x ih =>
    have hsplit : (∀ before y after, l ++ [x] = before ++ y :: after →
          ((∃ z ∈ before, f z = f y) ↔ ∃ z ∈ before, g z = g y)) ↔
        firstOfEach f l = firstOfEach g l ∧ ((∃ z ∈ l, f z = f x) ↔ ∃ z ∈ l, g z = g x) := by
      rw [ih]
      constructor
      · intro h
        refine ⟨fun before y after hl => h before y (after ++ [x]) (by simp [hl]), h l x [] rfl⟩
      · rintro ⟨h, hx⟩ before y after hl
        rcases List.eq_nil_or_concat' after with rfl | ⟨after, w, rfl⟩
        · obtain ⟨rfl, hy⟩ := List.append_inj' hl rfl
          obtain rfl : x = y := by simpa using hy
          exact hx
        · rw [← List.cons_append, ← List.append_assoc] at hl
          exact h before y after (List.append_inj' hl rfl).1
    rw [hsplit, firstOfEach_concat, firstOfEach_concat]
    constructor
    · intro heq
      -- an element kept by one function only would be among those the other has kept before
      by_cases hf : ∃ y ∈ l, f y = f x <;> by_cases hg : ∃ y ∈ l, g y = g x
      · rw [if_pos hf, if_pos hg, List.append_nil, List.append_nil] at heq
        exact ⟨heq, iff_of_true hf hg⟩
      · rw [if_pos hf, if_neg hg, List.append_nil] at heq
        have hmem : x ∈ firstOfEach f l := by rw [heq]; simp
        exact absurd ⟨x, (firstOfEach_sublist l).subset hmem, rfl⟩ hg
      · rw [if_neg hf, if_pos hg, List.append_nil] at heq
        have hmem : x ∈ firstOfEach g l := by rw [← heq]; simp
        exact absurd ⟨x, (firstOfEach_sublist l).subset hmem, rfl⟩ hf
      · rw [if_neg hf, if_neg hg] at heq
        exact ⟨List.append_cancel_right heq, iff_of_false hf hg⟩
    · rintro ⟨heq, hx⟩
      rw [heq, if_congr hx rfl rfl]

end FirstOfEach
