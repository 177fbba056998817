import NodedbLite.FirstOfEach

/-! How often the elements of a list occur in what one pass over it keeps: a pass that uses up a table
of counts, and a pass that keeps the first element of each class. -/
namespace Multiplicity

open FirstOfEach

variable {α β : Type*} [DecidableEq β] {f : α → β}

/-- How many elements of a list are of one class. -/
def classCount (f : α → β) (l : List α) (k : β) : Nat := l.countP (fun x => f x = k)

lemma classCount_cons (x : α) (l : List α) (k : β) :
    classCount f (x :: l) k = classCount f l k + if f x = k then 1 else 0 := by
  simp [classCount, List.countP_cons]

/-- The elements that find a count of their class to use up, and the others. -/
def consume (f : α → β) (counts : β → Nat) : List α → List α × List α
  | [] => ([], [])
  | x :: xs =>
    if 0 < counts (f x) then
      let rest := consume f (Function.update counts (f x) (counts (f x) - 1)) xs
      (x :: rest.1, rest.2)
    else
      let rest := consume f counts xs
      (rest.1, x :: rest.2)

/-- What is taken is as much as there is, and as much as the table allows. -/
theorem classCount_consume (counts : β → Nat) (l : List α) (k : β) :
    classCount f (consume f counts l).1 k = min (classCount f l k) (counts k) ∧
      classCount f (consume f counts l).2 k = classCount f l k - counts k := by
  induction l generalizing counts with
  | nil => simp [consume, classCount]
  | cons x xs ih =>
    by_cases hx : 0 < counts (f x)
    · obtain ⟨htaken, hleft⟩ := ih (Function.update counts (f x) (counts (f x) - 1))
      simp only [consume, if_pos hx, classCount_cons, htaken, hleft]
      by_cases hk : f x = k
      · subst hk
        simp only [Function.update_self, if_true]
        omega
      · simp only [Function.update_of_ne (Ne.symm hk), if_neg hk]
        omega
    · obtain ⟨htaken, hleft⟩ := ih counts
      simp only [consume, if_neg hx, classCount_cons, htaken, hleft]
      by_cases hk : f x = k
      · subst hk
        simp only [if_true]
        omega
      · simp only [if_neg hk]
        omega

lemma consume_sublist (counts : β → Nat) (l : List α) :
    (consume f counts l).1.Sublist l ∧ (consume f counts l).2.Sublist l := by
  induction l generalizing counts with
  | nil => exact ⟨.slnil, .slnil⟩
  | cons x xs ih =>
    by_cases hx : 0 < counts (f x)
    · obtain ⟨htaken, hleft⟩ := ih (Function.update counts (f x) (counts (f x) - 1))
      simp only [consume, if_pos hx]
      exact ⟨htaken.cons_cons x, hleft.cons x⟩
    · obtain ⟨htaken, hleft⟩ := ih counts
      simp only [consume, if_neg hx]
      exact ⟨htaken.cons x, hleft.cons_cons x⟩

/-- The classes of `f` within a list are its elements. -/
def Separates (f : α → β) (l : List α) : Prop := ∀ a ∈ l, ∀ b ∈ l, f a = f b → a = b

variable [BEq α] [LawfulBEq α]

lemma count_eq_classCount {l u : List α} (hsep : Separates f u) (hsub : l ⊆ u) {x : α}
    (hx : x ∈ u) : l.count x = classCount f l (f x) := by
  rw [List.count, classCount]
  apply List.countP_congr
  intro y hy
  simp only [beq_iff_eq, decide_eq_true_eq]
  exact ⟨congrArg f, hsep y (hsub hy) x hx⟩

lemma firstOfEach_ordered (l : List α) :
    (firstOfEach f l).Pairwise (fun a b => l.idxOf a < l.idxOf b) := by
  induction l with
  | nil => exact .nil
  | cons x xs ih =>
    have hne : ∀ y ∈ (firstOfEach f xs).filter (fun y => f y ≠ f x), y ≠ x := by
      rintro y hy rfl
      simp at hy
    refine .cons (fun y hy => ?_) ((ih.filter _).imp_of_mem fun ha hb hlt => ?_)
    · rw [List.idxOf_cons_self, List.idxOf_cons_ne _ (hne y hy).symm]
      exact Nat.succ_pos _
    · rw [List.idxOf_cons_ne _ (hne _ ha).symm, List.idxOf_cons_ne _ (hne _ hb).symm]
      exact Nat.succ_lt_succ hlt

omit [BEq α] [LawfulBEq α] in
lemma firstOfEach_filter (p : β → Bool) (l : List α) :
    firstOfEach f (l.filter (fun x => p (f x))) = (firstOfEach f l).filter (fun x => p (f x)) := by
  induction l with
  | nil => rfl
  | cons x xs ih =>
    by_cases hx : p (f x) = true
    · rw [List.filter_cons_of_pos (p := fun x => p (f x)) hx, firstOfEach, firstOfEach,
        List.filter_cons_of_pos (p := fun x => p (f x)) hx, ih, List.filter_filter,
        List.filter_filter]
      simp only [Bool.and_comm]
    · rw [List.filter_cons_of_neg (p := fun x => p (f x)) hx, firstOfEach,
        List.filter_cons_of_neg (p := fun x => p (f x)) hx, ih, List.filter_filter]
      apply List.filter_congr
      intro y _
      by_cases hy : f y = f x
      · simp [hy, hx]
      · simp [hy]

omit [BEq α] [LawfulBEq α] in
lemma mem_firstOfEach {l : List α} (hsep : Separates f l) {x : α} : x ∈ firstOfEach f l ↔ x ∈ l := by
  refine ⟨fun h => (firstOfEach_sublist l).subset h, fun h => ?_⟩
  obtain ⟨y, hy, hyx⟩ := exists_first (f := f) h
  exact hsep y ((firstOfEach_sublist l).subset hy) x h hyx ▸ hy

/-- The counts of all elements of a list, taken over keys that cover it, make up its length. -/
lemma sum_map_count {β : Type*} [hbeq : BEq β] [LawfulBEq β] {keys l : List β} (hkeys : keys.Nodup)
    (hmem : ∀ a ∈ l, a ∈ keys) : (keys.map (fun a => l.count a)).sum = l.length := by
  classical
  obtain rfl : hbeq = instBEqOfDecidableEq := lawful_beq_subsingleton _ _
  have hcover : ∀ a ∈ (↑l : Multiset β), a ∈ keys.toFinset :=
    fun a ha => List.mem_toFinset.mpr (hmem a (Multiset.mem_coe.mp ha))
  have hcard := Multiset.sum_count_eq_card hcover
  rw [List.sum_toFinset _ hkeys, Multiset.coe_card] at hcard
  simpa only [Multiset.coe_count] using hcard

end Multiplicity
