import Mathlib.Tactic

/-! Stable sorting by a comparator. Sorting by one comparator is sorting by another with the same ties
exactly if the two agree on the elements. -/
namespace StableSort

variable {α : Type*} (cmp : α → α → Ordering)

def sort (l : List α) : List α := l.mergeSort (fun a b => (cmp a b).isLE)

/-- A permutation of the input in the order of the comparator, in which tied elements keep their
order. -/
structure IsStableSort (input output : List α) : Prop where
  perm : output.Perm input
  sorted : output.Pairwise (fun a b => (cmp a b).isLE)
  stable : ∀ a, output.filter (fun b => cmp a b = .eq) = input.filter (fun b => cmp a b = .eq)

lemma swap_eq [Std.OrientedCmp cmp] (a b : α) : cmp b a = (cmp a b).swap := Std.OrientedCmp.eq_swap

variable {cmp}

lemma isLE_total [Std.TransCmp cmp] (a b : α) : ((cmp a b).isLE || (cmp b a).isLE) = true := by
  rw [swap_eq cmp a b]
  cases cmp a b <;> rfl

lemma isLE_of_tied [Std.TransCmp cmp] {a b c : α} (hb : cmp a b = .eq) (hc : cmp a c = .eq) :
    (cmp b c).isLE = true := by
  have hba : (cmp b a).isLE = true := by
    rw [swap_eq cmp a b, hb]
    rfl
  exact Std.TransCmp.isLE_trans hba (by rw [hc]; rfl)

theorem isStableSort_sort [Std.TransCmp cmp] (l : List α) : IsStableSort cmp l (sort cmp l) := by
  have htrans : ∀ a b c : α, (cmp a b).isLE = true → (cmp b c).isLE = true → (cmp a c).isLE = true :=
    fun _ _ _ => Std.TransCmp.isLE_trans
  have hperm : (sort cmp l).Perm l := List.mergeSort_perm l _
  refine ⟨hperm, List.pairwise_mergeSort htrans isLE_total l, fun a => ?_⟩
  -- the tied elements are sorted as they stand, so they stay a sublist
  have htied : (l.filter (fun b => cmp a b = .eq)).Pairwise (fun b c => (cmp b c).isLE = true) := by
    apply List.pairwise_of_forall_mem_list
    intro b hb c hc
    exact isLE_of_tied (of_decide_eq_true (List.mem_filter.mp hb).2)
      (of_decide_eq_true (List.mem_filter.mp hc).2)
  have hsub : (l.filter (fun b => cmp a b = .eq)).Sublist (sort cmp l) :=
    List.sublist_mergeSort htrans isLE_total htied List.filter_sublist
  have hfilter := hsub.filter (fun b => cmp a b = .eq)
  rw [List.filter_filter] at hfilter
  simp only [Bool.and_self] at hfilter
  exact (hfilter.eq_of_length (hperm.filter _).length_eq.symm).symm

lemma pairwise_or {R : α → α → Prop} {l : List α} (h : l.Pairwise R) {a b : α} (ha : a ∈ l) (hb : b ∈ l)
    (hne : a ≠ b) : R a b ∨ R b a := by
  induction h with
  | nil => exact absurd ha List.not_mem_nil
  | cons hhead _ ih =>
    rcases List.mem_cons.mp ha with rfl | hin
    · exact .inl (hhead b ((List.mem_cons.mp hb).resolve_left (Ne.symm hne)))
    · rcases List.mem_cons.mp hb with rfl | hin'
      · exact .inr (hhead a hin)
      · exact ih hin hin'

lemma agree_of_sorted {cmp' : α → α → Ordering} [Std.TransCmp cmp] [Std.TransCmp cmp']
    (hties : ∀ a b, cmp a b = .eq ↔ cmp' a b = .eq) {l : List α}
    (h : l.Pairwise (fun a b => (cmp a b).isLE)) (h' : l.Pairwise (fun a b => (cmp' a b).isLE))
    {a b : α} (ha : a ∈ l) (hb : b ∈ l) : cmp a b = cmp' a b := by
  by_cases hab : a = b
  · subst hab
    have hself : cmp a a = .eq := Std.ReflCmp.compare_self
    rw [hself, (hties a a).mp hself]
  · have hboth := pairwise_or (h.and h') ha hb hab
    rw [swap_eq cmp a b, swap_eq cmp' a b] at hboth
    have hties := hties a b
    revert hboth hties
    cases cmp a b <;> cases cmp' a b <;> simp

theorem sort_isStableSort_iff {cmp' : α → α → Ordering} [Std.TransCmp cmp] [Std.TransCmp cmp']
    (hties : ∀ a b, cmp a b = .eq ↔ cmp' a b = .eq) (l : List α) :
    IsStableSort cmp' l (sort cmp l) ↔ ∀ a ∈ l, ∀ b ∈ l, cmp a b = cmp' a b := by
  have hsort : IsStableSort cmp l (sort cmp l) := isStableSort_sort l
  constructor
  · intro h' a ha b hb
    exact agree_of_sorted hties hsort.sorted h'.sorted (hsort.perm.mem_iff.mpr ha)
      (hsort.perm.mem_iff.mpr hb)
  · intro hagree
    refine ⟨hsort.perm, ?_, fun a => ?_⟩
    · refine hsort.sorted.imp_of_mem ?_
      intro a b ha hb hle
      rwa [← hagree a (hsort.perm.mem_iff.mp ha) b (hsort.perm.mem_iff.mp hb)]
    · simp only [← hties]
      exact hsort.stable a

end StableSort
