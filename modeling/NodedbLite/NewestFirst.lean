import Mathlib

/-! Lists of stamped entries sorted newest first. Which of several entries with one stamp
comes first depends on the sort and on the order they were gathered in; with distinct stamps
nothing is left to either. -/

/-- A sort by descending stamp. -/
structure NewestSort (α : Type*) (stamp : α → Int) where
  sort : List α → List α
  perm : ∀ l, (sort l).Perm l
  sorted : ∀ l, (sort l).Pairwise (fun a b => stamp b ≤ stamp a)

namespace NewestSort

variable {α : Type*} {stamp : α → Int}

/-- The sort that keeps entries with one stamp in their order. -/
def stable (stamp : α → Int) : NewestSort α stamp where
  sort l := l.insertionSort (fun a b => stamp b ≤ stamp a)
  perm l := List.perm_insertionSort _ l
  sorted l := by
    have htotal : Std.Total (fun a b : α => stamp b ≤ stamp a) := ⟨fun a b => le_total _ _⟩
    have htrans : IsTrans α (fun a b => stamp b ≤ stamp a) :=
      ⟨fun a b c hab hbc => le_trans hbc hab⟩
    exact List.pairwise_insertionSort (fun a b : α => stamp b ≤ stamp a) l

/-- The newest entry, by this sort. -/
def newest (s : NewestSort α stamp) (l : List α) : Option α := (s.sort l).head?

lemma newest_eq_none {s : NewestSort α stamp} {l : List α} : s.newest l = none ↔ l = [] := by
  rw [newest, List.head?_eq_none_iff]
  constructor
  · intro h
    have hperm := s.perm l
    rw [h] at hperm
    exact hperm.nil_eq.symm
  · rintro rfl
    exact (s.perm []).eq_nil

lemma newest_spec {s : NewestSort α stamp} {l : List α} {a : α} (h : s.newest l = some a) :
    a ∈ l ∧ ∀ b ∈ l, stamp b ≤ stamp a := by
  rw [newest, List.head?_eq_some_iff] at h
  obtain ⟨rest, hrest⟩ := h
  have hperm := s.perm l
  have hsorted := s.sorted l
  rw [hrest] at hperm hsorted
  refine ⟨hperm.mem_iff.mp List.mem_cons_self, ?_⟩
  intro b hb
  rcases List.mem_cons.mp (hperm.mem_iff.mpr hb) with rfl | hb
  · exact le_rfl
  · exact (List.pairwise_cons.mp hsorted).1 b hb

lemma newest_eq_some_of_lt {s : NewestSort α stamp} {l : List α} {a : α} (ha : a ∈ l)
    (h : ∀ b ∈ l, b ≠ a → stamp b < stamp a) : s.newest l = some a := by
  cases hn : s.newest l with
  | none =>
    rw [newest_eq_none.mp hn] at ha
    cases ha
  | some b =>
    obtain ⟨hb, hmax⟩ := newest_spec hn
    by_contra hne
    have hlt := h b hb (fun heq => hne (by rw [heq]))
    exact absurd (hmax a ha) (not_le.mpr hlt)

lemma newest_eq_of_perm (s s' : NewestSort α stamp) {l l' : List α} (hperm : l.Perm l')
    (hdistinct : (l.map stamp).Nodup) : s.newest l = s'.newest l' := by
  cases hn : s.newest l with
  | none =>
    obtain rfl := newest_eq_none.mp hn
    obtain rfl := hperm.nil_eq
    exact (newest_eq_none.mpr rfl).symm
  | some a =>
    obtain ⟨ha, hmax⟩ := newest_spec hn
    symm
    apply newest_eq_some_of_lt (hperm.mem_iff.mp ha)
    intro b hb hne
    have hmem := hperm.mem_iff.mpr hb
    apply lt_of_le_of_ne (hmax b hmem)
    intro heq
    exact hne (List.inj_on_of_nodup_map hdistinct hmem ha heq)

lemma newest_map {β : Type*} {stamp' : β → Int} (s : NewestSort α stamp) (s' : NewestSort β stamp')
    {f : β → α} (hf : ∀ b, stamp (f b) = stamp' b) {l : List β} (hdistinct : (l.map stamp').Nodup) :
    s.newest (l.map f) = (s'.newest l).map f := by
  cases hn : s'.newest l with
  | none =>
    obtain rfl := newest_eq_none.mp hn
    exact newest_eq_none.mpr rfl
  | some b =>
    obtain ⟨hb, hmax⟩ := newest_spec hn
    apply newest_eq_some_of_lt (List.mem_map_of_mem hb)
    intro a ha hne
    obtain ⟨c, hc, rfl⟩ := List.mem_map.mp ha
    rw [hf, hf]
    apply lt_of_le_of_ne (hmax c hc)
    intro heq
    exact hne (congrArg f (List.inj_on_of_nodup_map hdistinct hc hb heq))

end NewestSort
