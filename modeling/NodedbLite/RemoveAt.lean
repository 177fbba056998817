import Mathlib

/-! Removing elements of a list one after another at given positions, each position lowered by the
number of elements already removed. -/
namespace RemoveAt

variable {α : Type*} {p : α → Bool}

/-- The loop over the positions. A position behind the end is passed over. -/
def removeLoop : List Nat → Nat → List α → List α
  | [], _, l => l
  | i :: is, removed, l =>
    if i - min removed i < l.length then removeLoop is (removed + 1) (l.eraseIdx (i - min removed i))
    else removeLoop is removed l

/-- Every removal of the loop finds an element of a kind. -/
def HitsOnly (p : α → Bool) : List Nat → Nat → List α → Prop
  | [], _, _ => True
  | i :: is, removed, l =>
    (∃ x, l[i - min removed i]? = some x ∧ p x = true) ∧
      HitsOnly p is (removed + 1) (l.eraseIdx (i - min removed i))

/-- The positions are those of the list before anything was removed, and are not too many. -/
def Fits (is : List Nat) (removed : Nat) (l : List α) : Prop :=
  is.length ≤ l.length ∧ ∀ i ∈ is, i < l.length + removed

lemma Fits.lt {i : Nat} {is : List Nat} {removed : Nat} {l : List α}
    (h : Fits (i :: is) removed l) : i - min removed i < l.length := by
  have hlen := h.1
  have hi := h.2 i List.mem_cons_self
  rw [List.length_cons] at hlen
  omega

lemma Fits.step {i : Nat} {is : List Nat} {removed : Nat} {l : List α}
    (h : Fits (i :: is) removed l) : Fits is (removed + 1) (l.eraseIdx (i - min removed i)) := by
  have hlen := h.1
  rw [List.length_cons] at hlen
  rw [Fits, List.length_eraseIdx_of_lt h.lt]
  refine ⟨by omega, fun j hj => ?_⟩
  have := h.2 j (List.mem_cons_of_mem i hj)
  omega

lemma countP_eraseIdx {l : List α} {i : Nat} {x : α} (hx : l[i]? = some x) (q : α → Bool) :
    l.countP q = (l.eraseIdx i).countP q + if q x then 1 else 0 := by
  obtain ⟨hi, rfl⟩ := List.getElem?_eq_some_iff.mp hx
  have hperm := (List.getElem_cons_eraseIdx_perm hi).countP_eq q
  rw [← hperm, List.countP_cons]

lemma filter_eraseIdx {l : List α} {i : Nat} {x : α} (hx : l[i]? = some x) {q : α → Bool}
    (hq : q x = false) : (l.eraseIdx i).filter q = l.filter q := by
  induction l generalizing i with
  | nil => rfl
  | cons y ys ih =>
    cases i with
    | zero =>
      obtain rfl : y = x := by simpa using hx
      rw [List.eraseIdx_cons_zero, List.filter_cons_of_neg (by simp [hq])]
    | succ i =>
      rw [List.eraseIdx_cons_succ, List.filter_cons, List.filter_cons,
        ih (by simpa using hx)]

lemma removeLoop_sublist (is : List Nat) (removed : Nat) (l : List α) :
    (removeLoop is removed l).Sublist l := by
  induction is generalizing removed l with
  | nil => exact List.Sublist.refl l
  | cons i is ih =>
    rw [removeLoop]
    split_ifs with hlt
    · exact (ih _ _).trans (List.eraseIdx_sublist l _)
    · exact ih _ _

/-- As many removals as there are elements of the kind, each of one of them, leave the others. -/
theorem removeLoop_of_hitsOnly {is : List Nat} {removed : Nat} {l : List α}
    (h : HitsOnly p is removed l) (hcount : is.length = l.countP p) :
    removeLoop is removed l = l.filter (fun x => !p x) := by
  induction is generalizing removed l with
  | nil =>
    have hnone := List.countP_eq_zero.mp hcount.symm
    rw [removeLoop, List.filter_eq_self.mpr]
    intro x hx
    simpa using hnone x hx
  | cons i is ih =>
    obtain ⟨⟨x, hx, hpx⟩, hrest⟩ := h
    have hlt := (List.getElem?_eq_some_iff.mp hx).1
    have hstep := countP_eraseIdx hx p
    rw [hpx, if_pos rfl] at hstep
    rw [removeLoop, if_pos hlt, ih hrest (by rw [List.length_cons] at hcount; omega),
      filter_eraseIdx hx (by simp [hpx])]

/-- A loop that keeps all elements of the other kind removes none of them. -/
theorem hitsOnly_of_countP {is : List Nat} {removed : Nat} {l : List α} (hfits : Fits is removed l)
    (hkept : (removeLoop is removed l).countP (fun x => !p x) = l.countP (fun x => !p x)) :
    HitsOnly p is removed l := by
  induction is generalizing removed l with
  | nil => trivial
  | cons i is ih =>
    have hlt := hfits.lt
    have hx : l[i - min removed i]? = some (l.get ⟨_, hlt⟩) := List.getElem?_eq_getElem hlt
    have hstep := countP_eraseIdx hx (fun x => !p x)
    have hle := (removeLoop_sublist is (removed + 1)
      (l.eraseIdx (i - min removed i))).countP_le (p := fun x => !p x)
    rw [removeLoop, if_pos hlt] at hkept
    by_cases hpx : p (l.get ⟨_, hlt⟩) = true
    · refine ⟨⟨_, hx, hpx⟩, ih hfits.step ?_⟩
      rw [hkept, hstep, hpx]
      rfl
    · rw [Bool.not_eq_true] at hpx
      rw [hpx, Bool.not_false, if_pos rfl] at hstep
      omega

/-- The positions of the elements of a kind. -/
def places (p : α → Bool) (l : List α) : List Nat :=
  (List.range l.length).filter (fun i => (l[i]?).any p)

lemma places_append (a b : List α) :
    places p (a ++ b) = places p a ++ (places p b).map (a.length + ·) := by
  rw [places, List.length_append, List.range_add, List.filter_append, List.filter_map]
  congr 1
  · apply List.filter_congr
    intro i hi
    rw [List.getElem?_append_left (List.mem_range.mp hi)]
  · rw [places]
    congr 1
    apply List.filter_congr
    intro i _
    rw [Function.comp_apply, List.getElem?_append_right (Nat.le_add_right _ _),
      Nat.add_sub_cancel_left]

lemma places_eq_nil {l : List α} (h : ∀ x ∈ l, p x = false) : places p l = [] := by
  apply List.filter_eq_nil_iff.mpr
  intro i hi
  rw [List.getElem?_eq_getElem (List.mem_range.mp hi)]
  simp [h _ (List.getElem_mem _)]

lemma places_singleton {x : α} (hx : p x = true) : places p [x] = [0] := by
  simp [places, hx, List.range_succ]

lemma places_of_first {kept after : List α} {y : α} (hnot : ∀ z ∈ kept, p z = false)
    (hy : p y = true) :
    places p (kept ++ y :: after) = kept.length :: (places p after).map (kept.length + 1 + ·) := by
  have hcons : places p (y :: after) = 0 :: (places p after).map (1 + ·) := by
    rw [← List.singleton_append, places_append, places_singleton hy]
    rfl
  rw [places_append, places_eq_nil hnot, hcons]
  simp [Nat.add_assoc]

lemma filterMap_places (l : List α) : (places p l).filterMap (l[·]?) = l.filter p := by
  induction l using List.reverseRecOn with
  | nil => rfl
  | append_singleton l x ih =>
    have hsame : (places p l).filterMap ((l ++ [x])[·]?) = (places p l).filterMap (l[·]?) := by
      apply List.filterMap_congr
      intro i hi
      exact List.getElem?_append_left (List.mem_range.mp (List.mem_filter.mp hi).1)
    rw [places_append, List.filterMap_append, hsame, ih, List.filter_append]
    cases hx : p x with
    | true => simp [places_singleton, hx]
    | false => simp [places_eq_nil, hx]

lemma length_places (l : List α) : (places p l).length = l.countP p := by
  rw [List.countP_eq_length_filter, ← filterMap_places]
  refine (List.filterMap_length_eq_length.mpr fun i hi => ?_).symm
  rw [List.getElem?_eq_getElem (List.mem_range.mp (List.mem_filter.mp hi).1)]
  rfl

/-- Removals before an element that stays: the positions up to it are not more than the elements of
the kind there, since each of these positions is lowered to one before it. -/
lemma countP_le_of_hitsOnly {is : List Nat} {removed : Nat} {before after : List α} {x : α}
    (hx : p x = false) (h : HitsOnly p is removed (before ++ x :: after)) :
    is.countP (· ≤ before.length + removed) ≤ before.countP p := by
  induction is generalizing removed before after with
  | nil => exact Nat.zero_le _
  | cons i is ih =>
    obtain ⟨⟨y, hy, hpy⟩, hrest⟩ := h
    rw [List.countP_cons]
    rcases Nat.lt_trichotomy (i - min removed i) before.length with hlt | heq | hgt
    · rw [List.getElem?_append_left hlt] at hy
      rw [List.eraseIdx_append_of_lt_length hlt] at hrest
      have hcount := countP_eraseIdx hy p
      have hle := ih hrest
      rw [List.length_eraseIdx_of_lt hlt,
        show before.length - 1 + (removed + 1) = before.length + removed by omega] at hle
      rw [hpy, if_pos rfl] at hcount
      split_ifs <;> omega
    · rw [heq, List.getElem?_append_right le_rfl, Nat.sub_self] at hy
      obtain rfl : x = y := by simpa using hy
      rw [hx] at hpy
      cases hpy
    · obtain ⟨k, hk⟩ := Nat.exists_eq_add_of_lt hgt
      rw [List.eraseIdx_append_of_length_le hgt.le, show i - min removed i - before.length = k + 1 by
        omega, List.eraseIdx_cons_succ] at hrest
      have hmore : is.countP (· ≤ before.length + removed) ≤
          is.countP (· ≤ before.length + (removed + 1)) := by
        apply List.countP_mono_left
        intro j _ hj
        simp only [decide_eq_true_eq] at hj ⊢
        omega
      rw [if_neg (by simp; omega), Nat.add_zero]
      exact hmore.trans (ih hrest)

/-- The positions still to be removed from a list whose first part is all of the kind: as many in this
part as it has elements, whichever they are, and behind it exactly those of the elements of the kind,
as they were before the removals. -/
structure Stands (p : α → Bool) (is : List Nat) (removed : Nat) (first rest : List α) : Prop where
  first_all : ∀ x ∈ first, p x = true
  rest_head : ∀ x ∈ rest.head?, p x = false
  early : is.countP (· < first.length + removed) = first.length
  late : (is.filter (first.length + removed ≤ ·)).Perm
    ((places p rest).map (first.length + removed + ·))

section Stands

variable {i : Nat} {is : List Nat} {removed : Nat} {first rest : List α}

lemma Stands.lt_length (h : Stands p (i :: is) removed first rest)
    (hi : i < first.length + removed) : i - min removed i < first.length := by
  have hearly := h.early
  rw [List.countP_cons_of_pos (by simpa using hi)] at hearly
  omega

/-- A removal in the first part. -/
lemma Stands.step_early (h : Stands p (i :: is) removed first rest)
    (hi : i < first.length + removed) :
    Stands p is (removed + 1) (first.eraseIdx (i - min removed i)) rest := by
  have hlt := h.lt_length hi
  have hlen : (first.eraseIdx (i - min removed i)).length + (removed + 1) =
      first.length + removed := by
    rw [List.length_eraseIdx_of_lt hlt]
    omega
  refine ⟨fun x hx => h.first_all x ((List.eraseIdx_sublist _ _).subset hx), h.rest_head, ?_, ?_⟩
  · have hearly := h.early
    rw [List.countP_cons_of_pos (by simpa using hi)] at hearly
    rw [hlen, List.length_eraseIdx_of_lt hlt]
    omega
  · have hlate := h.late
    rw [List.filter_cons_of_neg (by simpa using hi)] at hlate
    rw [hlen]
    exact hlate

/-- Where the first element of the kind behind the first part stands. -/
lemma Stands.exists_least (h : Stands p is removed first rest) {j : Nat} (hj : j ∈ is)
    (hlate : first.length + removed ≤ j) :
    ∃ kept x y after, rest = (kept ++ [x]) ++ y :: after ∧ (∀ z ∈ kept ++ [x], p z = false) ∧
      p y = true ∧ (is.filter (first.length + removed ≤ ·)).Perm
        ((first.length + removed + (kept.length + 1)) :: (places p after).map
          (first.length + removed + (kept.length + 1) + 1 + ·)) := by
  have hmem := h.late.subset (List.mem_filter.mpr ⟨hj, by simpa using hlate⟩)
  obtain ⟨m, hm, -⟩ := List.mem_map.mp hmem
  have hne : rest.dropWhile (fun z => !p z) ≠ [] := by
    intro hnil
    have hall := List.dropWhile_eq_nil_iff.mp hnil
    rw [places_eq_nil (fun z hz => by simpa using hall z hz)] at hm
    cases hm
  obtain ⟨y, after, hsplit⟩ := List.exists_cons_of_ne_nil hne
  have hy : p y = true := by
    have hhead := List.head?_dropWhile_not (fun z => !p z) rest
    rw [hsplit] at hhead
    simpa using hhead
  have hnot : ∀ z ∈ rest.takeWhile (fun z => !p z), p z = false := by
    intro z hz
    simpa using List.mem_takeWhile_imp hz
  have hrest : rest = rest.takeWhile (fun z => !p z) ++ y :: after := by
    rw [← hsplit, List.takeWhile_append_dropWhile]
  rcases List.eq_nil_or_concat' (rest.takeWhile (fun z => !p z)) with hnil | ⟨kept, x, hkept⟩
  · rw [hnil] at hrest
    have := h.rest_head y (by rw [hrest]; rfl)
    rw [this] at hy
    cases hy
  · rw [hkept] at hrest hnot
    refine ⟨kept, x, y, after, hrest, hnot, hy, h.late.trans (List.Perm.of_eq ?_)⟩
    rw [hrest, places_of_first hnot hy]
    simp [Nat.add_assoc]

/-- A removal of the first element of the kind behind the first part. -/
lemma Stands.step_least {kept after : List α} {y : α}
    (h : Stands p (i :: is) removed first (kept ++ y :: after))
    (hi : i = first.length + removed + kept.length) (hne : kept ≠ [])
    (hnot : ∀ z ∈ kept, p z = false) (hy : p y = true)
    (hbeyond : ∀ j ∈ is, first.length + removed ≤ j → i < j) :
    Stands p is (removed + 1) first (kept ++ after) ∧
      is.filter (first.length + (removed + 1) ≤ ·) = is.filter (first.length + removed ≤ ·) := by
  have hlen : 0 < kept.length := List.length_pos_of_ne_nil hne
  have hsame : ∀ j ∈ is, (first.length + (removed + 1) ≤ j ↔ first.length + removed ≤ j) := by
    intro j hj
    refine ⟨fun hle => by omega, fun hle => ?_⟩
    have := hbeyond j hj hle
    omega
  have hfilter : is.filter (first.length + (removed + 1) ≤ ·) =
      is.filter (first.length + removed ≤ ·) :=
    List.filter_congr fun j hj => by rw [decide_eq_decide.mpr (hsame j hj)]
  refine ⟨⟨h.first_all, ?_, ?_, ?_⟩, hfilter⟩
  · obtain ⟨z, zs, rfl⟩ := List.exists_cons_of_ne_nil hne
    intro x hx
    obtain rfl : z = x := by simpa using hx
    exact hnot z List.mem_cons_self
  · have hearly := h.early
    rw [List.countP_cons_of_neg (by simp; omega)] at hearly
    rw [← hearly]
    apply List.countP_congr
    intro j hj
    have := hsame j hj
    simp only [decide_eq_true_eq]
    omega
  · have hlate := h.late
    rw [List.filter_cons_of_pos (by simp; omega), places_of_first hnot hy, List.map_cons, ← hi,
      List.map_map] at hlate
    rw [hfilter, places_append, places_eq_nil hnot, List.nil_append, List.map_map]
    refine hlate.cons_inv.trans (List.Perm.of_eq (List.map_congr_left fun m _ => ?_))
    simp only [Function.comp_apply]
    omega

/-- If another element of the kind stands before the one whose turn it is, a later removal misses: the
positions up to the element in front of it are too many. -/
lemma Stands.not_hitsOnly {kept after : List α} {x y : α}
    (h : Stands p (i :: is) removed first ((kept ++ [x]) ++ y :: after))
    (hnot : ∀ z ∈ kept ++ [x], p z = false)
    (hleast : first.length + removed + (kept.length + 1) ∈ is)
    (hi : first.length + removed + (kept.length + 1) < i) :
    ¬ HitsOnly p (i :: is) removed (first ++ ((kept ++ [x]) ++ y :: after)) := by
  rintro ⟨-, hrest⟩
  obtain ⟨k, hk⟩ : ∃ k, i - min removed i = (first ++ kept).length + (k + 1) :=
    ⟨i - min removed i - (first ++ kept).length - 1, by rw [List.length_append]; omega⟩
  have hsplit : first ++ ((kept ++ [x]) ++ y :: after) = (first ++ kept) ++ x :: y :: after := by
    simp
  rw [hsplit, hk, List.eraseIdx_append_of_length_le (Nat.le_add_right _ _),
    Nat.add_sub_cancel_left, List.eraseIdx_cons_succ] at hrest
  have hle := countP_le_of_hitsOnly (hnot x (by simp)) hrest
  have hkept : (first ++ kept).countP p = first.length := by
    rw [List.countP_append, List.countP_eq_length.mpr h.first_all,
      List.countP_eq_zero.mpr fun z hz => by simp [hnot z (List.mem_append_left _ hz)],
      Nat.add_zero]
  have hearly := h.early
  rw [List.countP_cons_of_neg (by simp; omega),
    (List.perm_cons_erase hleast).countP_eq, List.countP_cons_of_neg (by simp)] at hearly
  rw [hkept, (List.perm_cons_erase hleast).countP_eq,
    List.countP_cons_of_pos (by simp [Nat.add_assoc, Nat.add_left_comm])] at hle
  have hmore : (is.erase (first.length + removed + (kept.length + 1))).countP
      (· < first.length + removed) ≤ (is.erase (first.length + removed + (kept.length + 1))).countP
      (· ≤ (first ++ kept).length + (removed + 1)) := by
    apply List.countP_mono_left
    intro j _ hj
    simp only [decide_eq_true_eq, List.length_append] at hj ⊢
    omega
  omega

end Stands

/-- The removals find elements of the kind alone exactly if those behind the first part are removed
in the order in which they stand. -/
theorem hitsOnly_iff {is : List Nat} {removed : Nat} {first rest : List α}
    (h : Stands p is removed first rest) : HitsOnly p is removed (first ++ rest) ↔
      (is.filter (first.length + removed ≤ ·)).Pairwise (· < ·) := by
  induction is generalizing removed first rest with
  | nil => simp [HitsOnly]
  | cons i is ih =>
    by_cases hi : i < first.length + removed
    · -- A position in the first part finds one of its elements, which are all alike.
      have hlt := h.lt_length hi
      have hstep := ih (h.step_early hi)
      rw [List.length_eraseIdx_of_lt hlt,
        show first.length - 1 + (removed + 1) = first.length + removed by omega] at hstep
      rw [HitsOnly, List.eraseIdx_append_of_lt_length hlt, hstep,
        List.filter_cons_of_neg (by simpa using hi), and_iff_right]
      refine ⟨first.get ⟨_, hlt⟩, ?_, h.first_all _ (List.get_mem _ _)⟩
      rw [List.getElem?_append_left hlt]
      exact List.getElem?_eq_getElem hlt
    · rw [not_lt] at hi
      obtain ⟨kept, x, y, after, rfl, hnot, hy, hperm⟩ := h.exists_least List.mem_cons_self hi
      rw [List.filter_cons_of_pos (by simpa using hi)] at hperm ⊢
      have hbeyond : ∀ j, j ∈ i :: is.filter (first.length + removed ≤ ·) →
          j = first.length + removed + (kept.length + 1) ∨
            first.length + removed + (kept.length + 1) < j := by
        intro j hj
        rcases List.mem_cons.mp (hperm.subset hj) with heq | hmem
        · exact .inl heq
        · obtain ⟨m, -, rfl⟩ := List.mem_map.mp hmem
          exact .inr (by omega)
      by_cases hleast : i = first.length + removed + (kept.length + 1)
      · have hlater : ∀ j ∈ is.filter (first.length + removed ≤ ·), i < j := by
          intro j hj
          rw [← hleast] at hperm
          obtain ⟨m, -, rfl⟩ := List.mem_map.mp (hperm.cons_inv.subset hj)
          omega
        have hlen : i - min removed i = (first ++ (kept ++ [x])).length := by
          rw [List.length_append, List.length_append, List.length_singleton]
          omega
        obtain ⟨hstep, hfilter⟩ := h.step_least (by rw [hleast]; simp) (by simp) hnot hy
          fun j hj hle => hlater j (List.mem_filter.mpr ⟨hj, by simpa using hle⟩)
        rw [HitsOnly, hlen, ← List.append_assoc, List.eraseIdx_append_of_length_le le_rfl,
          List.getElem?_append_right le_rfl, Nat.sub_self, List.eraseIdx_cons_zero,
          List.append_assoc, ih hstep, hfilter, List.pairwise_cons, and_iff_right ⟨y, rfl, hy⟩,
          and_iff_right hlater]
      · have hlt := (hbeyond i List.mem_cons_self).resolve_left hleast
        have hmem := (List.mem_cons.mp (hperm.symm.subset List.mem_cons_self)).resolve_left
          (Ne.symm hleast)
        refine iff_of_false (h.not_hitsOnly hnot (List.mem_filter.mp hmem).1 hlt) fun hpair => ?_
        exact absurd ((List.pairwise_cons.mp hpair).1 _ hmem) hlt.not_gt

/-- The positions before and behind the first element of another kind. -/
lemma places_split (l : List α) : places p l = places p (l.takeWhile p) ++
    (places p (l.dropWhile p)).map ((l.takeWhile p).length + ·) := by
  rw [← places_append, List.takeWhile_append_dropWhile]

lemma filter_places_late (l : List α) : (places p l).filter ((l.takeWhile p).length ≤ ·) =
    (places p (l.dropWhile p)).map ((l.takeWhile p).length + ·) := by
  rw [places_split l, List.filter_append, List.filter_eq_nil_iff.mpr, List.filter_eq_self.mpr,
    List.nil_append]
  · simp
  · intro i hi
    simpa using List.mem_range.mp (List.mem_filter.mp hi).1

lemma stands_of_perm {is : List Nat} {l : List α} (h : is.Perm (places p l)) :
    Stands p is 0 (l.takeWhile p) (l.dropWhile p) := by
  have hfirst : ∀ x ∈ l.takeWhile p, p x = true := fun x hx => List.mem_takeWhile_imp hx
  refine ⟨hfirst, fun x hx => ?_, ?_, (h.filter _).trans (List.Perm.of_eq (filter_places_late l))⟩
  · have hhead := List.head?_dropWhile_not p l
    rw [Option.mem_def] at hx
    rw [hx] at hhead
    simpa using hhead
  · rw [h.countP_eq, places_split l, List.countP_append, List.countP_eq_length.mpr, length_places,
      List.countP_eq_length.mpr hfirst, List.countP_eq_zero.mpr, Nat.add_zero]
    · simp
    · intro i hi
      simpa using List.mem_range.mp (List.mem_filter.mp hi).1

lemma mergeSort_descends_iff {le : Nat → Nat → Bool}
    (htrans : ∀ i j k, le i j = true → le j k = true → le i k = true)
    (htotal : ∀ i j, (le i j || le j i) = true) {is : List Nat} (his : is.Pairwise (· < ·))
    (q : Nat → Bool) : ((is.mergeSort le).filter q).Pairwise (fun i j => j < i) ↔
      (is.filter q).Pairwise (fun i j => le i j = false) := by
  rw [List.pairwise_iff_forall_sublist, List.pairwise_iff_forall_sublist]
  constructor
  · intro h i j hsub
    by_contra hle
    rw [Bool.not_eq_false] at hle
    have hin : [i, j].Sublist is := hsub.trans List.filter_sublist
    have hsorted := (List.pair_sublist_mergeSort htrans htotal hle hin).filter q
    rw [List.filter_eq_self.mpr fun k hk => (List.mem_filter.mp (hsub.subset hk)).2] at hsorted
    exact (List.pairwise_iff_forall_sublist.mp his hin).asymm (h hsorted)
  · intro h a b hsub
    have hmem : ∀ k ∈ [a, b], k ∈ is.filter q := by
      intro k hk
      obtain ⟨hk, hq⟩ := List.mem_filter.mp (hsub.subset hk)
      exact List.mem_filter.mpr ⟨(List.mergeSort_perm is le).subset hk, hq⟩
    have hle : le a b = true := List.pairwise_iff_forall_sublist.mp
      (List.pairwise_mergeSort htrans htotal is) (hsub.trans List.filter_sublist)
    have hnodup : ((is.mergeSort le).filter q).Nodup :=
      ((List.mergeSort_perm is le).nodup_iff.mpr (his.imp Nat.ne_of_lt)).filter q
    have hne : a ≠ b := by
      rintro rfl
      exact List.pairwise_iff_forall_sublist.mp hnodup hsub rfl
    -- Positions that come in order are a pair of the sorted list, where the sort has them strictly.
    refine (Nat.lt_or_gt_of_ne hne).resolve_left fun hlt => ?_
    have hpair : [a, b].Sublist (is.filter q) := by
      refine List.sublist_of_subperm_of_pairwise (r := (· < ·)) ?_ (by simpa using hlt)
        (his.filter q)
      exact List.subperm_of_subset (by simpa using hne) hmem
    rw [h hpair] at hle
    cases hle

end RemoveAt
