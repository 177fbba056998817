import Mathlib

/-! Tables of rows with a key, at most one live row to a key, and the way append-only stores
keep them: every row ever written stays where it was placed, a mark says that it was deleted
or replaced, and an index leads from a key to the place of its live row. -/

/-- The rows a table holds, and those it held once. -/
structure KeyedTable (R : Type*) where
  live : List R
  removed : List R
  deriving DecidableEq, Repr

namespace KeyedTable

variable {R K L : Type*}

def empty : KeyedTable R := ⟨[], []⟩

/-- Delete the row of a key, if there is one. -/
def remove [DecidableEq K] (keyOf : R → K) (k : K) (t : KeyedTable R) : KeyedTable R where
  live := t.live.filter (fun r => keyOf r ≠ k)
  removed := t.removed ++ t.live.filter (fun r => keyOf r = k)

/-- Insert a row, in place of the one with its key. -/
def insert [DecidableEq K] (keyOf : R → K) (r : R) (t : KeyedTable R) : KeyedTable R where
  live := (t.remove keyOf (keyOf r)).live ++ [r]
  removed := (t.remove keyOf (keyOf r)).removed

/-- The placed rows whose place has this mark. -/
def rowsMarked (placed : List (L × R)) (marked : L → Bool) (mark : Bool) : List R :=
  (placed.filter (fun e => marked e.1 = mark)).map Prod.snd

/-- A table as placed rows, marks and an index. -/
structure Represents (keyOf : R → K) (placed : List (L × R)) (marked : L → Bool)
    (index : K → Option L) (t : KeyedTable R) : Prop where
  places_nodup : (placed.map Prod.fst).Nodup
  index_iff : ∀ k l, index k = some l ↔ ∃ r, (l, r) ∈ placed ∧ keyOf r = k ∧ marked l = false
  live : t.live.Perm (rowsMarked placed marked false)
  removed : t.removed.Perm (rowsMarked placed marked true)

variable {keyOf : R → K} {placed : List (L × R)} {marked : L → Bool} {index : K → Option L}
  {t : KeyedTable R}

lemma rowsMarked_perm (placed : List (L × R)) (marked : L → Bool) :
    (placed.map Prod.snd).Perm
      (rowsMarked placed marked false ++ rowsMarked placed marked true) := by
  rw [rowsMarked, rowsMarked, ← List.map_append]
  apply List.Perm.map
  have hsplit := List.filter_append_perm (fun e => decide (marked e.1 = false)) placed
  refine hsplit.symm.trans (List.Perm.append_left _ (List.Perm.of_eq ?_))
  apply List.filter_congr
  intro e _
  cases marked e.1 <;> rfl

lemma Represents.rows_perm (h : Represents keyOf placed marked index t) :
    (placed.map Prod.snd).Perm (t.live ++ t.removed) :=
  (rowsMarked_perm placed marked).trans (h.live.symm.append h.removed.symm)

lemma Represents.perm_live_iff (h : Represents keyOf placed marked index t) :
    (placed.map Prod.snd).Perm t.live ↔ t.removed = [] := by
  constructor
  · intro hperm
    have hlen := hperm.length_eq.symm.trans h.rows_perm.length_eq
    rw [List.length_append] at hlen
    exact List.length_eq_zero_iff.mp (by omega)
  · intro hnone
    simpa [hnone] using h.rows_perm

lemma eq_of_mem_placed (hnodup : (placed.map Prod.fst).Nodup) {l : L} {r s : R}
    (hr : (l, r) ∈ placed) (hs : (l, s) ∈ placed) : r = s := by
  have heq := List.inj_on_of_nodup_map hnodup hr hs rfl
  exact (Prod.ext_iff.mp heq).2

lemma Represents.key_eq_iff (h : Represents keyOf placed marked index t) {k : K} {l : L}
    (hl : index k = some l) {e : L × R} (he : e ∈ placed) (hlive : marked e.1 = false) :
    keyOf e.2 = k ↔ e.1 = l := by
  constructor
  · intro hk
    have hindex := (h.index_iff k e.1).mpr ⟨e.2, he, hk, hlive⟩
    exact Option.some.inj (hindex.symm.trans hl)
  · intro hplace
    obtain ⟨r, hr, hk, _⟩ := (h.index_iff k l).mp hl
    have hsame := eq_of_mem_placed h.places_nodup (hplace ▸ he : (l, e.2) ∈ placed) hr
    rw [hsame, hk]

lemma Represents.remove_of_absent [DecidableEq K] (h : Represents keyOf placed marked index t) {k : K}
    (hk : index k = none) : t.remove keyOf k = t := by
  have habsent : ∀ r ∈ t.live, keyOf r ≠ k := by
    intro r hr hkey
    obtain ⟨e, he, rfl⟩ := List.mem_map.mp (h.live.mem_iff.mp hr)
    obtain ⟨hplaced, hmark⟩ := List.mem_filter.mp he
    have hindex := (h.index_iff k e.1).mpr ⟨e.2, hplaced, hkey, by simpa using hmark⟩
    rw [hk] at hindex
    cases hindex
  have hkept : t.live.filter (fun r => keyOf r ≠ k) = t.live :=
    List.filter_eq_self.mpr fun r hr => by simpa using habsent r hr
  have hnone : t.live.filter (fun r => keyOf r = k) = [] :=
    List.filter_eq_nil_iff.mpr fun r hr => by simpa using habsent r hr
  rw [remove, hkept, hnone, List.append_nil]

lemma filter_or_perm {α : Type*} (p q : α → Bool) (l : List α) :
    (l.filter p ++ l.filter (fun a => !p a && q a)).Perm (l.filter (fun a => p a || q a)) := by
  have hsplit := List.filter_append_perm p (l.filter (fun a => p a || q a))
  rw [List.filter_filter, List.filter_filter] at hsplit
  refine (List.Perm.of_eq ?_).trans hsplit
  congr 1
  · exact List.filter_congr fun a _ => by cases p a <;> rfl
  · exact List.filter_congr fun a _ => by cases p a <;> rfl

lemma Represents.mark [DecidableEq K] [DecidableEq L]
    (h : Represents keyOf placed marked index t) {k : K} {l : L} (hl : index k = some l)
    {marked' : L → Bool} (hmarked : ∀ p, marked' p = (marked p || decide (p = l)))
    {index' : K → Option L} (hindex : ∀ j, index' j = if j = k then none else index j) :
    Represents keyOf placed marked' index' (t.remove keyOf k) where
  places_nodup := h.places_nodup
  index_iff := by
    intro j p
    rw [hindex, hmarked]
    constructor
    · intro hj
      split at hj
      next => cases hj
      next hne =>
        obtain ⟨r, hr, hkey, hmark⟩ := (h.index_iff j p).mp hj
        refine ⟨r, hr, hkey, ?_⟩
        have hplace : p ≠ l := fun heq => hne (hkey.symm.trans ((h.key_eq_iff hl hr hmark).mpr heq))
        simp [hmark, hplace]
    · rintro ⟨r, hr, hkey, hmark⟩
      obtain ⟨hmark, hplace⟩ := Bool.or_eq_false_iff.mp hmark
      have hne : j ≠ k := fun heq =>
        of_decide_eq_false hplace ((h.key_eq_iff hl hr hmark).mp (hkey.trans heq))
      rw [if_neg hne]
      exact (h.index_iff j p).mpr ⟨r, hr, hkey, hmark⟩
  live := by
    refine (h.live.filter _).trans (List.Perm.of_eq ?_)
    rw [rowsMarked, rowsMarked, List.filter_map, List.filter_filter]
    congr 1
    apply List.filter_congr
    intro e he
    rw [hmarked]
    cases hmark : marked e.1 with
    | true => simp
    | false =>
      have hkey := h.key_eq_iff hl he hmark
      simp [hkey]
  removed := by
    have hgone : (t.live.filter (fun r => keyOf r = k)).Perm
        ((placed.filter (fun e => !marked e.1 && decide (e.1 = l))).map Prod.snd) := by
      refine (h.live.filter _).trans (List.Perm.of_eq ?_)
      rw [rowsMarked, List.filter_map, List.filter_filter]
      congr 1
      apply List.filter_congr
      intro e he
      cases hmark : marked e.1 with
      | true => simp
      | false =>
        have hkey := h.key_eq_iff hl he hmark
        simp [hkey]
    refine (h.removed.append hgone).trans ?_
    rw [rowsMarked, rowsMarked, ← List.map_append]
    apply List.Perm.map
    have hor := filter_or_perm (fun e : L × R => marked e.1) (fun e => decide (e.1 = l)) placed
    simpa [hmarked] using hor

lemma Represents.of_perm (h : Represents keyOf placed marked index t) {placed' : List (L × R)}
    (hperm : placed.Perm placed') : Represents keyOf placed' marked index t where
  places_nodup := (hperm.map Prod.fst).nodup_iff.mp h.places_nodup
  index_iff := by
    intro k l
    simp only [h.index_iff k l, hperm.mem_iff]
  live := h.live.trans ((hperm.filter _).map _)
  removed := h.removed.trans ((hperm.filter _).map _)

lemma Represents.append [DecidableEq K] (h : Represents keyOf placed marked index t) {r : R}
    {l : L} (hkey : index (keyOf r) = none) (hfresh : l ∉ placed.map Prod.fst)
    (hmark : marked l = false) {index' : K → Option L}
    (hindex : ∀ j, index' j = if j = keyOf r then some l else index j) :
    Represents keyOf (placed ++ [(l, r)]) marked index' ⟨t.live ++ [r], t.removed⟩ where
  places_nodup := by
    rw [List.map_append, List.nodup_append]
    refine ⟨h.places_nodup, by simp, ?_⟩
    intro a ha b hb hab
    obtain rfl : b = l := by simpa using hb
    exact hfresh (hab ▸ ha)
  index_iff := by
    intro j p
    rw [hindex]
    constructor
    · intro hj
      split at hj
      next heq =>
        obtain rfl := Option.some.inj hj
        exact ⟨r, by simp, heq.symm, hmark⟩
      next =>
        obtain ⟨s, hs, hsame, hlive⟩ := (h.index_iff j p).mp hj
        exact ⟨s, List.mem_append_left _ hs, hsame, hlive⟩
    · rintro ⟨s, hs, rfl, hlive⟩
      rcases List.mem_append.mp hs with hs | hs
      · have hold := (h.index_iff (keyOf s) p).mpr ⟨s, hs, rfl, hlive⟩
        have hne : keyOf s ≠ keyOf r := by
          intro heq
          rw [heq, hkey] at hold
          cases hold
        rw [if_neg hne, hold]
      · obtain ⟨rfl, rfl⟩ : p = l ∧ s = r := by simpa using hs
        rw [if_pos rfl]
  live := by
    have hlast : rowsMarked (placed ++ [(l, r)]) marked false
        = rowsMarked placed marked false ++ [r] := by
      simp [rowsMarked, List.filter_append, hmark]
    rw [hlast]
    exact h.live.append_right [r]
  removed := by
    have hlast : rowsMarked (placed ++ [(l, r)]) marked true = rowsMarked placed marked true := by
      simp [rowsMarked, List.filter_append, hmark]
    rw [hlast]
    exact h.removed

/-- Inserting a row: the place of the row with its key, if there is one, is marked, and the
index leads to the new place. -/
lemma Represents.insert [DecidableEq K] [DecidableEq L]
    (h : Represents keyOf placed marked index t) {r : R} {l : L}
    (hfresh : l ∉ placed.map Prod.fst) (hmark : marked l = false) {marked' : L → Bool}
    (hmarked : ∀ p, marked' p = (marked p || decide (index (keyOf r) = some p)))
    {index' : K → Option L} (hindex : ∀ j, index' j = if j = keyOf r then some l else index j) :
    Represents keyOf (placed ++ [(l, r)]) marked' index' (t.insert keyOf r) := by
  cases hprior : index (keyOf r) with
  | none =>
    have hsame : marked' = marked := funext fun p => by simp [hmarked, hprior]
    have hnothing := h.remove_of_absent hprior
    rw [KeyedTable.insert, hnothing, hsame]
    exact h.append hprior hfresh hmark hindex
  | some p =>
    have hplaced : p ∈ placed.map Prod.fst := by
      obtain ⟨s, hs, _⟩ := (h.index_iff _ _).mp hprior
      exact List.mem_map_of_mem (f := Prod.fst) hs
    have hdropped : Represents keyOf placed marked'
        (fun j => if j = keyOf r then none else index j) (t.remove keyOf (keyOf r)) :=
      h.mark hprior (fun q => by simp [hmarked, hprior, eq_comm]) (fun _ => rfl)
    apply hdropped.append
    · simp
    · exact hfresh
    · have hne : p ≠ l := fun heq => hfresh (heq ▸ hplaced)
      simp [hmarked, hmark, hprior, hne]
    · intro j
      rw [hindex]
      split <;> rfl

/-- Moving every row to a place of its own, marks and index along with it, changes nothing. -/
lemma Represents.relocate {L' : Type*} (h : Represents keyOf placed marked index t) {f : L → L'}
    (hf : ∀ a ∈ placed.map Prod.fst, ∀ b ∈ placed.map Prod.fst, f a = f b → a = b)
    {marked' : L' → Bool} (hmarked : ∀ l ∈ placed.map Prod.fst, marked' (f l) = marked l)
    {index' : K → Option L'} (hindex : ∀ k, index' k = (index k).map f) :
    Represents keyOf (placed.map (fun e => (f e.1, e.2))) marked' index' t where
  places_nodup := by
    rw [List.map_map]
    have hcomp : (Prod.fst ∘ fun e : L × R => (f e.1, e.2)) = f ∘ Prod.fst := rfl
    rw [hcomp, ← List.map_map]
    exact List.Nodup.map_on hf h.places_nodup
  index_iff := by
    intro k l
    rw [hindex]
    constructor
    · intro hk
      obtain ⟨p, hp, rfl⟩ := Option.map_eq_some_iff.mp hk
      obtain ⟨r, hr, hkey, hlive⟩ := (h.index_iff k p).mp hp
      refine ⟨r, List.mem_map.mpr ⟨(p, r), hr, rfl⟩, hkey, ?_⟩
      rw [hmarked p (List.mem_map.mpr ⟨(p, r), hr, rfl⟩), hlive]
    · rintro ⟨r, hr, hkey, hlive⟩
      obtain ⟨e, he, heq⟩ := List.mem_map.mp hr
      obtain ⟨rfl, rfl⟩ := Prod.ext_iff.mp heq
      have hmem : e.1 ∈ placed.map Prod.fst := List.mem_map.mpr ⟨e, he, rfl⟩
      have hk := (h.index_iff k e.1).mpr ⟨e.2, he, hkey, by rw [← hlive, hmarked _ hmem]⟩
      rw [hk]
      rfl
  live := by
    refine h.live.trans (List.Perm.of_eq ?_)
    rw [rowsMarked, rowsMarked, List.filter_map, List.map_map]
    congr 1
    apply List.filter_congr
    intro e he
    simp [hmarked e.1 (List.mem_map.mpr ⟨e, he, rfl⟩)]
  removed := by
    refine h.removed.trans (List.Perm.of_eq ?_)
    rw [rowsMarked, rowsMarked, List.filter_map, List.map_map]
    congr 1
    apply List.filter_congr
    intro e he
    simp [hmarked e.1 (List.mem_map.mpr ⟨e, he, rfl⟩)]

end KeyedTable
