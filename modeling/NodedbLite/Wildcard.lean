import Mathlib

/-! Wildcard patterns over an arbitrary alphabet. The language of a pattern lets its star stand for any
sequence. The strict language leaves a star no choice where it meets a star of the input: there it
stands for this one letter. A matcher that walks both lists in step and returns only to the last star
decides the strict language, and `Lockstep.forced_of_drop` is why it may forget the stars before. -/
namespace Wildcard

/-- Two letters of an alphabet with a meaning of their own. -/
structure Wildcards (α : Type*) where
  star : α
  any : α
  star_ne_any : star ≠ any

variable {α : Type*} (W : Wildcards α)

/-- The inputs that a pattern describes. -/
inductive Matches : List α → List α → Prop
  | nil : Matches [] []
  | letter {c : α} {p w : List α} : c ≠ W.star → c ≠ W.any → Matches p w → Matches (c :: p) (c :: w)
  | any {d : α} {p w : List α} : Matches p w → Matches (W.any :: p) (d :: w)
  | star {p w : List α} (v : List α) : Matches p w → Matches (W.star :: p) (v ++ w)

/-- A letter of the pattern stands for one of the input, a star for a star included. -/
def Accepts (c d : α) : Prop := c = W.any ∨ c = d

instance [DecidableEq α] (c d : α) : Decidable (Accepts W c d) := inferInstanceAs (Decidable (_ ∨ _))

/-- The inputs that a pattern describes when a star at a star stands for that star. -/
inductive Forced : List α → List α → Prop
  | nil : Forced [] []
  | one {c d : α} {p w : List α} : Accepts W c d → Forced p w → Forced (c :: p) (d :: w)
  | star {d : α} {p w : List α} (k : Nat) : d ≠ W.star → Forced p ((d :: w).drop k) →
      Forced (W.star :: p) (d :: w)
  | last {p : List α} : Forced p [] → Forced (W.star :: p) []

/-- One list of letters is walked off a pattern and an input in step. -/
inductive Lockstep : List α → List α → List α → List α → Prop
  | refl {p w : List α} : Lockstep p w p w
  | step {c d : α} {p w q v : List α} : Accepts W c d → Lockstep p w q v →
      Lockstep (c :: p) (d :: w) q v

variable {W} {c d : α} {p q v w : List α}

lemma not_accepts_star (hd : d ≠ W.star) : ¬Accepts W W.star d := by
  rintro (hany | rfl)
  · exact W.star_ne_any hany
  · exact hd rfl

lemma forced_cons_iff (h : Accepts W c d) : Forced W (c :: p) (d :: w) ↔ Forced W p w := by
  constructor
  · intro hf
    cases hf with
    | one _ hrest => exact hrest
    | star k hd _ => exact absurd h (not_accepts_star hd)
  · exact Forced.one h

lemma forced_star_iff (hd : d ≠ W.star) :
    Forced W (W.star :: p) (d :: w) ↔ ∃ k, Forced W p ((d :: w).drop k) := by
  constructor
  · intro hf
    cases hf with
    | one h _ => exact absurd h (not_accepts_star hd)
    | star k _ hrest => exact ⟨k, hrest⟩
  · rintro ⟨k, hrest⟩
    exact Forced.star k hd hrest

lemma forced_star_of_drop (hd : d ≠ W.star) {j : Nat}
    (hf : Forced W (W.star :: p) ((d :: w).drop j)) : Forced W (W.star :: p) (d :: w) := by
  apply (forced_star_iff hd).mpr
  generalize hrest : (d :: w).drop j = rest at hf
  cases hf with
  | one _ hp =>
    refine ⟨j + 1, ?_⟩
    rw [← List.drop_drop, hrest]
    exact hp
  | star k _ hp =>
    refine ⟨j + k, ?_⟩
    rw [← List.drop_drop, hrest]
    exact hp
  | last hp =>
    refine ⟨j, ?_⟩
    rw [hrest]
    exact hp

lemma not_forced_cons (h : ¬Accepts W c d) (hc : c ≠ W.star) : ¬Forced W (c :: p) (d :: w) := by
  intro hf
  cases hf with
  | one h' _ => exact h h'
  | star _ _ _ => exact hc rfl

lemma not_forced_nil : ¬Forced W [] (d :: w) := fun hf => nomatch hf

lemma forced_nil_iff : Forced W p [] ↔ ∀ c ∈ p, c = W.star := by
  induction p with
  | nil => simp [Forced.nil]
  | cons c p ih =>
    rw [List.forall_mem_cons, ← ih]
    constructor
    · intro hf
      cases hf with
      | last hrest => exact ⟨rfl, hrest⟩
    · rintro ⟨rfl, hrest⟩
      exact Forced.last hrest

lemma Lockstep.forced_iff (h : Lockstep W p w q v) : Forced W p w ↔ Forced W q v := by
  induction h with
  | refl => rfl
  | step hcd _ ih => rw [forced_cons_iff hcd, ih]

lemma Lockstep.snoc (h : Lockstep W p w (c :: q) (d :: v)) (hcd : Accepts W c d) :
    Lockstep W p w q v := by
  generalize hq : c :: q = q' at h
  generalize hv : d :: v = v' at h
  induction h with
  | refl =>
    subst hq hv
    exact .step hcd .refl
  | step hstep _ ih => exact .step hstep (ih hq hv)

/-- A match of the pattern further behind gives one where the walk has come to, or behind that:
on its way it either meets the walk or stays behind it. -/
theorem Lockstep.forced_of_drop (h : Lockstep W p w q v) {k : Nat} (hk : 0 < k)
    (hf : Forced W p (w.drop k)) : Forced W q v ∨ ∃ j, 0 < j ∧ Forced W q (v.drop j) := by
  induction h generalizing k with
  | refl => exact .inr ⟨k, hk, hf⟩
  | @step c d p w q v hcd hwalk ih =>
    obtain ⟨k, rfl⟩ := Nat.exists_eq_succ_of_ne_zero hk.ne'
    rw [List.drop_succ_cons] at hf
    -- A match right at the walk is carried on by it.
    have hmeet : ∀ j, Forced W p (w.drop j) → Forced W q v ∨ ∃ j, 0 < j ∧ Forced W q (v.drop j) := by
      intro j hj
      rcases Nat.eq_zero_or_pos j with rfl | hpos
      · exact .inl (hwalk.forced_iff.mp hj)
      · exact ih hpos hj
    generalize hrest : w.drop k = rest at hf
    cases hf with
    | one _ hp =>
      apply hmeet (k + 1)
      rw [← List.drop_drop, hrest]
      exact hp
    | star m _ hp =>
      apply hmeet (k + m)
      rw [← List.drop_drop, hrest]
      exact hp
    | last hp =>
      apply hmeet k
      rw [hrest]
      exact hp

lemma Matches.cons (h : Matches W p w) (hcd : Accepts W c d) : Matches W (c :: p) (d :: w) := by
  by_cases hany : c = W.any
  · subst hany
    exact .any h
  · obtain rfl := hcd.resolve_left hany
    by_cases hstar : c = W.star
    · subst hstar
      exact Matches.star [W.star] h
    · exact .letter hstar hany h

/-- The strict language is part of the language. -/
theorem Forced.matches (h : Forced W p w) : Matches W p w := by
  induction h with
  | nil => exact .nil
  | one hcd _ ih => exact ih.cons hcd
  | @star d p w k _ _ ih =>
    rw [← List.take_append_drop k (d :: w)]
    exact .star _ ih
  | last _ ih => exact Matches.star [] ih

lemma Matches.forced_of_pattern (h : Matches W p w) (hp : W.star ∉ p) : Forced W p w := by
  induction h with
  | nil => exact .nil
  | letter _ _ _ ih => exact .one (.inr rfl) (ih (List.not_mem_of_not_mem_cons hp))
  | any _ ih => exact .one (.inl rfl) (ih (List.not_mem_of_not_mem_cons hp))
  | star _ _ _ => exact absurd List.mem_cons_self hp

lemma Matches.forced_of_input (h : Matches W p w) (hw : W.star ∉ w) : Forced W p w := by
  induction h with
  | nil => exact .nil
  | letter _ _ _ ih => exact .one (.inr rfl) (ih (List.not_mem_of_not_mem_cons hw))
  | any _ ih => exact .one (.inl rfl) (ih (List.not_mem_of_not_mem_cons hw))
  | @star p w v _ ih =>
    have hrest : Forced W p ((v ++ w).drop v.length) := by
      rw [List.drop_left]
      exact ih fun hmem => hw (List.mem_append_right v hmem)
    cases hall : v ++ w with
    | nil =>
      rw [hall, List.drop_nil] at hrest
      exact .last hrest
    | cons d rest =>
      rw [hall] at hrest hw
      exact .star v.length (List.ne_of_not_mem_cons hw).symm hrest

lemma Forced.length_eq (h : Forced W p w) (hp : W.star ∉ p) : p.length = w.length := by
  induction h with
  | nil => rfl
  | one _ _ ih => simp [ih (List.not_mem_of_not_mem_cons hp)]
  | star _ _ _ => exact absurd List.mem_cons_self hp
  | last _ => exact absurd List.mem_cons_self hp

lemma forced_append_iff (u : List α) : Forced W (u ++ p) (u ++ w) ↔ Forced W p w := by
  induction u with
  | nil => rfl
  | cons c u ih => rw [List.cons_append, List.cons_append, forced_cons_iff (.inr rfl), ih]

lemma Matches.append (u : List α) (h : Matches W p w) : Matches W (u ++ p) (u ++ w) := by
  induction u with
  | nil => exact h
  | cons c u ih => exact ih.cons (.inr rfl)

lemma matches_replicate (w : List α) : Matches W (List.replicate w.length W.any) w := by
  induction w with
  | nil => exact .nil
  | cons d w ih => exact .any ih

/-- A pattern with a star describes its own letters with the last star doubled. -/
theorem exists_input_not_forced (h : W.star ∈ p) : ∃ w, Matches W p w ∧ ¬Forced W p w := by
  obtain ⟨u, v, rfl, hv⟩ : ∃ u v, p = u ++ W.star :: v ∧ W.star ∉ v := by
    obtain ⟨v, u, hsplit, hv⟩ := List.eq_append_cons_of_mem (List.mem_reverse.mpr h)
    refine ⟨u.reverse, v.reverse, ?_, mt List.mem_reverse.mp hv⟩
    rw [← List.reverse_reverse p, hsplit]
    simp
  refine ⟨u ++ ([W.star, W.star] ++ v), ?_, ?_⟩
  · have hself : Matches W v v := by simpa using Matches.append v .nil
    exact Matches.append u (.star _ hself)
  · rw [forced_append_iff]
    intro hf
    have hlen := ((forced_cons_iff (.inr rfl)).mp hf).length_eq hv
    simp at hlen

/-- An input with a star is described by a pattern whose star stands for nothing there. -/
theorem exists_pattern_not_forced (h : W.star ∈ w) : ∃ p, Matches W p w ∧ ¬Forced W p w := by
  obtain ⟨u, v, rfl⟩ := List.append_of_mem h
  have hany : W.star ∉ List.replicate (v.length + 1) W.any :=
    fun hmem => W.star_ne_any (List.eq_of_mem_replicate hmem)
  refine ⟨u ++ W.star :: List.replicate (v.length + 1) W.any, ?_, ?_⟩
  · exact Matches.append u (.star [] (matches_replicate (W.star :: v)))
  · rw [forced_append_iff]
    intro hf
    have hlen := ((forced_cons_iff (.inr rfl)).mp hf).length_eq hany
    simp at hlen

end Wildcard
