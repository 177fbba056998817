import Mathlib

/-! Computations that may fail, and loops of them: what a success says about each part. -/
namespace ExceptFold

variable {E α β : Type*} {f : β → α → Except E β}

lemma bind_eq_ok {x : Except E α} {g : α → Except E β} {b : β} :
    x.bind g = .ok b ↔ ∃ a, x = .ok a ∧ g a = .ok b := by
  constructor
  · intro h
    cases x with
    | error e => cases h
    | ok a => exact ⟨a, rfl, h⟩
  · rintro ⟨a, rfl, hg⟩
    exact hg

lemma mapError_ok {E' : Type*} {g : E → E'} {x : Except E α} {a : α} (h : x.mapError g = .ok a) :
    x = .ok a := by
  cases x with
  | error err => cases h
  | ok b => exact congrArg Except.ok (Except.ok.inj h)

lemma foldlM_cons_ok {a : α} {l : List α} {b c : β} :
    (a :: l).foldlM f b = .ok c ↔ ∃ b', f b a = .ok b' ∧ l.foldlM f b' = .ok c := by
  rw [List.foldlM_cons]
  exact bind_eq_ok

lemma foldlM_nil_ok {b c : β} (h : ([] : List α).foldlM f b = .ok c) : b = c := by
  cases h
  rfl

lemma foldlM_keep_ok_iff {α : Type} {f : α → Except E Bool} {l done kept : List α} :
    l.foldlM (fun kept a => (do
      let keep ← f a
      .ok (if keep then kept ++ [a] else kept) : Except E (List α))) done = .ok kept ↔
      ∃ keep : α → Bool, (∀ a ∈ l, f a = .ok (keep a)) ∧ kept = done ++ l.filter keep := by
  induction l generalizing done with
  | nil =>
    simp only [List.foldlM_nil, pure, Except.pure, Except.ok.injEq, List.not_mem_nil, false_imp_iff,
      implies_true, true_and, List.filter_nil, List.append_nil]
    exact ⟨fun h => ⟨fun _ => true, h.symm⟩, fun ⟨_, h⟩ => h.symm⟩
  | cons a l ih =>
    rw [foldlM_cons_ok]
    constructor
    · rintro ⟨next, hnext, hrest⟩
      obtain ⟨b, hb, hout⟩ := bind_eq_ok.mp hnext
      obtain rfl := Except.ok.inj hout
      obtain ⟨keep, hkeep, rfl⟩ := ih.mp hrest
      -- `keep` need not be right on `a`, so the answers are taken from `f` again
      have hall : ∀ x ∈ a :: l, f x = .ok ((f x).toOption.getD false) := by
        intro x hx
        rcases List.mem_cons.mp hx with rfl | hx
        · rw [hb]
          rfl
        · rw [hkeep x hx]
          rfl
      have hsame : l.filter (fun x => (f x).toOption.getD false) = l.filter keep := by
        refine List.filter_congr fun x hx => ?_
        rw [hkeep x hx]
        rfl
      refine ⟨fun x => (f x).toOption.getD false, hall, ?_⟩
      rw [List.filter_cons, hsame, hb]
      cases b <;> simp [Except.toOption]
    · rintro ⟨keep, hkeep, rfl⟩
      refine ⟨if keep a then done ++ [a] else done, ?_, ih.mpr
        ⟨keep, fun x hx => hkeep x (List.mem_cons_of_mem _ hx), ?_⟩⟩
      · rw [hkeep a List.mem_cons_self]
        rfl
      · rw [List.filter_cons]
        cases keep a <;> simp

lemma mapM_ok {f : α → Except E β} {g : α → β} {l : List α} (h : ∀ a ∈ l, f a = .ok (g a)) :
    l.mapM f = .ok (l.map g) := by
  induction l with
  | nil => rfl
  | cons a l ih =>
    rw [List.mapM_cons, h a List.mem_cons_self, ih fun b hb => h b (List.mem_cons_of_mem _ hb)]
    rfl

lemma mapM_cons_ok {f : α → Except E β} {a : α} {l : List α} {out : List β} :
    (a :: l).mapM f = .ok out ↔ ∃ b bs, f a = .ok b ∧ l.mapM f = .ok bs ∧ out = b :: bs := by
  rw [List.mapM_cons]
  constructor
  · intro h
    obtain ⟨b, hb, hrest⟩ := bind_eq_ok.mp h
    obtain ⟨bs, hbs, hout⟩ := bind_eq_ok.mp hrest
    exact ⟨b, bs, hb, hbs, (Except.ok.inj hout).symm⟩
  · rintro ⟨b, bs, hb, hbs, rfl⟩
    rw [hb, hbs]
    rfl

lemma exists_source_of_mapM_ok {f : α → Except E β} {l : List α} {out : List β}
    (h : l.mapM f = .ok out) {b : β} (hb : b ∈ out) : ∃ a ∈ l, f a = .ok b := by
  induction l generalizing out with
  | nil =>
    obtain rfl := Except.ok.inj h
    exact absurd hb List.not_mem_nil
  | cons x l ih =>
    obtain ⟨b', bs, hb', hbs, rfl⟩ := mapM_cons_ok.mp h
    rcases List.mem_cons.mp hb with rfl | hb
    · exact ⟨x, List.mem_cons_self, hb'⟩
    · obtain ⟨a, ha, hfa⟩ := ih hbs hb
      exact ⟨a, List.mem_cons_of_mem _ ha, hfa⟩

lemma forall₂_of_mapM_ok {f : α → Except E β} {l : List α} {out : List β} (h : l.mapM f = .ok out) :
    List.Forall₂ (fun a b => f a = .ok b) l out := by
  induction l generalizing out with
  | nil =>
    obtain rfl := Except.ok.inj h
    exact .nil
  | cons x l ih =>
    obtain ⟨y, ys, hy, hys, rfl⟩ := mapM_cons_ok.mp h
    exact .cons hy (ih hys)

lemma mapM_pair_ok {α β : Type} {f : α → Except E β} {l : List α} {out : List (β × α)}
    (h : l.mapM (fun a => do let b ← f a; .ok (b, a)) = .ok out) :
    out.map Prod.snd = l ∧ ∀ e ∈ out, f e.2 = .ok e.1 := by
  induction l generalizing out with
  | nil =>
    obtain rfl := Except.ok.inj h
    exact ⟨rfl, fun e he => absurd he List.not_mem_nil⟩
  | cons a l ih =>
    obtain ⟨e, es, he, hes, rfl⟩ := mapM_cons_ok.mp h
    obtain ⟨b, hb, hpair⟩ := bind_eq_ok.mp he
    obtain rfl := Except.ok.inj hpair
    obtain ⟨hsnd, hall⟩ := ih hes
    exact ⟨congrArg (a :: ·) hsnd, List.forall_mem_cons.mpr ⟨hb, hall⟩⟩

end ExceptFold
