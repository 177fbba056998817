import NodedbLite.FuelRun
import Mathlib.Logic.Relation
import Mathlib.Logic.Function.Basic

/-! Disjoint sets as a forest of parent pointers, with path compression. What a forest stands for
is read through its roots: two elements are together when they have one root. -/
namespace UnionFind

open FuelRun

variable {α : Type*} [DecidableEq α]

/-- The root of an element; every element on the way is made to point at it. -/
def find : Nat → (α → α) → α → Option ((α → α) × α)
  | 0, _, _ => none
  | fuel + 1, parent, x =>
    if parent x ≠ x then
      (find fuel parent (parent x)).map fun found =>
        (Function.update found.1 x found.2, found.2)
    else some (parent, x)

/-- The root of the first element is put under the root of the second. -/
def union (fuel : Nat) (parent : α → α) (a b : α) : Option (α → α) :=
  (find fuel parent a).bind fun ra =>
    (find fuel ra.1 b).bind fun rb =>
      some (if ra.2 ≠ rb.2 then Function.update rb.1 ra.2 rb.2 else rb.1)

/-- The roots of the elements of a list, each search on the pointers that the one before left. -/
def findEach (fuel : Nat) : (α → α) → List α → Option (List α)
  | _, [] => some []
  | parent, x :: xs =>
    (find fuel parent x).bind fun found => (findEach fuel found.1 xs).map (found.2 :: ·)

omit [DecidableEq α] in
/-- Following the pointers from an element ends at a root. -/
inductive Root (parent : α → α) : α → α → Prop
  | here {x : α} : parent x = x → Root parent x x
  | up {x r : α} : parent x ≠ x → Root parent (parent x) r → Root parent x r

def Forest (parent : α → α) : Prop := ∀ x, ∃ r, Root parent x r

def Same (parent : α → α) (x y : α) : Prop := ∃ r, Root parent x r ∧ Root parent y r

/-- Every root of the first forest is a root of the second. -/
def KeepsRoots (parent parent' : α → α) : Prop := ∀ x r, Root parent x r → Root parent' x r

section Roots

omit [DecidableEq α]

variable {parent parent' : α → α} {x y r s : α}

lemma Root.parent_root (h : Root parent x r) : parent r = r := by
  induction h with
  | here hx => exact hx
  | up _ _ ih => exact ih

lemma Root.unique (hr : Root parent x r) (hs : Root parent x s) : r = s := by
  induction hr with
  | here hx =>
    cases hs with
    | here _ => rfl
    | up hne _ => exact absurd hx hne
  | up hne _ ih =>
    cases hs with
    | here hx => exact absurd hx hne
    | up _ hs => exact ih hs

lemma Same.symm (h : Same parent x y) : Same parent y x := by
  obtain ⟨r, hx, hy⟩ := h
  exact ⟨r, hy, hx⟩

lemma Same.trans {z : α} (hxy : Same parent x y) (hyz : Same parent y z) : Same parent x z := by
  obtain ⟨r, hx, hy⟩ := hxy
  obtain ⟨s, hy', hz⟩ := hyz
  obtain rfl := hy.unique hy'
  exact ⟨r, hx, hz⟩

lemma KeepsRoots.forest (h : KeepsRoots parent parent') (hf : Forest parent) : Forest parent' := by
  intro x
  obtain ⟨r, hr⟩ := hf x
  exact ⟨r, h x r hr⟩

lemma KeepsRoots.trans {parent'' : α → α} (h : KeepsRoots parent parent')
    (h' : KeepsRoots parent' parent'') : KeepsRoots parent parent'' :=
  fun x r hr => h' x r (h x r hr)

lemma KeepsRoots.same_iff (h : KeepsRoots parent parent') (hf : Forest parent) :
    Same parent' x y ↔ Same parent x y := by
  obtain ⟨r, hr⟩ := hf x
  obtain ⟨s, hs⟩ := hf y
  constructor
  · rintro ⟨t, hx, hy⟩
    obtain rfl := hx.unique (h x r hr)
    obtain rfl := hy.unique (h y s hs)
    exact ⟨t, hr, hs⟩
  · rintro ⟨t, hx, hy⟩
    exact ⟨t, h x t hx, h y t hy⟩

end Roots

section Compression

variable {parent : α → α} {x r : α}

lemma keepsRoots_update (h : Root parent x r) :
    KeepsRoots parent (Function.update parent x r) := by
  intro y s hs
  induction hs with
  | @here y hy =>
    refine .here ?_
    by_cases hyx : y = x
    · subst hyx
      rw [Function.update_self]
      exact h.unique (.here hy)
    · rw [Function.update_of_ne hyx, hy]
  | @up y s hne hys ih =>
    by_cases hyx : y = x
    · subst hyx
      obtain rfl := h.unique (.up hne hys)
      have hry : r ≠ y := fun e => hne (e ▸ h.parent_root)
      have hroot : Function.update parent y r r = r := by
        rw [Function.update_of_ne hry, h.parent_root]
      refine .up (by rw [Function.update_self]; exact hry) ?_
      rw [Function.update_self]
      exact .here hroot
    · refine .up (by rw [Function.update_of_ne hyx]; exact hne) ?_
      rw [Function.update_of_ne hyx]
      exact ih

/-- The search ends at the root and changes none. -/
lemma find_gives (h : Root parent x r) :
    ∃ parent', Gives (fun fuel => find fuel parent x) (parent', r) ∧
      KeepsRoots parent parent' := by
  induction h with
  | @here x hx =>
    refine ⟨parent, .of_succ ?_, fun _ _ h => h⟩
    simpa only [find, hx, ne_eq, not_true_eq_false, if_false] using Gives.of_const (parent, x)
  | @up x r hne hroot ih =>
    obtain ⟨parent', hgives, hkeeps⟩ := ih
    refine ⟨Function.update parent' x r, .of_succ ?_,
      hkeeps.trans (keepsRoots_update (hkeeps x r (.up hne hroot)))⟩
    simpa only [find, if_pos hne] using
      hgives.map fun found => (Function.update found.1 x found.2, found.2)

end Compression

section Link

variable {parent : α → α} {ra rb : α}

/-- Putting one root under another moves the elements of the first, and no others. -/
lemma root_link (ha : parent ra = ra) (hb : parent rb = rb) (hne : ra ≠ rb) {x r : α}
    (h : Root parent x r) :
    Root (Function.update parent ra rb) x (if r = ra then rb else r) := by
  have hrb : Root (Function.update parent ra rb) rb rb :=
    .here (by rw [Function.update_of_ne hne.symm, hb])
  induction h with
  | @here x hx =>
    by_cases hxa : x = ra
    · subst hxa
      rw [if_pos rfl]
      exact .up (by rw [Function.update_self]; exact hne.symm) (by rwa [Function.update_self])
    · rw [if_neg hxa]
      exact .here (by rw [Function.update_of_ne hxa, hx])
  | @up x r hxne _ ih =>
    have hxa : x ≠ ra := fun e => hxne (e ▸ ha)
    exact .up (by rwa [Function.update_of_ne hxa]) (by rwa [Function.update_of_ne hxa])

/-- What joining two classes does to the relation. -/
def Joins (R : α → α → Prop) (a b x y : α) : Prop :=
  R x y ∨ (R x a ∧ R b y) ∨ (R x b ∧ R a y)

lemma same_link (hf : Forest parent) (ha : parent ra = ra) (hb : parent rb = rb) (hne : ra ≠ rb)
    (x y : α) :
    Same (Function.update parent ra rb) x y ↔ Joins (Same parent) ra rb x y := by
  obtain ⟨r, hr⟩ := hf x
  obtain ⟨s, hs⟩ := hf y
  have hsame : ∀ {u v t w : α}, Root parent u t → Root parent v w → (Same parent u v ↔ t = w) := by
    intro u v t w hu hv
    exact ⟨fun ⟨q, hq, hq'⟩ => (hu.unique hq).trans (hq'.unique hv), fun e => ⟨t, hu, e ▸ hv⟩⟩
  have hxy : Same (Function.update parent ra rb) x y ↔
      (if r = ra then rb else r) = if s = ra then rb else s := by
    have hr' := root_link ha hb hne hr
    have hs' := root_link ha hb hne hs
    exact ⟨fun ⟨q, hq, hq'⟩ => (hr'.unique hq).trans (hq'.unique hs'), fun e => ⟨_, hr', e ▸ hs'⟩⟩
  rw [hxy, Joins, hsame hr hs, hsame hr (.here ha), hsame (.here hb) hs, hsame hr (.here hb),
    hsame (.here ha) hs]
  split_ifs with h1 h2 h2 <;> grind

end Link

section Union

variable {parent : α → α}

omit [DecidableEq α] in
lemma Joins.congr {R S : α → α → Prop} (h : ∀ x y, R x y ↔ S x y) (a b x y : α) :
    Joins R a b x y ↔ Joins S a b x y := by
  simp only [Joins, h]

lemma union_gives (hf : Forest parent) (a b : α) :
    ∃ parent', Gives (fun fuel => union fuel parent a b) parent' ∧ Forest parent' ∧
      ∀ x y, Same parent' x y ↔ Joins (Same parent) a b x y := by
  obtain ⟨ra, hra⟩ := hf a
  obtain ⟨p₁, hfind₁, hkeeps₁⟩ := find_gives hra
  obtain ⟨rb, hrb⟩ := hf b
  obtain ⟨p₂, hfind₂, hkeeps₂⟩ := find_gives (hkeeps₁ b rb hrb)
  have hkeeps : KeepsRoots parent p₂ := hkeeps₁.trans hkeeps₂
  have hf₂ : Forest p₂ := hkeeps.forest hf
  refine ⟨if ra ≠ rb then Function.update p₂ ra rb else p₂,
    hfind₁.bind (hfind₂.bind (.of_const _)), ?_⟩
  have ha : Same parent a ra := ⟨ra, hra, .here hra.parent_root⟩
  have hb : Same parent b rb := ⟨rb, hrb, .here hrb.parent_root⟩
  by_cases hne : ra = rb
  · rw [if_neg (not_not.mpr hne)]
    refine ⟨hf₂, fun x y => ?_⟩
    have hab : Same parent a b := ⟨ra, hra, hne ▸ hrb⟩
    rw [hkeeps.same_iff hf]
    constructor
    · exact .inl
    · rintro (h | ⟨hxa, hby⟩ | ⟨hxb, hay⟩)
      · exact h
      · exact (hxa.trans hab).trans hby
      · exact (hxb.trans hab.symm).trans hay
  · rw [if_pos hne]
    have hra₂ : p₂ ra = ra := (hkeeps a ra hra).parent_root
    have hrb₂ : p₂ rb = rb := (hkeeps b rb hrb).parent_root
    refine ⟨fun x => ?_, fun x y => ?_⟩
    · obtain ⟨r, hr⟩ := hf₂ x
      exact ⟨_, root_link hra₂ hrb₂ hne hr⟩
    · rw [same_link hf₂ hra₂ hrb₂ hne, Joins.congr fun _ _ => hkeeps.same_iff hf]
      constructor
      · rintro (h | ⟨hx, hy⟩ | ⟨hx, hy⟩)
        · exact .inl h
        · exact .inr (.inl ⟨hx.trans ha.symm, hb.trans hy⟩)
        · exact .inr (.inr ⟨hx.trans hb.symm, ha.trans hy⟩)
      · rintro (h | ⟨hx, hy⟩ | ⟨hx, hy⟩)
        · exact .inl h
        · exact .inr (.inl ⟨hx.trans ha, hb.symm.trans hy⟩)
        · exact .inr (.inr ⟨hx.trans hb, ha.symm.trans hy⟩)

/-- The searches of a list all give the roots of the forest they start from. -/
lemma findEach_gives (hf : Forest parent) (xs : List α) :
    ∃ roots, Gives (fun fuel => findEach fuel parent xs) roots ∧
      List.Forall₂ (Root parent) xs roots := by
  suffices h : ∀ parent', KeepsRoots parent parent' → ∃ roots,
      Gives (fun fuel => findEach fuel parent' xs) roots ∧ List.Forall₂ (Root parent) xs roots from
    h parent fun _ _ h => h
  induction xs with
  | nil => exact fun parent' _ => ⟨[], .of_const [], .nil⟩
  | cons x xs ih =>
    intro parent' hkeeps
    obtain ⟨r, hr⟩ := hf x
    obtain ⟨p, hfind, hkeeps'⟩ := find_gives (hkeeps x r hr)
    obtain ⟨roots, hgives, hroots⟩ := ih p (hkeeps.trans hkeeps')
    exact ⟨r :: roots, hfind.bind (hgives.map (r :: ·)), .cons hr hroots⟩

end Union

section Classes

open Relation

omit [DecidableEq α]

variable {R : α → α → Prop} {a b x y : α}

lemma eqvGen_insert :
    EqvGen (fun u v => R u v ∨ (u = a ∧ v = b)) x y ↔ Joins (EqvGen R) a b x y := by
  have lift : ∀ {u v}, EqvGen R u v → EqvGen (fun u v => R u v ∨ (u = a ∧ v = b)) u v :=
    fun h => EqvGen.mono (fun _ _ h => Or.inl h) _ _ h
  have hab : EqvGen (fun u v => R u v ∨ (u = a ∧ v = b)) a b := .rel _ _ (.inr ⟨rfl, rfl⟩)
  constructor
  · intro h
    induction h with
    | rel u v h =>
      obtain h | ⟨rfl, rfl⟩ := h
      · exact .inl (.rel u v h)
      · exact .inr (.inl ⟨.refl _, .refl _⟩)
    | refl u => exact .inl (.refl u)
    | symm u v _ ih =>
      obtain h | ⟨hu, hv⟩ | ⟨hu, hv⟩ := ih
      · exact .inl h.symm
      · exact .inr (.inr ⟨hv.symm, hu.symm⟩)
      · exact .inr (.inl ⟨hv.symm, hu.symm⟩)
    | trans u v w _ _ ih ih' =>
      obtain h | ⟨hu, hv⟩ | ⟨hu, hv⟩ := ih <;> obtain h' | ⟨hv', hw⟩ | ⟨hv', hw⟩ := ih'
      · exact .inl (h.trans _ _ _ h')
      · exact .inr (.inl ⟨h.trans _ _ _ hv', hw⟩)
      · exact .inr (.inr ⟨h.trans _ _ _ hv', hw⟩)
      · exact .inr (.inl ⟨hu, hv.trans _ _ _ h'⟩)
      · exact .inr (.inl ⟨hu, hw⟩)
      · exact .inl (hu.trans _ _ _ hw)
      · exact .inr (.inr ⟨hu, hv.trans _ _ _ h'⟩)
      · exact .inl (hu.trans _ _ _ hw)
      · exact .inr (.inr ⟨hu, hw⟩)
  · rintro (h | ⟨hx, hy⟩ | ⟨hx, hy⟩)
    · exact lift h
    · exact ((lift hx).trans _ _ _ hab).trans _ _ _ (lift hy)
    · exact ((lift hx).trans _ _ _ hab.symm).trans _ _ _ (lift hy)

end Classes

end UnionFind
