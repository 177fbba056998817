import Mathlib

/-! Runs of a partial step function in which every step meets a condition on the state it is
taken from, and the rule that carries an invariant along them. -/
namespace GuardedRun

variable {S L : Type*}

/-- The states reached from `init` by steps that all meet `good`. -/
inductive Reaches (next : S → L → Option S) (good : S → L → Prop) (init : S) : S → Prop
  | refl : Reaches next good init init
  | step {s t : S} {l : L} : Reaches next good init s → good s l → next s l = some t →
      Reaches next good init t

/-- Take the steps of a list in order. -/
def runAll (next : S → L → Option S) : S → List L → Option S
  | s, [] => some s
  | s, l :: ls => (next s l).bind (fun t => runAll next t ls)

/-- Every step of the list meets the condition where it is taken. -/
def GoodAll (next : S → L → Option S) (good : S → L → Prop) : S → List L → Prop
  | _, [] => True
  | s, l :: ls => good s l ∧ ∀ t, next s l = some t → GoodAll next good t ls

variable {next : S → L → Option S} {good : S → L → Prop} {init : S}

/-- What holds initially and is kept by every step that meets the condition holds in every
state reached. -/
theorem Reaches.invariant {Inv : S → Prop} (hinit : Inv init)
    (hstep : ∀ s l t, Inv s → good s l → next s l = some t → Inv t) {s : S}
    (h : Reaches next good init s) : Inv s := by
  induction h with
  | refl => exact hinit
  | step _ hgood hnext ih => exact hstep _ _ _ ih hgood hnext

lemma Reaches.of_runAll_from {s t : S} {ls : List L} (hs : Reaches next good init s)
    (hgood : GoodAll next good s ls) (h : runAll next s ls = some t) :
    Reaches next good init t := by
  induction ls generalizing s with
  | nil =>
    obtain rfl := Option.some.inj h
    exact hs
  | cons l ls ih =>
    obtain ⟨u, hu, hrest⟩ := Option.bind_eq_some_iff.mp h
    exact ih (hs.step hgood.1 hu) (hgood.2 u hu) hrest

/-- A replayed list of steps that all meet the condition reaches its last state. -/
theorem Reaches.of_runAll {t : S} {ls : List L} (hgood : GoodAll next good init ls)
    (h : runAll next init ls = some t) : Reaches next good init t :=
  Reaches.of_runAll_from .refl hgood h

lemma goodAll_of_forall (s : S) {ls : List L} (h : ∀ l ∈ ls, ∀ t, good t l) :
    GoodAll next good s ls := by
  induction ls generalizing s with
  | nil => trivial
  | cons l ls ih =>
    exact ⟨h l List.mem_cons_self s, fun t _ => ih t (fun u hu => h u (List.mem_cons_of_mem _ hu))⟩

lemma goodAll_true (s : S) (ls : List L) : GoodAll next (fun _ _ => True) s ls :=
  goodAll_of_forall s (fun _ _ _ => trivial)

/-- Evaluates whether every step of the list meets a decidable condition. -/
def goodAllCheck (next : S → L → Option S) (good : S → L → Prop)
    [∀ s l, Decidable (good s l)] : S → List L → Bool
  | _, [] => true
  | s, l :: ls => decide (good s l) && (next s l).all (goodAllCheck next good · ls)

lemma goodAll_of_check [∀ s l, Decidable (good s l)] {s : S} {ls : List L}
    (h : goodAllCheck next good s ls = true) : GoodAll next good s ls := by
  induction ls generalizing s with
  | nil => trivial
  | cons l ls ih =>
    rw [goodAllCheck, Bool.and_eq_true, decide_eq_true_eq] at h
    refine ⟨h.1, fun t ht => ih ?_⟩
    rw [ht] at h
    exact h.2

end GuardedRun
