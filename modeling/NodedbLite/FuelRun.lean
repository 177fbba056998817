import Mathlib.Data.List.Basic

/-! Functions with a bound on their recursion. Such a function gives a result when every large
enough bound leads to it; results compose as the functions do. -/
namespace FuelRun

variable {α β σ : Type*}

/-- Every bound from some point on gives this result. -/
def Gives (f : Nat → Option β) (b : β) : Prop := ∃ n, ∀ m, n ≤ m → f m = some b

lemma Gives.of_const (b : β) : Gives (fun _ => some b) b := ⟨0, fun _ _ => rfl⟩

lemma Gives.bind {f : Nat → Option α} {g : Nat → α → Option β} {a : α} {b : β} (hf : Gives f a)
    (hg : Gives (fun n => g n a) b) : Gives (fun n => (f n).bind (g n)) b := by
  obtain ⟨n, hn⟩ := hf
  obtain ⟨k, hk⟩ := hg
  refine ⟨max n k, fun m hm => ?_⟩
  change (f m).bind (g m) = some b
  rw [hn m (Nat.le_trans (Nat.le_max_left n k) hm)]
  exact hk m (Nat.le_trans (Nat.le_max_right n k) hm)

lemma Gives.map {f : Nat → Option α} {a : α} (hf : Gives f a) (g : α → β) :
    Gives (fun n => (f n).map g) (g a) := by
  obtain ⟨n, hn⟩ := hf
  exact ⟨n, fun m hm => congrArg (Option.map g) (hn m hm)⟩

lemma Gives.of_succ {f : Nat → Option β} {b : β} (h : Gives (fun n => f (n + 1)) b) :
    Gives f b := by
  obtain ⟨n, hn⟩ := h
  refine ⟨n + 1, fun m hm => ?_⟩
  obtain ⟨k, rfl⟩ := Nat.exists_eq_add_of_le' hm
  exact hn (k + n) (Nat.le_add_left n k)

lemma Gives.unique {f : Nat → Option β} {a b : β} (ha : Gives f a) (hb : Gives f b) : a = b := by
  obtain ⟨n, hn⟩ := ha
  obtain ⟨k, hk⟩ := hb
  have h : some a = some b :=
    (hn _ (Nat.le_max_left n k)).symm.trans (hk _ (Nat.le_max_right n k))
  exact Option.some.inj h

/-- A loop over a list gives a result when each of its steps does; the invariant speaks of the
part of the list that is done. -/
lemma gives_foldlM (step : Nat → σ → α → Option σ) (Inv : List α → σ → Prop) (l : List α)
    (hstep : ∀ done s a, done ++ [a] <+: l → Inv done s →
      ∃ t, Gives (fun n => step n s a) t ∧ Inv (done ++ [a]) t) {s : σ} (hs : Inv [] s) :
    ∃ t, Gives (fun n => l.foldlM (step n) s) t ∧ Inv l t := by
  suffices h : ∀ rest done s, done ++ rest = l → Inv done s →
      ∃ t, Gives (fun n => rest.foldlM (step n) s) t ∧ Inv l t from h l [] s rfl hs
  intro rest
  induction rest with
  | nil =>
    intro done s hl hs
    rw [List.append_nil] at hl
    exact ⟨s, Gives.of_const s, hl ▸ hs⟩
  | cons a rest ih =>
    intro done s hl hs
    have hl' : done ++ [a] ++ rest = l := by rw [← hl]; simp
    obtain ⟨t, ht, hinv⟩ := hstep done s a ⟨rest, hl'⟩ hs
    obtain ⟨u, hu, hlast⟩ := ih (done ++ [a]) t hl' hinv
    exact ⟨u, ht.bind hu, hlast⟩

end FuelRun
