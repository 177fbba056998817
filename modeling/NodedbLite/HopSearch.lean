import NodedbLite.FuelRun
import Mathlib.Data.Fintype.Card
import Mathlib.Order.Bounds.Basic

/-! Breadth-first search from one node with a queue. It gives every node that can be reached its
distance in hops, and no other node one. -/
namespace HopSearch

open FuelRun

variable {α : Type*} [DecidableEq α]

/-- The distances found so far, and the nodes whose neighbours are still to be looked at. -/
structure State (α : Type*) where
  dist : α → Option Nat
  queue : List α

/-- A neighbour that was not seen before is one hop further, and waits for its turn. -/
def visit (u : α) (s : State α) (v : α) : State α :=
  if s.dist v = none then ⟨Function.update s.dist v ((s.dist u).map (· + 1)), s.queue ++ [v]⟩
  else s

def loop (adj : α → List α) : Nat → State α → Option (α → Option Nat)
  | 0, _ => none
  | fuel + 1, s =>
    match s.queue with
    | [] => some s.dist
    | u :: rest => loop adj fuel ((adj u).foldl (visit u) ⟨s.dist, rest⟩)

def start (src : α) : State α := ⟨Function.update (fun _ => none) src (some 0), [src]⟩

def search (adj : α → List α) (src : α) (fuel : Nat) : Option (α → Option Nat) :=
  loop adj fuel (start src)

omit [DecidableEq α] in
/-- There is a walk of so many hops. -/
inductive Hops (adj : α → List α) (src : α) : Nat → α → Prop
  | zero : Hops adj src 0 src
  | succ {n : Nat} {u v : α} : Hops adj src n u → v ∈ adj u → Hops adj src (n + 1) v

/-- The hop count of a shortest walk. -/
def Distance (adj : α → List α) (src v : α) (d : Nat) : Prop :=
  IsLeast {n | Hops adj src n v} d

section Visit

variable {u : α} {k : Nat}

/-- What looking at the neighbours of a node does: the new ones get their distance and are
queued. -/
structure Visited (k : Nat) (l : List α) (s t : State α) : Prop where
  dist : ∀ v, t.dist v = if v ∈ l ∧ s.dist v = none then some (k + 1) else s.dist v
  queue : ∃ new, t.queue = s.queue ++ new ∧ new.Nodup ∧ ∀ v, v ∈ new ↔ v ∈ l ∧ s.dist v = none

lemma visited_foldl (l : List α) (s : State α) (hu : s.dist u = some k) :
    Visited k l s (l.foldl (visit u) s) := by
  induction l generalizing s with
  | nil => exact ⟨fun v => by simp, [], by simp⟩
  | cons v l ih =>
    rw [List.foldl_cons]
    by_cases hv : s.dist v = none
    · have huv : u ≠ v := by
        rintro rfl
        rw [hv] at hu
        cases hu
      have hvisit : visit u s v = ⟨Function.update s.dist v (some (k + 1)), s.queue ++ [v]⟩ := by
        rw [visit, if_pos hv, hu, Option.map_some]
      rw [hvisit]
      obtain ⟨hdist, new, hqueue, hnodup, hnew⟩ :=
        ih ⟨Function.update s.dist v (some (k + 1)), s.queue ++ [v]⟩
          (by rw [← hu]; exact Function.update_of_ne huv _ _)
      refine ⟨fun w => ?_, v :: new, by rw [hqueue]; simp, ?_, fun w => ?_⟩
      · rw [hdist]
        by_cases hw : w = v
        · subst hw
          simp [hv]
        · simp [hw]
      · refine List.nodup_cons.mpr ⟨fun hmem => ?_, hnodup⟩
        have h : Function.update s.dist v (some (k + 1)) v = none := ((hnew v).mp hmem).2
        rw [Function.update_self] at h
        cases h
      · rw [List.mem_cons, hnew, List.mem_cons]
        by_cases hw : w = v
        · subst hw
          simp [hv]
        · simp [hw]
    · rw [visit, if_neg hv]
      obtain ⟨hdist, new, hqueue, hnodup, hnew⟩ := ih s hu
      refine ⟨fun w => ?_, new, hqueue, hnodup, fun w => ?_⟩
      · rw [hdist]
        by_cases hw : w = v
        · subst hw
          simp [hv]
        · simp [hw]
      · rw [hnew, List.mem_cons]
        by_cases hw : w = v
        · subst hw
          simp [hv]
        · simp [hw]

end Visit

section Invariant

variable {adj : α → List α} {src : α}

/-- Distances are walks; the neighbours of a node that left the queue are seen, one hop further at
most; the queue is in order of distance, and no node is further than one hop beyond its head. -/
structure Inv (adj : α → List α) (src : α) (s : State α) : Prop where
  origin : s.dist src = some 0
  sound : ∀ v d, s.dist v = some d → Hops adj src d v
  closed : ∀ u d, s.dist u = some d → u ∈ s.queue ∨ ∀ v ∈ adj u, ∃ e ≤ d + 1, s.dist v = some e
  queued : ∀ u ∈ s.queue, s.dist u ≠ none
  sorted : s.queue.Pairwise fun u v => ∀ d e, s.dist u = some d → s.dist v = some e → d ≤ e
  near : ∀ u rest, s.queue = u :: rest → ∀ v d e, s.dist u = some d → s.dist v = some e → e ≤ d + 1

lemma dist_start {v : α} {d : Nat} : (start src).dist v = some d ↔ v = src ∧ d = 0 := by
  rw [start]
  by_cases hv : v = src
  · subst hv
    simp [eq_comm]
  · simp [hv]

lemma inv_start : Inv adj src (start src) where
  origin := dist_start.mpr ⟨rfl, rfl⟩
  sound v d h := by
    obtain ⟨rfl, rfl⟩ := dist_start.mp h
    exact .zero
  closed u d h := by
    obtain ⟨rfl, -⟩ := dist_start.mp h
    exact .inl (List.mem_singleton_self u)
  queued u hu := by
    rw [dist_start.mpr ⟨List.mem_singleton.mp hu, rfl⟩]
    exact Option.some_ne_none 0
  sorted := List.pairwise_singleton _ _
  near u rest _ v d e _ hv := by
    rw [(dist_start.mp hv).2]
    exact Nat.zero_le _

/-- One turn of the loop keeps the invariant. -/
lemma Inv.step {s : State α} (h : Inv adj src s) {u : α} {rest : List α}
    (hqueue : s.queue = u :: rest) :
    Inv adj src ((adj u).foldl (visit u) ⟨s.dist, rest⟩) := by
  obtain ⟨k, hu⟩ := Option.ne_none_iff_exists'.mp (h.queued u (by rw [hqueue]; exact .head _))
  obtain ⟨hdist, new, hnext, -, hnew⟩ :=
    visited_foldl (adj u) (⟨s.dist, rest⟩ : State α) hu
  set t := (adj u).foldl (visit u) ⟨s.dist, rest⟩
  -- what was seen keeps its distance, and what is new is one hop from the node looked at
  have hold : ∀ {v d}, s.dist v = some d → t.dist v = some d := by
    intro v d hv
    rw [hdist, if_neg (by simp [hv]), hv]
  have hcases : ∀ {v d}, t.dist v = some d →
      s.dist v = some d ∨ (v ∈ adj u ∧ s.dist v = none ∧ d = k + 1) := by
    intro v d hv
    rw [hdist] at hv
    split_ifs at hv with hfresh
    · exact .inr ⟨hfresh.1, hfresh.2, (Option.some.inj hv).symm⟩
    · exact .inl hv
  have hnear : ∀ {v d}, t.dist v = some d → d ≤ k + 1 := by
    intro v d hv
    obtain hv | ⟨-, -, rfl⟩ := hcases hv
    · exact h.near u rest hqueue v k d hu hv
    · exact Nat.le_refl _
  have hsorted := h.sorted
  rw [hqueue, List.pairwise_cons] at hsorted
  have hrest : ∀ {v d}, v ∈ t.queue → t.dist v = some d → k ≤ d := by
    intro v d hv hd
    obtain hold' | ⟨-, -, rfl⟩ := hcases hd
    · rw [hnext, List.mem_append, hnew] at hv
      obtain hv | ⟨-, hv⟩ := hv
      · exact hsorted.1 v hv k d hu hold'
      · change s.dist v = none at hv
        rw [hv] at hold'
        cases hold'
    · exact Nat.le_succ k
  refine ⟨hold h.origin, fun v d hv => ?_, fun v d hv => ?_, fun v hv => ?_, ?_, ?_⟩
  · obtain hv | ⟨hadj, -, rfl⟩ := hcases hv
    · exact h.sound v d hv
    · exact .succ (h.sound u k hu) hadj
  · by_cases hvu : v = u
    · subst hvu
      have hdk : d = k := Option.some.inj (hv.symm.trans (hold hu))
      subst hdk
      refine .inr fun w hw => ?_
      cases hseen : s.dist w with
      | none => exact ⟨d + 1, Nat.le_refl _, by rw [hdist, if_pos ⟨hw, hseen⟩]⟩
      | some e => exact ⟨e, hnear (hold hseen), hold hseen⟩
    · obtain hv | ⟨hadj, hnone, rfl⟩ := hcases hv
      · obtain hmem | hadj := h.closed v d hv
        · rw [hqueue, List.mem_cons] at hmem
          exact .inl (by rw [hnext]; exact List.mem_append_left _ (hmem.resolve_left hvu))
        · exact .inr fun w hw => by
            obtain ⟨e, he, hwe⟩ := hadj w hw
            exact ⟨e, he, hold hwe⟩
      · exact .inl (by rw [hnext]; exact List.mem_append_right _ ((hnew v).mpr ⟨hadj, hnone⟩))
  · rw [hnext, List.mem_append, hnew] at hv
    obtain hv | ⟨hadj, hnone⟩ := hv
    · obtain ⟨d, hd⟩ := Option.ne_none_iff_exists'.mp
        (h.queued v (by rw [hqueue]; exact List.mem_cons_of_mem u hv))
      rw [hold hd]
      exact Option.some_ne_none d
    · rw [hdist, if_pos ⟨hadj, hnone⟩]
      exact Option.some_ne_none _
  · rw [hnext, List.pairwise_append]
    have hkept : ∀ {v d}, v ∈ rest → t.dist v = some d → s.dist v = some d := by
      intro v d hv hd
      refine (hcases hd).resolve_right fun hfresh => ?_
      exact h.queued v (by rw [hqueue]; exact List.mem_cons_of_mem u hv) hfresh.2.1
    have hfresh : ∀ {v d}, v ∈ new → t.dist v = some d → d = k + 1 := by
      intro v d hv hd
      rw [hdist, if_pos ((hnew v).mp hv)] at hd
      exact (Option.some.inj hd).symm
    refine ⟨hsorted.2.imp_of_mem fun hv hw hle d e hd he => hle d e (hkept hv hd) (hkept hw he),
      List.pairwise_of_forall_mem_list fun v hv w hw d e hd he => ?_, fun v hv w hw d e hd he => ?_⟩
    · rw [hfresh hv hd, hfresh hw he]
    · rw [hfresh hw he]
      exact hnear hd
  · intro w tail hw v d e hd he
    have := hrest (by rw [hw]; exact .head _) hd
    have := hnear he
    omega

omit [DecidableEq α] in
/-- Once the queue is empty, every walk bounds a distance. -/
lemma Inv.complete {s : State α} (h : Inv adj src s) (hqueue : s.queue = []) {n : Nat} {v : α}
    (hwalk : Hops adj src n v) : ∃ d ≤ n, s.dist v = some d := by
  induction hwalk with
  | zero => exact ⟨0, Nat.le_refl 0, h.origin⟩
  | @succ n u v _ hadj ih =>
    obtain ⟨d, hd, hu⟩ := ih
    have hmem : u ∉ s.queue := by rw [hqueue]; exact List.not_mem_nil
    obtain ⟨e, he, hv⟩ := (h.closed u d hu).resolve_left hmem v hadj
    exact ⟨e, by omega, hv⟩

omit [DecidableEq α] in
lemma Inv.distance {s : State α} (h : Inv adj src s) (hqueue : s.queue = []) (v : α) (d : Nat) :
    s.dist v = some d ↔ Distance adj src v d := by
  constructor
  · intro hv
    refine ⟨h.sound v d hv, fun n hn => ?_⟩
    obtain ⟨e, he, hve⟩ := h.complete hqueue hn
    rw [hv] at hve
    cases hve
    exact he
  · rintro ⟨hwalk, hleast⟩
    obtain ⟨e, he, hv⟩ := h.complete hqueue hwalk
    rwa [Nat.le_antisymm (hleast (h.sound v e hv)) he]

end Invariant

section Termination

variable [Fintype α] {adj : α → List α} {src : α}

/-- The nodes without a distance. -/
def unseen (dist : α → Option Nat) : Finset α := Finset.univ.filter fun v => dist v = none

lemma Visited.measure {k : Nat} {l : List α} {s t : State α} (h : Visited k l s t) :
    (unseen t.dist).card + t.queue.length = (unseen s.dist).card + s.queue.length := by
  obtain ⟨hdist, new, hqueue, hnodup, hnew⟩ := h
  have hsplit : unseen s.dist = unseen t.dist ∪ new.toFinset := by
    ext v
    simp only [unseen, Finset.mem_filter, Finset.mem_univ, true_and, Finset.mem_union,
      List.mem_toFinset, hnew, hdist]
    split_ifs with hv
    · simp [hv]
    · simp [hv]
  have hdisjoint : Disjoint (unseen t.dist) new.toFinset := by
    rw [Finset.disjoint_left]
    intro v hv hmem
    rw [unseen, Finset.mem_filter, hdist, if_pos ((hnew v).mp (List.mem_toFinset.mp hmem))] at hv
    cases hv.2
  rw [hsplit, Finset.card_union_of_disjoint hdisjoint, List.toFinset_card_of_nodup hnodup, hqueue,
    List.length_append]
  omega

lemma loop_gives {s : State α} (h : Inv adj src s) :
    ∃ dist, Gives (fun fuel => loop adj fuel s) dist ∧
      ∀ v d, dist v = some d ↔ Distance adj src v d := by
  induction hm : (unseen s.dist).card + s.queue.length generalizing s with
  | zero =>
    have hqueue : s.queue = [] := List.eq_nil_of_length_eq_zero (by omega)
    refine ⟨s.dist, .of_succ ?_, h.distance hqueue⟩
    simp only [loop, hqueue]
    exact .of_const s.dist
  | succ m ih =>
    cases hqueue : s.queue with
    | nil =>
      refine ⟨s.dist, .of_succ ?_, h.distance hqueue⟩
      simp only [loop, hqueue]
      exact .of_const s.dist
    | cons u rest =>
      obtain ⟨k, hu⟩ := Option.ne_none_iff_exists'.mp (h.queued u (by rw [hqueue]; exact .head _))
      have hmeasure := (visited_foldl (adj u) (⟨s.dist, rest⟩ : State α) hu).measure
      rw [hqueue, List.length_cons, ← Nat.add_assoc, Nat.succ_inj] at hm
      obtain ⟨dist, hgives, hdist⟩ := ih (h.step hqueue) (hmeasure.trans hm)
      refine ⟨dist, .of_succ ?_, hdist⟩
      simp only [loop, hqueue]
      exact hgives

/-- The search ends, with the distance of every node that can be reached. -/
theorem search_gives (adj : α → List α) (src : α) :
    ∃ dist, Gives (search adj src) dist ∧ ∀ v d, dist v = some d ↔ Distance adj src v d :=
  loop_gives inv_start

end Termination

end HopSearch
