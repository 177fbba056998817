import NodedbLite.GraphComponents
import NodedbLite.HopSearch

/-! Diameter and radius, from one breadth-first search for each node. -/
namespace NodedbLite.GraphAlgo

open FuelRun HopSearch

section Diameter

variable (csr : CsrIndex)

def successors (u : csr.Node) : List csr.Node := (csr.iterOutEdgesRaw u).map Prod.snd

/-- The largest distance that a search from the node finds. A node without a distance is one whose
entry is still `i64::MAX`. -/
def eccFrom (src : csr.Node) (fuel : Nat) : Option Nat :=
  (search (successors csr) src fuel).map fun dist =>
    ((List.finRange csr.nodeCount).filterMap dist).max?.getD 0

/-- The largest eccentricity so far, and the least positive one if there is any. -/
structure EccBounds where
  maxEcc : Nat
  minEcc : Option Nat

def EccBounds.note (b : EccBounds) (ecc : Nat) : EccBounds where
  maxEcc := max b.maxEcc ecc
  minEcc := if 0 < ecc then some (b.minEcc.elim ecc fun m => min m ecc) else b.minEcc

def diameter (fuel : Nat) : Option (Nat × Nat) :=
  if csr.nodeCount = 0 then some (0, 0)
  else
    ((List.finRange csr.nodeCount).foldlM
      (fun (b : EccBounds) src => (eccFrom csr src fuel).map b.note) ⟨0, none⟩).map fun b =>
        (b.maxEcc, b.minEcc.getD 0)

/-- The hop count of a shortest path between two nodes, if there is a path. -/
abbrev HopCount (u v : csr.Node) (d : Nat) : Prop := Distance (successors csr) u v d

/-- The largest hop count from a node, over the nodes that can be reached from it. -/
def Eccentricity (u : csr.Node) (e : Nat) : Prop := IsGreatest {d | ∃ v, HopCount csr u v d} e

variable {csr}

lemma hopCount_self (u : csr.Node) : HopCount csr u u 0 := ⟨.zero, fun _ _ => Nat.zero_le _⟩

lemma Eccentricity.unique {u : csr.Node} {d e : Nat} (hd : Eccentricity csr u d)
    (he : Eccentricity csr u e) : d = e :=
  IsGreatest.unique hd he

lemma exists_hopCount_pos {u v : csr.Node} (hedge : csr.Edge u v) (hne : u ≠ v) :
    ∃ d, 0 < d ∧ HopCount csr u v d := by
  have hwalk : ∃ n, Hops (successors csr) u n v := ⟨1, .succ .zero hedge⟩
  classical
  refine ⟨Nat.find hwalk, Nat.pos_of_ne_zero fun hzero => ?_, Nat.find_spec hwalk,
    fun n hn => Nat.find_min' hwalk hn⟩
  have hnone := Nat.find_spec hwalk
  rw [hzero] at hnone
  cases hnone
  exact hne rfl

lemma eccFrom_gives (src : csr.Node) : ∃ e, Gives (eccFrom csr src) e ∧ Eccentricity csr src e := by
  obtain ⟨dist, hgives, hdist⟩ := search_gives (successors csr) src
  have hmem : ∀ d, d ∈ (List.finRange csr.nodeCount).filterMap dist ↔
      ∃ v, HopCount csr src v d := by
    intro d
    simp only [List.mem_filterMap, List.mem_finRange, true_and, hdist]
  have hne : (List.finRange csr.nodeCount).filterMap dist ≠ [] :=
    List.ne_nil_of_mem ((hmem 0).mpr ⟨src, hopCount_self src⟩)
  obtain ⟨e, he⟩ := Option.isSome_iff_exists.mp (List.isSome_max?_of_ne_nil hne)
  refine ⟨e, ?_, ?_⟩
  · have h := hgives.map fun dist => ((List.finRange csr.nodeCount).filterMap dist).max?.getD 0
    rw [he] at h
    exact h
  · obtain ⟨hin, hle⟩ := List.max?_eq_some_iff.mp he
    exact ⟨(hmem e).mp hin, fun d hd => hle d ((hmem d).mpr hd)⟩

/-- The bounds are those of the nodes that have been searched from. -/
structure EccBounds.Of (b : EccBounds) (done : List csr.Node) : Prop where
  le_max : ∀ u ∈ done, ∀ e, Eccentricity csr u e → e ≤ b.maxEcc
  max_mem : b.maxEcc = 0 ∨ ∃ u ∈ done, Eccentricity csr u b.maxEcc
  min_none : b.minEcc = none → ∀ u ∈ done, ∀ e, Eccentricity csr u e → e = 0
  min_some : ∀ m, b.minEcc = some m →
    0 < m ∧ (∃ u ∈ done, Eccentricity csr u m) ∧
      ∀ u ∈ done, ∀ e, Eccentricity csr u e → 0 < e → m ≤ e

lemma EccBounds.of_nil : (⟨0, none⟩ : EccBounds).Of ([] : List csr.Node) where
  le_max _ h := absurd h List.not_mem_nil
  max_mem := .inl rfl
  min_none _ _ h := absurd h List.not_mem_nil
  min_some _ h := by cases h

lemma EccBounds.Of.note {b : EccBounds} {done : List csr.Node} (h : b.Of done) {src : csr.Node}
    {ecc : Nat} (hecc : Eccentricity csr src ecc) : (b.note ecc).Of (done ++ [src]) := by
  have hsplit : ∀ {u e}, u ∈ done ++ [src] → Eccentricity csr u e → u ∈ done ∨ e = ecc := by
    intro u e hu he
    obtain hu | hu := List.mem_append.mp hu
    · exact .inl hu
    · obtain rfl := List.mem_singleton.mp hu
      exact .inr (he.unique hecc)
  have hlast : src ∈ done ++ [src] := List.mem_append_right _ (List.mem_singleton_self src)
  refine ⟨fun u hu e he => ?_, ?_, fun hnone u hu e he => ?_, fun m hm => ?_⟩
  · obtain hu | rfl := hsplit hu he
    · exact le_max_of_le_left (h.le_max u hu e he)
    · exact Nat.le_max_right _ _
  · obtain hle | hle := Nat.le_total ecc b.maxEcc
    · rw [EccBounds.note, Nat.max_eq_left hle]
      obtain hzero | ⟨u, hu, hmax⟩ := h.max_mem
      · exact .inl hzero
      · exact .inr ⟨u, List.mem_append_left _ hu, hmax⟩
    · rw [EccBounds.note, Nat.max_eq_right hle]
      exact .inr ⟨src, hlast, hecc⟩
  · rw [EccBounds.note] at hnone
    split_ifs at hnone with hpos
    obtain hu | rfl := hsplit hu he
    · exact h.min_none hnone u hu e he
    · exact Nat.eq_zero_of_not_pos hpos
  · rw [EccBounds.note] at hm
    split_ifs at hm with hpos
    · cases hb : b.minEcc with
      | none =>
        obtain rfl : ecc = m := by simpa [hb] using hm
        refine ⟨hpos, ⟨src, hlast, hecc⟩, fun u hu e he he0 => ?_⟩
        obtain hu | rfl := hsplit hu he
        · exact absurd (h.min_none hb u hu e he) (Nat.ne_of_gt he0)
        · exact Nat.le_refl _
      | some k =>
        obtain rfl : min k ecc = m := by simpa [hb] using hm
        obtain ⟨hk, ⟨w, hw, hwk⟩, hleast⟩ := h.min_some k hb
        refine ⟨lt_min hk hpos, ?_, fun u hu e he he0 => ?_⟩
        · obtain hle | hle := Nat.le_total k ecc
          · rw [Nat.min_eq_left hle]
            exact ⟨w, List.mem_append_left _ hw, hwk⟩
          · rw [Nat.min_eq_right hle]
            exact ⟨src, hlast, hecc⟩
        · obtain hu | rfl := hsplit hu he
          · exact (Nat.min_le_left _ _).trans (hleast u hu e he he0)
          · exact Nat.min_le_right _ _
    · obtain ⟨hk, ⟨w, hw, hwk⟩, hleast⟩ := h.min_some m hm
      refine ⟨hk, ⟨w, List.mem_append_left _ hw, hwk⟩, fun u hu e he he0 => ?_⟩
      obtain hu | rfl := hsplit hu he
      · exact hleast u hu e he he0
      · exact absurd he0 hpos

lemma bounds_gives (csr : CsrIndex) :
    ∃ b : EccBounds, Gives (fun fuel => (List.finRange csr.nodeCount).foldlM
        (fun b src => (eccFrom csr src fuel).map b.note) ⟨0, none⟩) b ∧
      b.Of (List.finRange csr.nodeCount) := by
  refine gives_foldlM (fun fuel (b : EccBounds) src => (eccFrom csr src fuel).map b.note)
    (fun done b => b.Of done) _ ?_ EccBounds.of_nil
  intro done b src _ hb
  obtain ⟨e, hgives, hecc⟩ := eccFrom_gives src
  exact ⟨b.note e, hgives.map b.note, hb.note hecc⟩

end Diameter

/-- The first value is the largest hop count of a shortest path, the second the least positive
eccentricity; a graph without nodes has the first 0, one without an edge between two nodes the
second. -/
theorem diameter_exact (csr : CsrIndex) :
    ∃ d r, Gives (diameter csr) (d, r) ∧
      (csr.nodeCount = 0 ∧ d = 0 ∨ IsGreatest {n | ∃ u v, HopCount csr u v n} d) ∧
      ((∀ u v, csr.Edge u v → u = v) ∧ r = 0 ∨
        IsLeast {e | 0 < e ∧ ∃ u, Eccentricity csr u e} r) := by
  by_cases hzero : csr.nodeCount = 0
  · have hdiameter : diameter csr = fun _ => some (0, 0) := funext fun _ => if_pos hzero
    rw [hdiameter]
    have hempty : IsEmpty csr.Node := by
      rw [CsrIndex.Node, hzero]
      infer_instance
    exact ⟨0, 0, .of_const _, .inl ⟨hzero, rfl⟩, .inl ⟨fun u => hempty.elim u, rfl⟩⟩
  obtain ⟨b, hgives, hb⟩ := bounds_gives csr
  have hdiameter : diameter csr = fun fuel => _ := funext fun fuel => if_neg hzero
  rw [hdiameter]
  have hall : ∀ u : csr.Node, u ∈ List.finRange csr.nodeCount := List.mem_finRange
  have hdist : ∀ {u v n}, HopCount csr u v n → ∃ e, Eccentricity csr u e ∧ n ≤ e := by
    intro u v n hn
    obtain ⟨e, -, he⟩ := eccFrom_gives u
    exact ⟨e, he, he.2 ⟨v, hn⟩⟩
  refine ⟨b.maxEcc, b.minEcc.getD 0, hgives.map _, .inr ⟨?_, ?_⟩, ?_⟩
  · obtain hmax | ⟨u, -, hu⟩ := hb.max_mem
    · have src : csr.Node := ⟨0, Nat.pos_of_ne_zero hzero⟩
      exact ⟨src, src, by rw [hmax]; exact hopCount_self src⟩
    · exact ⟨u, hu.1⟩
  · rintro n ⟨u, v, hn⟩
    obtain ⟨e, he, hle⟩ := hdist hn
    exact hle.trans (hb.le_max u (hall u) e he)
  · cases hmin : b.minEcc with
    | none =>
      refine .inl ⟨fun u v hedge => ?_, rfl⟩
      by_contra hne
      obtain ⟨d, hd, hcount⟩ := exists_hopCount_pos hedge hne
      obtain ⟨e, he, hle⟩ := hdist hcount
      have := hb.min_none hmin u (hall u) e he
      omega
    | some m =>
      obtain ⟨hpos, ⟨u, -, hu⟩, hleast⟩ := hb.min_some m hmin
      exact .inr ⟨⟨hpos, u, hu⟩, fun e ⟨he0, w, hw⟩ => hleast w (hall w) e hw he0⟩

end NodedbLite.GraphAlgo
