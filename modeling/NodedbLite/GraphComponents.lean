import NodedbLite.UnionFind
import Mathlib

/-! The adjacency index that the graph algorithms read, and its weakly connected components. -/
namespace NodedbLite.GraphAlgo

open FuelRun UnionFind Relation

/-- The index by raw node ids. An edge is listed with its label at both of its ends, as often as it
occurs. -/
structure CsrIndex where
  nodeCount : Nat
  nodeCount_lt : nodeCount < 2 ^ 32
  nodeNameRaw : Fin nodeCount → String
  iterOutEdgesRaw : Fin nodeCount → List (Nat × Fin nodeCount)
  iterInEdgesRaw : Fin nodeCount → List (Nat × Fin nodeCount)
  inverse : ∀ u v label,
    (iterOutEdgesRaw u).count (label, v) = (iterInEdgesRaw v).count (label, u)

namespace CsrIndex

variable (csr : CsrIndex)

abbrev Node : Type := Fin csr.nodeCount

/-- There is an edge from the first node to the second. -/
def Edge (u v : csr.Node) : Prop := v ∈ (csr.iterOutEdgesRaw u).map Prod.snd

instance (u v : csr.Node) : Decidable (csr.Edge u v) := by unfold Edge; infer_instance

/-- The nodes are joined by a path of edges taken in either direction. -/
def Joined : csr.Node → csr.Node → Prop :=
  ReflTransGen fun u v => csr.Edge u v ∨ csr.Edge v u

/-- A row of a result: the name of a node and a number for it. -/
def row (value : csr.Node → Int) (i : csr.Node) : String × Int := (csr.nodeNameRaw i, value i)

lemma mem_out_iff_mem_in (u v : csr.Node) (label : Nat) :
    (label, v) ∈ csr.iterOutEdgesRaw u ↔ (label, u) ∈ csr.iterInEdgesRaw v := by
  rw [← List.count_pos_iff, csr.inverse, List.count_pos_iff]

lemma edge_iff_mem_in (u v : csr.Node) :
    csr.Edge u v ↔ u ∈ (csr.iterInEdgesRaw v).map Prod.snd := by
  simp only [Edge, List.mem_map, Prod.exists, exists_eq_right, mem_out_iff_mem_in]

lemma joined_iff_eqvGen (u v : csr.Node) : csr.Joined u v ↔ EqvGen csr.Edge u v := by
  constructor
  · intro h
    induction h with
    | refl => exact .refl u
    | tail _ hstep ih =>
      exact ih.trans _ _ _ (hstep.elim (.rel _ _) fun h => .symm _ _ (.rel _ _ h))
  · intro h
    have : Std.Symm fun u v => csr.Edge u v ∨ csr.Edge v u := ⟨fun _ _ h => h.symm⟩
    have hsymm : Std.Symm csr.Joined := ReflTransGen.stdSymm
    induction h with
    | rel u v h => exact .single (.inl h)
    | refl u => exact .refl
    | symm u v _ ih => exact hsymm.symm _ _ ih
    | trans u v w _ _ ih ih' => exact ih.trans ih'

/-- How many edges lead from the first node to the second. -/
def mult (u v : csr.Node) : Nat := (csr.iterOutEdgesRaw u).countP fun edge => edge.2 = v

lemma edge_iff_mult_pos (u v : csr.Node) : csr.Edge u v ↔ 0 < csr.mult u v := by
  simp [Edge, mult, List.countP_pos_iff]

lemma countP_mem_eq_sum (u : csr.Node) (s : Finset csr.Node) :
    (csr.iterOutEdgesRaw u).countP (fun edge => edge.2 ∈ s) = ∑ v ∈ s, csr.mult u v := by
  simp only [mult]
  induction csr.iterOutEdgesRaw u with
  | nil => simp
  | cons edge edges ih =>
    simp only [List.countP_cons, ih, Finset.sum_add_distrib, decide_eq_true_eq]
    rw [Finset.sum_ite_eq]

/-- The index of a list of edges, each with its source, its label and its destination. -/
def ofEdges (n : Nat) (hn : n < 2 ^ 32) (name : Fin n → String)
    (edges : List (Fin n × Nat × Fin n)) : CsrIndex where
  nodeCount := n
  nodeCount_lt := hn
  nodeNameRaw := name
  iterOutEdgesRaw u := edges.filterMap fun e => if e.1 = u then some (e.2.1, e.2.2) else none
  iterInEdgesRaw v := edges.filterMap fun e => if e.2.2 = v then some (e.2.1, e.1) else none
  inverse u v label := by
    induction edges with
    | nil => rfl
    | cons e edges ih =>
      obtain ⟨src, l, dst⟩ := e
      by_cases hsrc : src = u <;> by_cases hdst : dst = v <;>
        simp [hsrc, hdst, ih, List.count_cons]

end CsrIndex

section Wcc

variable (csr : CsrIndex)

/-- Every edge of the node joins its ends. -/
def unionEdges (fuel : Nat) (parent : csr.Node → csr.Node) (src : csr.Node) :
    Option (csr.Node → csr.Node) :=
  (csr.iterOutEdgesRaw src).foldlM (fun parent edge => union fuel parent src edge.2) parent

def wcc (fuel : Nat) : Option (List (String × Int)) :=
  if csr.nodeCount = 0 then some []
  else
    ((List.finRange csr.nodeCount).foldlM (unionEdges csr fuel) id).bind fun parent =>
      (findEach fuel parent (List.finRange csr.nodeCount)).map fun comps =>
        List.zipWith (fun i comp => (csr.nodeNameRaw i, (comp.val : Int)))
          (List.finRange csr.nodeCount) comps

/-- The forest stands for the equivalence that a relation generates. -/
def StandsFor (R : csr.Node → csr.Node → Prop) (parent : csr.Node → csr.Node) : Prop :=
  Forest parent ∧ ∀ x y, Same parent x y ↔ EqvGen R x y

variable {csr}

lemma StandsFor.congr {R S : csr.Node → csr.Node → Prop} {parent : csr.Node → csr.Node}
    (h : StandsFor csr R parent) (hRS : ∀ x y, R x y ↔ S x y) : StandsFor csr S parent := by
  obtain rfl : R = S := by
    funext x y
    exact propext (hRS x y)
  exact h

lemma standsFor_id : StandsFor csr (fun _ _ => False) id := by
  refine ⟨fun x => ⟨x, .here rfl⟩, fun x y => ⟨?_, ?_⟩⟩
  · rintro ⟨r, hx, hy⟩
    obtain rfl := hx.unique (.here rfl)
    obtain rfl := hy.unique (.here rfl)
    exact .refl _
  · intro h
    induction h with
    | rel _ _ h => exact h.elim
    | refl x => exact ⟨x, .here rfl, .here rfl⟩
    | symm _ _ _ ih => exact ih.symm
    | trans _ _ _ _ _ ih ih' => exact ih.trans ih'

lemma StandsFor.union {R : csr.Node → csr.Node → Prop} {parent : csr.Node → csr.Node}
    (h : StandsFor csr R parent) (a b : csr.Node) :
    ∃ parent', Gives (fun fuel => union fuel parent a b) parent' ∧
      StandsFor csr (fun u v => R u v ∨ (u = a ∧ v = b)) parent' := by
  obtain ⟨parent', hgives, hforest, hsame⟩ := union_gives h.1 a b
  refine ⟨parent', hgives, hforest, fun x y => ?_⟩
  rw [hsame, Joins.congr h.2, eqvGen_insert]

lemma StandsFor.unionEdges {R : csr.Node → csr.Node → Prop} {parent : csr.Node → csr.Node}
    (h : StandsFor csr R parent) (src : csr.Node) :
    ∃ parent', Gives (fun fuel => unionEdges csr fuel parent src) parent' ∧
      StandsFor csr (fun u v => R u v ∨ (u = src ∧ csr.Edge src v)) parent' := by
  refine gives_foldlM (fun fuel parent edge => UnionFind.union fuel parent src edge.2)
    (fun done => StandsFor csr fun u v => R u v ∨ (u = src ∧ v ∈ done.map Prod.snd))
    (csr.iterOutEdgesRaw src) ?_ (h.congr fun u v => by simp)
  intro done parent edge _ hinv
  obtain ⟨parent', hgives, hstands⟩ := hinv.union src edge.2
  refine ⟨parent', hgives, hstands.congr fun u v => ?_⟩
  simp only [List.map_append, List.mem_append, List.map_cons, List.map_nil, List.mem_singleton]
  tauto

lemma unionAll_gives (csr : CsrIndex) :
    ∃ parent, Gives (fun fuel => (List.finRange csr.nodeCount).foldlM (unionEdges csr fuel) id)
      parent ∧ StandsFor csr csr.Edge parent := by
  have hloop := gives_foldlM (GraphAlgo.unionEdges csr)
    (fun done => StandsFor csr fun u v => u ∈ done ∧ csr.Edge u v) (List.finRange csr.nodeCount)
    ?_ (standsFor_id.congr fun u v => by simp)
  · obtain ⟨parent, hgives, hstands⟩ := hloop
    exact ⟨parent, hgives, hstands.congr fun u v => by simp⟩
  · intro done parent src _ hinv
    obtain ⟨parent', hgives, hstands⟩ := hinv.unionEdges src
    refine ⟨parent', hgives, hstands.congr fun u v => ?_⟩
    rw [List.mem_append, List.mem_singleton]
    constructor
    · rintro (⟨hu, hv⟩ | ⟨rfl, hv⟩)
      · exact ⟨.inl hu, hv⟩
      · exact ⟨.inr rfl, hv⟩
    · rintro ⟨hu | rfl, hv⟩
      · exact .inl ⟨hu, hv⟩
      · exact .inr ⟨rfl, hv⟩

end Wcc

/-- The components that are reported are the classes of nodes joined by paths. -/
theorem wcc_components_exact (csr : CsrIndex) :
    ∃ comp : csr.Node → Nat,
      Gives (wcc csr)
        ((List.finRange csr.nodeCount).map (csr.row fun i => comp i)) ∧
      ∀ u v, comp u = comp v ↔ csr.Joined u v := by
  obtain ⟨parent, hunion, hforest, hsame⟩ := unionAll_gives csr
  obtain ⟨roots, hfind, hroots⟩ := findEach_gives hforest (List.finRange csr.nodeCount)
  choose root hroot using hforest
  have heq : (List.finRange csr.nodeCount).map root = roots := by
    rw [← List.forall₂_eq_eq_eq, List.forall₂_map_left_iff]
    exact hroots.imp fun i r h => (hroot i).unique h
  subst heq
  refine ⟨fun i => (root i).val, ?_, fun u v => ?_⟩
  · by_cases hzero : csr.nodeCount = 0
    · have hnone : List.finRange csr.nodeCount = [] := by
        rw [← List.length_eq_zero_iff, List.length_finRange, hzero]
      have hwcc : wcc csr = fun _ => some [] := funext fun fuel => if_pos hzero
      rw [hwcc, hnone]
      exact .of_const []
    · have hwcc : wcc csr = fun fuel => _ := funext fun fuel => if_neg hzero
      rw [hwcc]
      refine hunion.bind ?_
      have hrows := hfind.map fun comps =>
        List.zipWith (fun i comp => (csr.nodeNameRaw i, (comp.val : Int)))
          (List.finRange csr.nodeCount) comps
      rw [List.zipWith_map_right, List.zipWith_self] at hrows
      exact hrows
  · rw [csr.joined_iff_eqvGen, ← hsame, Fin.val_inj]
    constructor
    · exact fun h => ⟨root u, hroot u, h ▸ hroot v⟩
    · rintro ⟨r, hu, hv⟩
      exact ((hroot u).unique hu).trans (hv.unique (hroot v))

end NodedbLite.GraphAlgo
