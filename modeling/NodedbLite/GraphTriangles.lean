import NodedbLite.GraphComponents

/-! Triangle counts. A node's count is half the number of edges among its neighbours, which is the
number of triangles as long as the edges beyond two for a pair make up for the pairs with only
one. -/
namespace NodedbLite.GraphAlgo

open Finset

section Triangles

variable (csr : CsrIndex)

/-- The ends of the edges of a node, in either direction. -/
def neighbors (node : csr.Node) : Finset csr.Node :=
  ((csr.iterOutEdgesRaw node).map Prod.snd ++ (csr.iterInEdgesRaw node).map Prod.snd).toFinset

/-- The edges between neighbours. -/
def edgesAmong (node : csr.Node) : Nat :=
  ∑ u ∈ neighbors csr node,
    (csr.iterOutEdgesRaw u).countP fun edge => edge.2 ∈ neighbors csr node

def triangles : List (String × Int) :=
  (List.finRange csr.nodeCount).map (csr.row fun i => (edgesAmong csr i : Int) / 2)

/-- The nodes are joined by an edge in some direction. -/
def Adjacent (u v : csr.Node) : Prop := csr.Edge u v ∨ csr.Edge v u

instance (u v : csr.Node) : Decidable (Adjacent csr u v) := by unfold Adjacent; infer_instance

/-- The unordered pairs of distinct other nodes that are joined to the node. -/
def pairsAt (node : csr.Node) : Finset (csr.Node × csr.Node) :=
  univ.filter fun p => p.1 < p.2 ∧ p.1 ≠ node ∧ p.2 ≠ node ∧
    Adjacent csr node p.1 ∧ Adjacent csr node p.2

/-- The triangles at a node: the pairs that are joined to each other too. -/
def trianglesAt (node : csr.Node) : Nat :=
  ((pairsAt csr node).filter fun p => Adjacent csr p.1 p.2).card

/-- The edges of a pair, in both directions. -/
def pairEdges (p : csr.Node × csr.Node) : Nat := csr.mult p.1 p.2 + csr.mult p.2 p.1

/-- The pairs with a single edge. -/
def singlePairs (node : csr.Node) : Nat :=
  ((pairsAt csr node).filter fun p => pairEdges csr p = 1).card

/-- The edges among the neighbours of a node that belong to no pair: loops, and the edges of the node
itself when it is its own neighbour. -/
def strayEdges (node : csr.Node) : Nat :=
  ∑ p ∈ (neighbors csr node ×ˢ neighbors csr node).filter
    (fun p => p.1 = p.2 ∨ p.1 = node ∨ p.2 = node), csr.mult p.1 p.2

/-- The edges beyond two for a pair, and those of no pair. -/
def surplusEdges (node : csr.Node) : Nat :=
  strayEdges csr node + ∑ p ∈ pairsAt csr node, (pairEdges csr p - 2)

variable {csr}

lemma mem_neighbors {node u : csr.Node} : u ∈ neighbors csr node ↔ Adjacent csr node u := by
  rw [neighbors, List.mem_toFinset, List.mem_append, ← csr.edge_iff_mem_in]
  rfl

lemma adjacent_iff_pairEdges_pos {p : csr.Node × csr.Node} :
    Adjacent csr p.1 p.2 ↔ 0 < pairEdges csr p := by
  rw [Adjacent, csr.edge_iff_mult_pos, csr.edge_iff_mult_pos, pairEdges]
  omega

lemma sum_pairEdges (node : csr.Node) :
    ∑ p ∈ pairsAt csr node, pairEdges csr p =
      ∑ p ∈ (neighbors csr node ×ˢ neighbors csr node).filter
        (fun p => ¬(p.1 = p.2 ∨ p.1 = node ∨ p.2 = node)), csr.mult p.1 p.2 := by
  simp only [pairEdges, sum_add_distrib]
  rw [← sum_filter_add_sum_filter_not ((neighbors csr node ×ˢ neighbors csr node).filter
    fun p => ¬(p.1 = p.2 ∨ p.1 = node ∨ p.2 = node)) (fun p => p.1 < p.2)
    (fun p => csr.mult p.1 p.2)]
  congr 1
  · refine sum_congr ?_ fun _ _ => rfl
    ext ⟨u, v⟩
    simp only [pairsAt, mem_filter, mem_univ, true_and, mem_product, mem_neighbors]
    grind
  · refine sum_nbij' Prod.swap Prod.swap ?_ ?_ (fun _ _ => Prod.swap_swap _)
      (fun _ _ => Prod.swap_swap _) fun _ _ => rfl
    · rintro ⟨u, v⟩ h
      simp only [pairsAt, mem_filter, mem_univ, true_and, mem_product, mem_neighbors,
        Prod.swap_prod_mk] at h ⊢
      grind
    · rintro ⟨u, v⟩ h
      simp only [pairsAt, mem_filter, mem_univ, true_and, mem_product, mem_neighbors,
        Prod.swap_prod_mk] at h ⊢
      grind

/-- The edges among the neighbours are the stray ones and those of the pairs. -/
lemma edgesAmong_eq (node : csr.Node) :
    edgesAmong csr node = strayEdges csr node + ∑ p ∈ pairsAt csr node, pairEdges csr p := by
  have hall : edgesAmong csr node =
      ∑ p ∈ neighbors csr node ×ˢ neighbors csr node, csr.mult p.1 p.2 := by
    rw [edgesAmong, sum_product]
    exact sum_congr rfl fun u _ => csr.countP_mem_eq_sum u _
  rw [hall, sum_pairEdges, strayEdges, sum_filter_add_sum_filter_not]

lemma pairEdges_balance (node : csr.Node) :
    ∑ p ∈ pairsAt csr node, pairEdges csr p + singlePairs csr node =
      2 * trianglesAt csr node + ∑ p ∈ pairsAt csr node, (pairEdges csr p - 2) := by
  rw [singlePairs, trianglesAt, card_filter, card_filter, mul_sum, ← sum_add_distrib,
    ← sum_add_distrib]
  refine sum_congr rfl fun p _ => ?_
  have hadjacent : Adjacent csr p.1 p.2 ↔ 0 < pairEdges csr p := adjacent_iff_pairEdges_pos
  by_cases hjoined : Adjacent csr p.1 p.2
  · rw [if_pos hjoined]
    have hpos := hadjacent.mp hjoined
    split_ifs <;> omega
  · rw [if_neg hjoined]
    have hnone := mt hadjacent.mpr hjoined
    split_ifs <;> omega

lemma edgesAmong_balance (node : csr.Node) :
    edgesAmong csr node + singlePairs csr node =
      2 * trianglesAt csr node + surplusEdges csr node := by
  have h := pairEdges_balance node
  rw [edgesAmong_eq, surplusEdges]
  omega

end Triangles

/-- The counts are right exactly if at every node the edges beyond two for a pair of neighbours are as
many as the pairs with a single edge, or one more. -/
theorem triangles_exact_iff (csr : CsrIndex) :
    triangles csr = (List.finRange csr.nodeCount).map (csr.row fun i => (trianglesAt csr i : Int)) ↔
      ∀ node, singlePairs csr node ≤ surplusEdges csr node ∧
        surplusEdges csr node ≤ singlePairs csr node + 1 := by
  have hrow : ∀ node, csr.row (fun i => (edgesAmong csr i : Int) / 2) node =
      csr.row (fun i => (trianglesAt csr i : Int)) node ↔
      singlePairs csr node ≤ surplusEdges csr node ∧
        surplusEdges csr node ≤ singlePairs csr node + 1 := by
    intro node
    have h := edgesAmong_balance node
    simp only [CsrIndex.row, Prod.mk.injEq, true_and]
    omega
  rw [triangles, List.map_inj_left]
  simp only [List.mem_finRange, true_implies, hrow]

/-- Three nodes in a directed cycle. -/
def directedCycle : CsrIndex :=
  .ofEdges 3 (by decide) (fun i => ["a", "b", "c"].getD i "") [(0, 0, 1), (1, 0, 2), (2, 0, 0)]

theorem directedCycle_triangle_missed :
    triangles directedCycle = [("a", 0), ("b", 0), ("c", 0)] ∧
      ∀ node, trianglesAt directedCycle node = 1 := by
  decide +kernel

end NodedbLite.GraphAlgo
