import Mathlib
import NodedbLite.GraphMatch

/-! The graph an adjacency index stands for, and what a triple of fixed length makes of a row: one
row for each edge that fits the triple and agrees with the row. -/
namespace NodedbLite.Match

structure GraphEdge where
  src : String
  label : String
  dst : String
  deriving DecidableEq

/-- The other end of an edge, followed in a direction from a node. A loop has one other end, also
when it may be followed both ways. -/
def GraphEdge.farEnd (e : GraphEdge) (direction : Direction) (node : String) : Option String :=
  match direction with
  | .outgoing => if e.src = node then some e.dst else none
  | .incoming => if e.dst = node then some e.src else none
  | .both => if e.src = node then some e.dst else if e.dst = node then some e.src else none

structure PropertyGraph where
  nodes : List String
  nodes_nodup : nodes.Nodup
  hasLabel : String → String → Bool
  edges : List GraphEdge
  ends : ∀ e ∈ edges, e.src ∈ nodes ∧ e.dst ∈ nodes

namespace PropertyGraph

/-- The label and the far end of each edge at a node, for an optional label. -/
def hops (g : PropertyGraph) (node : String) (label : Option String) (direction : Direction) :
    List (String × String) :=
  (g.edges.filter fun e => label.all (· = e.label)).filterMap fun e =>
    (e.farEnd direction node).map fun far => (e.label, far)

lemma mem_hops {g : PropertyGraph} {node : String} {label : Option String} {direction : Direction}
    {l far : String} : (l, far) ∈ g.hops node label direction ↔
      ∃ e ∈ g.edges, (∀ x ∈ label, x = e.label) ∧ e.label = l ∧ e.farEnd direction node = some far := by
  simp only [hops, List.mem_filterMap, List.mem_filter, Option.map_eq_some_iff, Prod.mk.injEq]
  constructor
  · rintro ⟨e, ⟨he, hlabel⟩, far', hfar, rfl, rfl⟩
    exact ⟨e, he, by cases label <;> simp_all, rfl, hfar⟩
  · rintro ⟨e, he, hlabel, rfl, hfar⟩
    exact ⟨e, ⟨he, by cases label <;> simp_all⟩, far, hfar, rfl, rfl⟩

lemma far_mem_nodes {g : PropertyGraph} {node : String} {label : Option String}
    {direction : Direction} {hop : String × String} (h : hop ∈ g.hops node label direction) :
    hop.2 ∈ g.nodes := by
  obtain ⟨e, he, -, -, hfar⟩ := mem_hops.mp h
  obtain ⟨hsrc, hdst⟩ := g.ends e he
  cases direction <;> simp only [GraphEdge.farEnd] at hfar <;> split_ifs at hfar <;>
    rw [← Option.some.inj hfar] <;> assumption

end PropertyGraph

/-- The index has the nodes and labels of the graph, and its neighbour lists are exact. -/
structure Csr.Represents (csr : Csr) (g : PropertyGraph) : Prop where
  nodes : csr.nodes = g.nodes
  labels : ∀ node ∈ g.nodes, ∀ label,
    csr.nodeHasLabel (csr.nodes.idxOf node) label = g.hasLabel node label
  neighbors : ∀ node ∈ g.nodes, ∀ label direction hop,
    hop ∈ csr.neighbors node label direction ↔ hop ∈ g.hops node label direction

/-- Whether a node is at most so many hops away. -/
def PropertyGraph.reaches (g : PropertyGraph) (label : Option String) (direction : Direction) :
    Nat → String → String → Bool
  | 0, node, far => node = far
  | depth + 1, node, far =>
    node = far || (g.hops node label direction).any fun hop => g.reaches label direction depth hop.2 far

/-- An index of the graph. -/
def Csr.ofGraph (g : PropertyGraph) : Csr where
  nodes := g.nodes
  nodes_nodup := g.nodes_nodup
  nodeSurrogateRaw := id
  nodeHasLabel raw label := g.hasLabel (g.nodes.getD raw "") label
  neighbors := g.hops
  traverseBfs node label direction depth _ := g.nodes.filter (g.reaches label direction depth node)

lemma Csr.represents_ofGraph (g : PropertyGraph) : (Csr.ofGraph g).Represents g where
  nodes := rfl
  labels node hnode label := by
    change g.hasLabel ((Csr.ofGraph g).nodeNameRaw ((Csr.ofGraph g).nodes.idxOf node)) label = _
    rw [nodeNameRaw_idxOf hnode]
  neighbors _ _ _ _ _ := Iff.rfl

section Hops

variable {csr : Csr} {g : PropertyGraph}

/-- One edge for a triple, from its source to its destination. -/
structure Hop where
  src : String
  label : String
  dst : String
  deriving DecidableEq

def nodeFits (g : PropertyGraph) (binding : NodeBinding) (node : String) : Bool :=
  binding.label.all (g.hasLabel node)

/-- The variable of a binding, if it has one, is unbound or bound to the node. -/
def boundTo (row : BindingRow) (binding : NodeBinding) (node : String) : Bool :=
  (binding.name.bind row.get).all (fun existing => existing = node)

/-- The row extended by an edge. Both ends are compared with the row before either is bound. -/
def acceptHop (triple : PatternTriple) (row : BindingRow) (hop : Hop) : Option BindingRow :=
  if boundTo row triple.src hop.src && boundTo row triple.dst hop.dst then
    some (bindEdge (bindNode (bindNode row triple.src hop.src) triple.dst hop.dst) triple.edge
      (edgeValue hop.src hop.label hop.dst))
  else none

lemma Csr.Represents.labelOk (h : csr.Represents g) {node : String} (hnode : node ∈ g.nodes)
    (binding : NodeBinding) :
    labelOk csr binding (csr.nodes.idxOf node) = nodeFits g binding node := by
  unfold Match.labelOk nodeFits
  cases binding.label with
  | none => rfl
  | some label => exact h.labels node hnode label

lemma Csr.Represents.resolveBinding (h : csr.Represents g) (binding : NodeBinding) (row : BindingRow) :
    resolveBinding csr none binding row
      = (g.nodes.filter (nodeFits g binding)).filter (boundTo row binding) := by
  unfold Match.resolveBinding boundTo
  cases hbound : binding.name.bind row.get with
  | some bound =>
    simp only [Option.all_some]
    have hfilter : (g.nodes.filter (nodeFits g binding)).filter (fun node => decide (bound = node))
        = if bound ∈ g.nodes ∧ nodeFits g binding bound = true then [bound] else [] := by
      have hnodup := g.nodes_nodup.filter (nodeFits g binding)
      have hsymm : (fun node => decide (bound = node)) = fun node => decide (node = bound) := by
        funext node
        simp [eq_comm]
      rw [hsymm, List.filter_eq]
      split_ifs with hmem
      · rw [List.count_eq_one_of_mem hnodup (List.mem_filter.mpr hmem)]
        rfl
      · rw [List.count_eq_zero_of_not_mem (fun hin => hmem (List.mem_filter.mp hin))]
        rfl
    rw [hfilter]
    by_cases hmem : bound ∈ g.nodes
    · rw [Csr.nodeIdRaw, if_pos (h.nodes ▸ hmem)]
      simp only [h.labelOk hmem, hmem, true_and]
    · rw [Csr.nodeIdRaw, if_neg (h.nodes ▸ hmem)]
      simp [hmem]
  | none =>
    simp only [Option.all_none, List.filter_true, Bool.and_true]
    have hnodes : (List.range csr.nodes.length).map csr.nodeNameRaw = g.nodes := by
      rw [← h.nodes]
      apply List.ext_getElem
      · simp
      · intro i hi hi'
        simp only [List.getElem_map, List.getElem_range, Csr.nodeNameRaw]
        rw [List.getD_eq_getElem _ _ hi']
    rw [← hnodes, List.filter_map]
    congr 1
    apply List.filter_congr
    intro id hid
    have hlt := List.mem_range.mp hid
    have hname : csr.nodeNameRaw id = csr.nodes[id] := List.getD_eq_getElem _ _ hlt
    have hindex : csr.nodes.idxOf (csr.nodeNameRaw id) = id := by
      rw [hname, csr.nodes_nodup.idxOf_getElem]
    have hmem : csr.nodeNameRaw id ∈ g.nodes := by
      rw [← h.nodes, hname]
      exact List.getElem_mem hlt
    rw [Function.comp_apply, ← h.labelOk hmem, hindex]

lemma Csr.Represents.bindingCompatible (h : csr.Represents g) {node : String}
    (hnode : node ∈ g.nodes) (binding : NodeBinding) (row : BindingRow) :
    bindingCompatible csr binding row (csr.nodes.idxOf node)
      = (nodeFits g binding node && boundTo row binding node) := by
  rw [Match.bindingCompatible, h.labelOk hnode, nodeNameRaw_idxOf (h.nodes ▸ hnode)]
  rfl

lemma Csr.Represents.hopRow (h : csr.Represents g) {dst : String} (hdst : dst ∈ g.nodes)
    (triple : PatternTriple) {row : BindingRow} {src : String}
    (hsrc : boundTo row triple.src src = true) (label : String) :
    hopRow csr triple row src label dst
      = if nodeFits g triple.dst dst then acceptHop triple row ⟨src, label, dst⟩ else none := by
  have hraw : csr.nodeIdRaw dst = some (csr.nodes.idxOf dst) := if_pos (h.nodes ▸ hdst)
  rw [Match.hopRow, hraw]
  simp only [h.bindingCompatible hdst, acceptHop, hsrc, Bool.true_and]
  cases nodeFits g triple.dst dst <;> simp

end Hops

end NodedbLite.Match
