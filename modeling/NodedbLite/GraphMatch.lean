import NodedbLite.CappedOutput
import NodedbLite.SortedMap

/-! MATCH patterns over the adjacency index of a graph. Triples are joined one after another: each
row is extended by the edges, or by the nodes within reach, that agree with what it binds. -/
namespace NodedbLite.Match

open CappedOutput

/-- A result row: the text bound to each variable. -/
abbrev BindingRow := SortedMap String String

structure NodeBinding where
  name : Option String
  label : Option String
  deriving DecidableEq

inductive EdgeDirection
  | right
  | left
  | both
  deriving DecidableEq

inductive Direction
  | outgoing
  | incoming
  | both
  deriving DecidableEq

structure EdgeBinding where
  name : Option String
  edgeType : Option String
  direction : EdgeDirection
  minHops : Nat
  maxHops : Nat
  deriving DecidableEq

namespace EdgeBinding

def isVariableLength (e : EdgeBinding) : Bool := e.minHops ≠ e.maxHops ∨ 1 < e.minHops

def toDirection (e : EdgeBinding) : Direction :=
  match e.direction with
  | .right => .outgoing
  | .left => .incoming
  | .both => .both

end EdgeBinding

structure PatternTriple where
  src : NodeBinding
  edge : EdgeBinding
  dst : NodeBinding
  deriving DecidableEq

abbrev PatternChain := List PatternTriple

structure MatchClause where
  patterns : List PatternChain
  optional : Bool

/-- Surrogates the anchors of a match are restricted to. -/
abbrev Frontier := Option (Nat → Bool)

/-- The adjacency index. Raw ids are positions in the list of nodes; neighbours come with the label
of their edge, for an optional label to filter by. -/
structure Csr where
  nodes : List String
  nodes_nodup : nodes.Nodup
  nodeSurrogateRaw : Nat → Nat
  nodeHasLabel : Nat → String → Bool
  neighbors : String → Option String → Direction → List (String × String)
  traverseBfs : String → Option String → Direction → Nat → Frontier → List String

namespace Csr

def nodeIdRaw (csr : Csr) (name : String) : Option Nat :=
  if name ∈ csr.nodes then some (csr.nodes.idxOf name) else none

def nodeNameRaw (csr : Csr) (id : Nat) : String := csr.nodes.getD id ""

end Csr

section Executor

variable (csr : Csr) (frontier : Frontier)

def labelOk (binding : NodeBinding) (id : Nat) : Bool :=
  binding.label.all (csr.nodeHasLabel id)

def resolveBinding (binding : NodeBinding) (row : BindingRow) : List String :=
  match binding.name.bind row.get with
  | some bound =>
    match csr.nodeIdRaw bound with
    | none => []
    | some raw => if labelOk csr binding raw then [bound] else []
  | none =>
    ((List.range csr.nodes.length).filter fun id =>
      labelOk csr binding id && frontier.all (fun bm => bm (csr.nodeSurrogateRaw id))).map
        csr.nodeNameRaw

def bindingCompatible (binding : NodeBinding) (row : BindingRow) (nodeId : Nat) : Bool :=
  labelOk csr binding nodeId &&
    (binding.name.bind row.get).all (fun existing => existing = csr.nodeNameRaw nodeId)

/-- A variable that is bound keeps its node. -/
def bindNode (row : BindingRow) (binding : NodeBinding) (nodeName : String) : BindingRow :=
  match binding.name with
  | some name => if (row.get name).isSome then row else row.insert name nodeName
  | none => row

/-- The variable of an edge takes a new text, whatever it was bound to. -/
def bindEdge (row : BindingRow) (edge : EdgeBinding) (text : String) : BindingRow :=
  match edge.name with
  | some name => row.insert name text
  | none => row

def edgeValue (src label dst : String) : String := src ++ "|" ++ label ++ "|" ++ dst

/-- The row extended by one hop, if the end agrees with the input row. -/
def hopRow (triple : PatternTriple) (row : BindingRow) (srcName labelName dstName : String) :
    Option BindingRow :=
  match csr.nodeIdRaw dstName with
  | none => none
  | some raw =>
    if bindingCompatible csr triple.dst row raw then
      some (bindEdge (bindNode (bindNode row triple.src srcName) triple.dst dstName) triple.edge
        (edgeValue srcName labelName dstName))
    else none

/-- The most rows a variable-length triple returns. -/
def maxPathRows : Nat := 10000

def executeTriple (triple : PatternTriple) (row : BindingRow) : List BindingRow :=
  let direction := triple.edge.toDirection
  let srcNodes := resolveBinding csr frontier triple.src row
  if triple.edge.isVariableLength then
    (Output.start.pushAll maxPathRows (srcNodes.flatMap fun srcName =>
      (csr.traverseBfs srcName triple.edge.edgeType direction triple.edge.maxHops
        frontier).filterMap fun dstName =>
          if dstName = srcName ∧ 0 < triple.edge.minHops then none
          else hopRow csr triple row srcName (triple.edge.edgeType.getD "*") dstName)).items
  else
    srcNodes.flatMap fun srcName =>
      (csr.neighbors srcName triple.edge.edgeType direction).filterMap fun neighbor =>
        hopRow csr triple row srcName neighbor.1 neighbor.2

/-- The triples of a chain, until no row is left. -/
def executeTriples : List PatternTriple → List BindingRow → List BindingRow
  | [], rows => rows
  | triple :: triples, rows =>
    let next := rows.flatMap (executeTriple csr frontier triple)
    if next.isEmpty then next else executeTriples triples next

def executeChain (chain : PatternChain) (inputRow : BindingRow) : List BindingRow :=
  executeTriples csr frontier chain [inputRow]

def executeClause (clause : MatchClause) (inputRows : List BindingRow) : List BindingRow :=
  clause.patterns.foldl (fun rows chain => rows.flatMap (executeChain csr frontier chain)) inputRows

/-- The variables a clause binds. -/
def clauseVars (clause : MatchClause) : List String :=
  clause.patterns.flatMap fun chain => chain.flatMap fun triple =>
    triple.src.name.toList ++ triple.dst.name.toList ++ triple.edge.name.toList

/-- Every variable of the input row has the same value in the clause row, or none. -/
def agreesWith (inputRow clauseRow : BindingRow) : Bool :=
  inputRow.entries.all fun entry => (clauseRow.get entry.1).all (fun value => value = entry.2)

/-- The row with the unbound variables of the clause set to null. -/
def nullRow (clause : MatchClause) (inputRow : BindingRow) : BindingRow :=
  (clauseVars clause).foldl (fun row name =>
    if (row.get name).isSome then row else row.insert name "NULL") inputRow

/-- What one input row gives in a left join. -/
def leftJoinRow (clauseRows : List BindingRow) (clause : MatchClause) (inputRow : BindingRow) :
    List BindingRow :=
  let joined := clauseRows.filter (agreesWith inputRow)
  if joined.isEmpty then [nullRow clause inputRow] else joined

end Executor

section Basic

variable {csr : Csr} {frontier : Frontier}

lemma nodeNameRaw_idxOf {name : String} (h : name ∈ csr.nodes) :
    csr.nodeNameRaw (csr.nodes.idxOf name) = name := by
  have hlt := List.idxOf_lt_length_of_mem h
  rw [Csr.nodeNameRaw, List.getD_eq_getElem _ _ hlt, List.getElem_idxOf]

end Basic

end NodedbLite.Match
