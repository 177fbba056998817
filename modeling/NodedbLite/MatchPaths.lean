import NodedbLite.MatchGraph

/-! Variable-length triples. A step is answered by the nodes within the upper bound of a search that
forgets how far they are, the start left out unless the lower bound is zero. -/
namespace NodedbLite.Match

open CappedOutput

section Walks

variable (g : PropertyGraph) (label : Option String) (direction : Direction)

/-- Whether a path of exactly so many hops leads from one node to another. -/
def PropertyGraph.walks : Nat → String → String → Bool
  | 0, node, far => node = far
  | length + 1, node, far =>
    (g.hops node label direction).any fun hop => PropertyGraph.walks length hop.2 far

/-- Whether a path with a length between the bounds joins the nodes. -/
def PropertyGraph.joined (minHops maxHops : Nat) (node far : String) : Prop :=
  ∃ length, minHops ≤ length ∧ length ≤ maxHops ∧ g.walks label direction length node far = true

lemma PropertyGraph.reaches_iff {depth : Nat} {node far : String} :
    g.reaches label direction depth node far = true ↔ g.joined label direction 0 depth node far := by
  induction depth generalizing node with
  | zero =>
    constructor
    · intro h
      exact ⟨0, le_refl 0, le_refl 0, h⟩
    · rintro ⟨length, -, hle, hwalk⟩
      obtain rfl := Nat.le_zero.mp hle
      exact hwalk
  | succ depth ih =>
    rw [PropertyGraph.reaches, Bool.or_eq_true, List.any_eq_true]
    constructor
    · rintro (hsame | ⟨hop, hhop, hreach⟩)
      · exact ⟨0, le_refl 0, by omega, hsame⟩
      · obtain ⟨length, -, hle, hwalk⟩ := ih.mp hreach
        exact ⟨length + 1, by omega, by omega, List.any_eq_true.mpr ⟨hop, hhop, hwalk⟩⟩
    · rintro ⟨length, -, hle, hwalk⟩
      cases length with
      | zero => exact .inl hwalk
      | succ length =>
        obtain ⟨hop, hhop, hwalk⟩ := List.any_eq_true.mp hwalk
        exact .inr ⟨hop, hhop, ih.mpr ⟨length, by omega, by omega, hwalk⟩⟩

lemma PropertyGraph.far_mem_of_walks {length : Nat} {node far : String} (hnode : node ∈ g.nodes)
    (h : g.walks label direction length node far = true) : far ∈ g.nodes := by
  induction length generalizing node with
  | zero =>
    rw [← show node = far from of_decide_eq_true h]
    exact hnode
  | succ length ih =>
    obtain ⟨hop, hhop, hwalk⟩ := List.any_eq_true.mp h
    exact ih (PropertyGraph.far_mem_nodes hhop) hwalk

end Walks

/-- The search returns exactly the nodes within a depth, each once. -/
def Csr.Searches (csr : Csr) (g : PropertyGraph) : Prop :=
  ∀ node ∈ g.nodes, ∀ label direction depth,
    (csr.traverseBfs node label direction depth none).Nodup ∧
      ∀ far, far ∈ csr.traverseBfs node label direction depth none ↔
        g.joined label direction 0 depth node far

lemma Csr.searches_ofGraph (g : PropertyGraph) : (Csr.ofGraph g).Searches g := by
  intro node hnode label direction depth
  refine ⟨g.nodes_nodup.filter _, fun far => ?_⟩
  change far ∈ g.nodes.filter _ ↔ _
  rw [List.mem_filter, PropertyGraph.reaches_iff]
  constructor
  · exact fun h => h.2
  · rintro ⟨length, hlow, hle, hwalk⟩
    exact ⟨g.far_mem_of_walks label direction hnode hwalk, length, hlow, hle, hwalk⟩

/-- `(a)-[:label*minHops..maxHops]->(b)`. -/
def pathTriple (a b : String) (label : Option String) (direction : EdgeDirection)
    (minHops maxHops : Nat) : PatternTriple :=
  ⟨⟨some a, none⟩, ⟨none, label, direction, minHops, maxHops⟩, ⟨some b, none⟩⟩

/-- The triple matches a pair of nodes. -/
def MatchesPair (csr : Csr) (a b : String) (triple : PatternTriple) (s d : String) : Prop :=
  ∃ row ∈ executeTriple csr none triple SortedMap.empty, row.get a = some s ∧ row.get b = some d

section Pairs

variable {csr : Csr} {g : PropertyGraph} {a b : String} {label : Option String}
  {direction : EdgeDirection} {minHops maxHops : Nat}

/-- The pairs a triple matches are those joined by a path with a length between its bounds. -/
def PathsExact (csr : Csr) (g : PropertyGraph) (a b : String) (label : Option String)
    (direction : EdgeDirection) (minHops maxHops : Nat) : Prop :=
  ∀ s d, MatchesPair csr a b (pathTriple a b label direction minHops maxHops) s d ↔
    s ∈ g.nodes ∧ g.joined label (pathTriple a b label direction minHops maxHops).edge.toDirection
      minHops maxHops s d

lemma resolveBinding_empty (hcsr : csr.Represents g) (name : String) :
    resolveBinding csr none ⟨some name, none⟩ SortedMap.empty = g.nodes := by
  rw [hcsr.resolveBinding, List.filter_filter]
  apply List.filter_eq_self.mpr
  intro node _
  simp [nodeFits, boundTo]

/-- The row of a pair. -/
def pairRow (a b s d : String) : BindingRow := (SortedMap.empty.insert a s).insert b d

lemma hopRow_pathTriple (hcsr : csr.Represents g) (hab : a ≠ b) {d : String} (hd : d ∈ g.nodes)
    (s l : String) : hopRow csr (pathTriple a b label direction minHops maxHops) SortedMap.empty s l d
      = some (pairRow a b s d) := by
  rw [hcsr.hopRow hd _ (by simp [boundTo, pathTriple])]
  simp [nodeFits, pathTriple, acceptHop, boundTo, bindEdge, bindNode, pairRow, hab.symm]

lemma pairRow_eq_iff (hab : a ≠ b) {s d s' d' : String} :
    (pairRow a b s d).get a = some s' ∧ (pairRow a b s d).get b = some d' ↔ s = s' ∧ d = d' := by
  simp [pairRow, hab]

/-- The pairs of the search in its order, before the limit. -/
def foundPairs (csr : Csr) (g : PropertyGraph) (label : Option String) (direction : Direction)
    (minHops maxHops : Nat) : List (String × String) :=
  g.nodes.flatMap fun s => ((csr.traverseBfs s label direction maxHops none).filter
    fun d => ¬ (d = s ∧ 0 < minHops)).map (s, ·)

lemma mem_foundPairs (hsearch : csr.Searches g) {way : Direction} {s d : String} :
    (s, d) ∈ foundPairs csr g label way minHops maxHops ↔
      s ∈ g.nodes ∧ g.joined label way 0 maxHops s d ∧ ¬ (d = s ∧ 0 < minHops) := by
  simp only [foundPairs, List.mem_flatMap, List.mem_map, List.mem_filter, decide_eq_true_eq,
    Prod.mk.injEq]
  constructor
  · rintro ⟨s', hs', d', ⟨hd', hkeep⟩, rfl, rfl⟩
    exact ⟨hs', ((hsearch s' hs' _ _ _).2 d').mp hd', hkeep⟩
  · rintro ⟨hs, hjoined, hkeep⟩
    exact ⟨s, hs, d, ⟨((hsearch s hs _ _ _).2 d).mpr hjoined, hkeep⟩, rfl, rfl⟩

lemma foundPairs_nodup (hsearch : csr.Searches g) (way : Direction) :
    (foundPairs csr g label way minHops maxHops).Nodup := by
  rw [foundPairs, List.nodup_flatMap]
  refine ⟨fun s hs => ((hsearch s hs _ _ _).1.filter _).map (Prod.mk_right_injective s),
    g.nodes_nodup.imp fun hne => List.disjoint_left.mpr ?_⟩
  intro pair hs hs'
  obtain ⟨d, -, rfl⟩ := List.mem_map.mp hs
  obtain ⟨d', -, heq⟩ := List.mem_map.mp hs'
  exact hne (Prod.mk.inj heq).1.symm

lemma executeTriple_variable (hcsr : csr.Represents g) (hsearch : csr.Searches g) (hab : a ≠ b)
    (hvar : (pathTriple a b label direction minHops maxHops).edge.isVariableLength = true) :
    executeTriple csr none (pathTriple a b label direction minHops maxHops) SortedMap.empty
      = ((foundPairs csr g label (pathTriple a b label direction minHops maxHops).edge.toDirection
        minHops maxHops).take maxPathRows).map fun pair => pairRow a b pair.1 pair.2 := by
  have hstart : (Output.start : Output BindingRow).Sound maxPathRows :=
    Output.Sound.of_lt rfl (by decide)
  rw [executeTriple, hvar, if_pos rfl, hstart.items_pushAll, Output.items_start, List.nil_append]
  have hsrc : resolveBinding csr none (pathTriple a b label direction minHops maxHops).src
      SortedMap.empty = g.nodes := resolveBinding_empty hcsr a
  rw [hsrc, List.map_take, foundPairs, List.map_flatMap]
  congr 1
  apply List.flatMap_congr
  intro s hs
  rw [List.map_map, ← List.filterMap_eq_map, List.filterMap_filter]
  apply List.filterMap_congr
  intro d hd
  obtain ⟨length, -, -, hwalk⟩ := ((hsearch s hs _ _ _).2 d).mp hd
  rw [hopRow_pathTriple hcsr hab (g.far_mem_of_walks _ _ hs hwalk)]
  change (if d = s ∧ 0 < minHops then none else _) = _
  by_cases hskip : d = s ∧ 0 < minHops <;> simp [hskip]

lemma matchesPair_variable (hcsr : csr.Represents g) (hsearch : csr.Searches g) (hab : a ≠ b)
    (hvar : (pathTriple a b label direction minHops maxHops).edge.isVariableLength = true)
    (s d : String) : MatchesPair csr a b (pathTriple a b label direction minHops maxHops) s d ↔
      (s, d) ∈ (foundPairs csr g label
        (pathTriple a b label direction minHops maxHops).edge.toDirection minHops maxHops).take
          maxPathRows := by
  rw [MatchesPair, executeTriple_variable hcsr hsearch hab hvar]
  constructor
  · rintro ⟨row, hrow, hboth⟩
    obtain ⟨pair, hpair, rfl⟩ := List.mem_map.mp hrow
    obtain ⟨rfl, rfl⟩ := (pairRow_eq_iff hab).mp hboth
    exact hpair
  · intro hpair
    exact ⟨_, List.mem_map.mpr ⟨_, hpair, rfl⟩, (pairRow_eq_iff hab).mpr ⟨rfl, rfl⟩⟩

lemma matchesPair_fixed (hcsr : csr.Represents g) (hab : a ≠ b)
    (hfixed : (pathTriple a b label direction minHops maxHops).edge.isVariableLength = false)
    (s d : String) : MatchesPair csr a b (pathTriple a b label direction minHops maxHops) s d ↔
      s ∈ g.nodes ∧ g.walks label (pathTriple a b label direction minHops maxHops).edge.toDirection
        1 s d = true := by
  have hsrc : resolveBinding csr none (pathTriple a b label direction minHops maxHops).src
      SortedMap.empty = g.nodes := resolveBinding_empty hcsr a
  have hwalk : ∀ direction, g.walks label direction 1 s d = true ↔
      ∃ hop ∈ g.hops s label direction, hop.2 = d := by
    intro direction
    simp [PropertyGraph.walks]
  rw [MatchesPair, executeTriple, hfixed, hsrc, hwalk]
  simp only [Bool.false_eq_true, if_false]
  constructor
  · rintro ⟨row, hrow, hpair⟩
    obtain ⟨s', hs', hrow⟩ := List.mem_flatMap.mp hrow
    obtain ⟨hop, hhop, hrow⟩ := List.mem_filterMap.mp hrow
    have hmem := (hcsr.neighbors s' hs' _ _ _).mp hhop
    rw [hopRow_pathTriple hcsr hab (PropertyGraph.far_mem_nodes hmem)] at hrow
    obtain rfl := Option.some.inj hrow
    obtain ⟨rfl, rfl⟩ := (pairRow_eq_iff hab).mp hpair
    exact ⟨hs', hop, hmem, rfl⟩
  · rintro ⟨hs, hop, hmem, rfl⟩
    exact ⟨pairRow a b s hop.2, List.mem_flatMap.mpr ⟨s, hs, List.mem_filterMap.mpr
      ⟨hop, (hcsr.neighbors s hs _ _ _).mpr hmem,
        hopRow_pathTriple hcsr hab (PropertyGraph.far_mem_nodes hmem) s hop.1⟩⟩,
      (pairRow_eq_iff hab).mpr ⟨rfl, rfl⟩⟩

end Pairs

section Bounds

variable {csr : Csr} {g : PropertyGraph} {a b : String} {label : Option String}
  {direction : EdgeDirection} {minHops maxHops : Nat}

/-- Where the search for the upper bound answers both bounds. One hop is exact; no hop is searched as
one hop. Otherwise no node may return to itself within the bounds, unless it also stands for the
empty path; a pair among the first ten thousand of the search that is joined by a shorter path is
joined by one within the bounds as well; and no pair behind these is joined within the bounds. -/
def BoundsFit (csr : Csr) (g : PropertyGraph) (label : Option String) (direction : Direction)
    (minHops maxHops : Nat) : Prop :=
  if minHops = maxHops ∧ minHops ≤ 1 then
    minHops = 0 → ∀ s ∈ g.nodes, ∀ d, g.walks label direction 1 s d = true ↔ d = s
  else
    (0 < minHops → ∀ s ∈ g.nodes, ¬ g.joined label direction minHops maxHops s s) ∧
    (∀ pair ∈ (foundPairs csr g label direction minHops maxHops).take maxPathRows,
      ∀ length < minHops, g.walks label direction length pair.1 pair.2 = true →
        g.joined label direction minHops maxHops pair.1 pair.2) ∧
    ∀ pair ∈ (foundPairs csr g label direction minHops maxHops).drop maxPathRows,
      ¬ g.joined label direction minHops maxHops pair.1 pair.2

lemma isVariableLength_eq_false_iff :
    (pathTriple a b label direction minHops maxHops).edge.isVariableLength = false ↔
      minHops = maxHops ∧ minHops ≤ 1 := by
  unfold EdgeBinding.isVariableLength
  rw [decide_eq_false_iff_not]
  change ¬ (minHops ≠ maxHops ∨ 1 < minHops) ↔ _
  omega

lemma joined_self_iff {way : Direction} {hops : Nat} {s d : String} :
    g.joined label way hops hops s d ↔ g.walks label way hops s d = true := by
  constructor
  · rintro ⟨length, hlow, hhigh, hwalk⟩
    obtain rfl : length = hops := le_antisymm hhigh hlow
    exact hwalk
  · intro hwalk
    exact ⟨hops, le_refl _, le_refl _, hwalk⟩

lemma foundPairs_exact_iff (hsearch : csr.Searches g) (way : Direction) :
    (∀ s d, (s, d) ∈ (foundPairs csr g label way minHops maxHops).take maxPathRows ↔
      s ∈ g.nodes ∧ g.joined label way minHops maxHops s d) ↔
    (0 < minHops → ∀ s ∈ g.nodes, ¬ g.joined label way minHops maxHops s s) ∧
    (∀ pair ∈ (foundPairs csr g label way minHops maxHops).take maxPathRows,
      ∀ length < minHops, g.walks label way length pair.1 pair.2 = true →
        g.joined label way minHops maxHops pair.1 pair.2) ∧
    ∀ pair ∈ (foundPairs csr g label way minHops maxHops).drop maxPathRows,
      ¬ g.joined label way minHops maxHops pair.1 pair.2 := by
  have hnodup : (foundPairs csr g label way minHops maxHops).Nodup := foundPairs_nodup hsearch way
  constructor
  · intro hexact
    refine ⟨fun hpos s hs hjoined => ?_, fun pair hpair length hlt hwalk => ?_,
      fun pair hpair hjoined => ?_⟩
    · have hfound := List.mem_of_mem_take ((hexact s s).mpr ⟨hs, hjoined⟩)
      exact ((mem_foundPairs hsearch).mp hfound).2.2 ⟨rfl, hpos⟩
    · exact ((hexact pair.1 pair.2).mp hpair).2
    · have hs := ((mem_foundPairs hsearch).mp (List.mem_of_mem_drop hpair)).1
      rw [← List.take_append_drop maxPathRows (foundPairs _ _ _ _ _ _)] at hnodup
      exact (List.nodup_append.mp hnodup).2.2 _ ((hexact pair.1 pair.2).mpr ⟨hs, hjoined⟩) _
        hpair rfl
  · rintro ⟨hcycles, hshort, hcut⟩ s d
    constructor
    · intro hpair
      obtain ⟨hs, ⟨length, -, hhigh, hwalk⟩, -⟩ :=
        (mem_foundPairs hsearch).mp (List.mem_of_mem_take hpair)
      refine ⟨hs, ?_⟩
      by_cases hlow : minHops ≤ length
      · exact ⟨length, hlow, hhigh, hwalk⟩
      · exact hshort (s, d) hpair length (not_le.mp hlow) hwalk
    · rintro ⟨hs, hjoined⟩
      obtain ⟨length, -, hhigh, hwalk⟩ := id hjoined
      have hfound : (s, d) ∈ foundPairs csr g label way minHops maxHops := by
        refine (mem_foundPairs hsearch).mpr ⟨hs, ⟨length, Nat.zero_le _, hhigh, hwalk⟩, ?_⟩
        rintro ⟨rfl, hpos⟩
        exact hcycles hpos d hs hjoined
      rw [← List.take_append_drop maxPathRows (foundPairs _ _ _ _ _ _)] at hfound
      exact (List.mem_append.mp hfound).resolve_right fun hmem => hcut _ hmem hjoined

/-- A variable-length triple respects both bounds exactly where the bounds fit the graph. -/
theorem path_bounds_iff (hcsr : csr.Represents g) (hsearch : csr.Searches g) (hab : a ≠ b) :
    PathsExact csr g a b label direction minHops maxHops ↔
      BoundsFit csr g label (pathTriple a b label direction minHops maxHops).edge.toDirection
        minHops maxHops := by
  rw [PathsExact, BoundsFit]
  cases hvar : (pathTriple a b label direction minHops maxHops).edge.isVariableLength with
  | false =>
    rw [if_pos (isVariableLength_eq_false_iff.mp hvar)]
    obtain ⟨rfl, hone⟩ := isVariableLength_eq_false_iff.mp hvar
    simp only [matchesPair_fixed hcsr hab hvar]
    generalize (pathTriple a b label direction minHops minHops).edge.toDirection = way
    simp only [joined_self_iff, and_congr_right_iff]
    interval_cases minHops
    · have hzero : ∀ s d, g.walks label way 0 s d = true ↔ d = s := by
        intro s d
        rw [PropertyGraph.walks, decide_eq_true_iff, eq_comm]
      simp only [hzero, forall_const]
      exact ⟨fun h s hs d => h s d hs, fun h s d hs => h s hs d⟩
    · simp
  | true =>
    have hnot : ¬ (minHops = maxHops ∧ minHops ≤ 1) := by
      rw [← @isVariableLength_eq_false_iff a b label direction, hvar]
      simp
    rw [if_neg hnot]
    simp only [matchesPair_variable hcsr hsearch hab hvar]
    exact foundPairs_exact_iff hsearch _

/-- Two edges in a row. -/
def twoEdges : PropertyGraph :=
  ⟨["x", "y", "z"], by decide, fun _ _ => false, [⟨"x", "K", "y"⟩, ⟨"y", "K", "z"⟩], by simp⟩

/-- On a graph without cycles one or two hops are answered exactly. -/
theorem path_bounds_acyclic :
    PathsExact (Csr.ofGraph twoEdges) twoEdges "a" "b" (some "K") .right 1 2 := by
  refine (path_bounds_iff (Csr.represents_ofGraph _) (Csr.searches_ofGraph _) (by decide)).mpr ?_
  rw [BoundsFit, if_neg (by decide)]
  have hdrop : (foundPairs (Csr.ofGraph twoEdges) twoEdges (some "K") .outgoing 1 2).drop
      maxPathRows = [] := by decide +kernel
  refine ⟨?_, ?_, fun pair hpair => ?_⟩
  · rintro - s hs ⟨length, hlow, hhigh, hwalk⟩
    revert hwalk
    simp only [twoEdges, List.mem_cons, List.not_mem_nil, or_false] at hs
    interval_cases length <;> rcases hs with rfl | rfl | rfl <;> decide +kernel
  · intro pair hpair length hlt hwalk
    obtain rfl := Nat.lt_one_iff.mp hlt
    have hfound := (mem_foundPairs (Csr.searches_ofGraph _)).mp (List.mem_of_mem_take hpair)
    exact absurd ⟨(of_decide_eq_true hwalk).symm, Nat.one_pos⟩ hfound.2.2
  · change pair ∈ (foundPairs (Csr.ofGraph twoEdges) twoEdges (some "K") .outgoing 1 2).drop _ at hpair
    rw [hdrop] at hpair
    cases hpair

/-- A node one hop away is matched by a pattern of exactly two hops. -/
theorem shorter_path_matched :
    ¬ PathsExact (Csr.ofGraph twoEdges) twoEdges "a" "b" (some "K") .right 2 2 := by
  intro h
  have hmatch : MatchesPair (Csr.ofGraph twoEdges) "a" "b" (pathTriple "a" "b" (some "K") .right 2 2)
      "x" "y" := ⟨pairRow "a" "b" "x" "y", by decide +kernel, by decide, by decide⟩
  obtain ⟨-, length, hlow, hhigh, hwalk⟩ := (h "x" "y").mp hmatch
  obtain rfl : length = 2 := le_antisymm hhigh hlow
  revert hwalk
  decide +kernel

end Bounds

end NodedbLite.Match
