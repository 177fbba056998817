import NodedbLite.GraphComponents

/-! Core numbers by peeling. At level `k` the nodes with fewer than `k` edge ends among the nodes
that are left are removed until there are none; a set whose members have `k` ends each inside it
never loses a member. -/
namespace NodedbLite.GraphAlgo

open FuelRun Finset

section Kcore

variable (csr : CsrIndex)

structure Peeling where
  degree : csr.Node → Nat
  removed : csr.Node → Bool
  coreness : csr.Node → Nat

def outDegreeRaw (u : csr.Node) : Nat := (csr.iterOutEdgesRaw u).length

def inDegreeRaw (u : csr.Node) : Nat := (csr.iterInEdgesRaw u).length

/-- A core number is stored as a `u32`. -/
def asU32 (k : Nat) : Nat := k % 2 ^ 32

variable {csr}

/-- The far end of an edge of a removed node loses one end. -/
def lowerDegree (s : Peeling csr) (edge : Nat × csr.Node) : Peeling csr :=
  if s.removed edge.2 = false ∧ 0 < s.degree edge.2 then
    { s with degree := Function.update s.degree edge.2 (s.degree edge.2 - 1) }
  else s

def removeNode (k : Nat) (s : Peeling csr) (node : csr.Node) : Peeling csr :=
  (csr.iterInEdgesRaw node).foldl lowerDegree
    ((csr.iterOutEdgesRaw node).foldl lowerDegree
      { s with
        removed := Function.update s.removed node true
        coreness := Function.update s.coreness node (asU32 (k - 1)) })

def passNode (k : Nat) (s : Peeling csr × Bool) (node : csr.Node) : Peeling csr × Bool :=
  if s.1.removed node = false ∧ s.1.degree node < k then (removeNode k s.1 node, true) else s

/-- One pass over the nodes, and whether it removed any. -/
def pass (k : Nat) (s : Peeling csr) : Peeling csr × Bool :=
  (List.finRange csr.nodeCount).foldl (passNode k) (s, false)

def passes (k : Nat) : Nat → Peeling csr → Option (Peeling csr)
  | 0, _ => none
  | fuel + 1, s => if (pass k s).2 then passes k fuel (pass k s).1 else some (pass k s).1

def levels : Nat → Nat → Peeling csr → Option (Peeling csr)
  | 0, _, _ => none
  | fuel + 1, k, s =>
    (passes k fuel s).bind fun t =>
      if ∀ i, t.removed i then some t
      else levels fuel (k + 1)
        { t with coreness := fun i => if t.removed i then t.coreness i else asU32 k }

variable (csr)

def kcore (fuel : Nat) : Option (List (String × Int)) :=
  if csr.nodeCount = 0 then some []
  else
    (levels fuel 1
      (⟨fun i => outDegreeRaw csr i + inDegreeRaw csr i, fun _ => false, fun _ => 0⟩ :
        Peeling csr)).map fun s =>
      (List.finRange csr.nodeCount).map (csr.row fun i => (s.coreness i : Int))

/-- The edge ends of a node inside a set, a loop counted twice. -/
def ends (s : Finset csr.Node) (u : csr.Node) : Nat :=
  (csr.iterOutEdgesRaw u).countP (fun edge => edge.2 ∈ s) +
    (csr.iterInEdgesRaw u).countP (fun edge => edge.2 ∈ s)

/-- Every member of the set has so many edge ends inside it. -/
def Dense (k : Nat) (s : Finset csr.Node) : Prop := ∀ u ∈ s, k ≤ ends csr s u

def InCore (k : Nat) (u : csr.Node) : Prop := ∃ s, u ∈ s ∧ Dense csr k s

/-- The largest level of a node. -/
def CoreNumber (u : csr.Node) (k : Nat) : Prop := IsGreatest {k | InCore csr k u} k

end Kcore

section Ends

variable {csr : CsrIndex}

lemma ends_mono {s t : Finset csr.Node} (h : s ⊆ t) (u : csr.Node) : ends csr s u ≤ ends csr t u :=
  Nat.add_le_add (List.countP_mono_left fun edge _ hmem => by simpa using h (by simpa using hmem))
    (List.countP_mono_left fun edge _ hmem => by simpa using h (by simpa using hmem))

lemma ends_univ (u : csr.Node) : ends csr univ u = outDegreeRaw csr u + inDegreeRaw csr u := by
  simp [ends, outDegreeRaw, inDegreeRaw]

lemma Dense.mono {j k : Nat} {s : Finset csr.Node} (h : Dense csr k s) (hjk : j ≤ k) :
    Dense csr j s :=
  fun u hu => hjk.trans (h u hu)

lemma countP_mem_insert {l : List (Nat × csr.Node)} {s : Finset csr.Node} {v : csr.Node}
    (hv : v ∉ s) :
    l.countP (fun edge => edge.2 ∈ insert v s) =
      l.countP (fun edge => edge.2 ∈ s) + l.countP (fun edge => edge.2 = v) := by
  induction l with
  | nil => rfl
  | cons edge l ih =>
    rw [List.countP_cons, List.countP_cons, List.countP_cons, ih]
    by_cases hedge : edge.2 = v
    · simp only [hedge, mem_insert_self, hv, decide_true, decide_false, if_true]
      simp only [Bool.false_eq_true, if_false]
      omega
    · simp only [mem_insert, hedge, false_or, decide_false, Bool.false_eq_true, if_false]
      omega

lemma countP_out_eq_countP_in (u v : csr.Node) :
    (csr.iterOutEdgesRaw u).countP (fun edge => edge.2 = v) =
      (csr.iterInEdgesRaw v).countP (fun edge => edge.2 = u) := by
  have hlabels : ∀ (l : List (Nat × csr.Node)) (w : csr.Node) (label : Nat),
      ((l.filter fun edge => edge.2 = w).map Prod.fst).count label = l.count (label, w) := by
    intro l w label
    induction l with
    | nil => rfl
    | cons edge l ih =>
      obtain ⟨other, x⟩ := edge
      by_cases hx : x = w
      · by_cases hlabel : other = label <;> simp [hx, hlabel, ih]
      · simp [hx, ih]
  have hperm : (((csr.iterOutEdgesRaw u).filter fun edge => edge.2 = v).map Prod.fst).Perm
      (((csr.iterInEdgesRaw v).filter fun edge => edge.2 = u).map Prod.fst) := by
    rw [List.perm_iff_count]
    intro label
    rw [hlabels, hlabels, csr.inverse]
  simpa [List.countP_eq_length_filter] using hperm.length_eq

lemma ends_insert {s : Finset csr.Node} {v : csr.Node} (hv : v ∉ s) (u : csr.Node) :
    ends csr (insert v s) u = ends csr s u +
      ((csr.iterOutEdgesRaw v).countP (fun edge => edge.2 = u) +
        (csr.iterInEdgesRaw v).countP (fun edge => edge.2 = u)) := by
  rw [ends, ends, countP_mem_insert hv, countP_mem_insert hv, countP_out_eq_countP_in u v,
    ← countP_out_eq_countP_in v u, Nat.add_add_add_comm, Nat.add_comm
      ((csr.iterInEdgesRaw v).countP _)]

end Ends

section Peel

variable {csr : CsrIndex}

/-- The nodes that are not removed. -/
def Peeling.left (s : Peeling csr) : Finset csr.Node := univ.filter fun u => s.removed u = false

lemma Peeling.mem_left {s : Peeling csr} {u : csr.Node} : u ∈ s.left ↔ s.removed u = false := by
  simp [Peeling.left]

lemma foldl_lowerDegree (l : List (Nat × csr.Node)) (s : Peeling csr) :
    (l.foldl lowerDegree s).removed = s.removed ∧ (l.foldl lowerDegree s).coreness = s.coreness ∧
      ∀ u, s.removed u = false → (l.foldl lowerDegree s).degree u =
        s.degree u - l.countP (fun edge => edge.2 = u) := by
  induction l generalizing s with
  | nil => simp
  | cons edge l ih =>
    rw [List.foldl_cons]
    have hone : (lowerDegree s edge).removed = s.removed ∧
        (lowerDegree s edge).coreness = s.coreness ∧ ∀ u, s.removed u = false →
          (lowerDegree s edge).degree u = s.degree u - if edge.2 = u then 1 else 0 := by
      rw [lowerDegree]
      split_ifs with hedge
      · refine ⟨rfl, rfl, fun u _ => ?_⟩
        by_cases hu : edge.2 = u
        · subst hu
          simp
        · simp [hu, Function.update_of_ne (Ne.symm hu)]
      · refine ⟨rfl, rfl, fun u hu => ?_⟩
        split_ifs with heq
        · subst heq
          have : s.degree edge.2 = 0 := by
            by_contra hne
            exact hedge ⟨hu, Nat.pos_of_ne_zero hne⟩
          omega
        · rfl
    obtain ⟨hremoved, hcoreness, hdegree⟩ := hone
    obtain ⟨hremoved', hcoreness', hdegree'⟩ := ih (lowerDegree s edge)
    refine ⟨hremoved'.trans hremoved, hcoreness'.trans hcoreness, fun u hu => ?_⟩
    rw [hdegree' u (by rw [hremoved, hu]), hdegree u hu, List.countP_cons]
    by_cases hedge : edge.2 = u
    · simp only [hedge, decide_true, if_true]
      omega
    · simp only [hedge, decide_false, Bool.false_eq_true, if_false]
      omega

lemma removeNode_spec (k : Nat) (s : Peeling csr) (v : csr.Node) :
    (removeNode k s v).removed = Function.update s.removed v true ∧
      (removeNode k s v).coreness = Function.update s.coreness v (asU32 (k - 1)) ∧
      ∀ u, u ≠ v → s.removed u = false → (removeNode k s v).degree u = s.degree u -
        ((csr.iterOutEdgesRaw v).countP (fun edge => edge.2 = u) +
          (csr.iterInEdgesRaw v).countP (fun edge => edge.2 = u)) := by
  set s₁ : Peeling csr := { s with
    removed := Function.update s.removed v true
    coreness := Function.update s.coreness v (asU32 (k - 1)) } with hs₁
  obtain ⟨hremoved, hcoreness, hdegree⟩ := foldl_lowerDegree (csr.iterOutEdgesRaw v) s₁
  obtain ⟨hremoved', hcoreness', hdegree'⟩ := foldl_lowerDegree (csr.iterInEdgesRaw v)
    ((csr.iterOutEdgesRaw v).foldl lowerDegree s₁)
  refine ⟨hremoved'.trans hremoved, hcoreness'.trans hcoreness, fun u huv hu => ?_⟩
  have hu₁ : s₁.removed u = false := (Function.update_of_ne huv _ _).trans hu
  rw [Nat.sub_add_eq]
  exact (hdegree' u (by rw [hremoved, hu₁])).trans (by rw [hdegree u hu₁])

/-- What holds at a level: degrees count the ends among the nodes that are left, a dense set is
left whole, and what is removed has its core number. -/
structure Level (k : Nat) (s : Peeling csr) : Prop where
  degree : ∀ u ∈ s.left, s.degree u = ends csr s.left u
  kept : ∀ t, Dense csr k t → t ⊆ s.left
  below : ∀ u ∈ s.left, InCore csr (k - 1) u
  done : ∀ u ∉ s.left, ∃ c, CoreNumber csr u c ∧ s.coreness u = asU32 c

/-- A node with too few ends is in no dense set, so its core number is that of the level before. -/
lemma Level.coreNumber {k : Nat} {s : Peeling csr} (h : Level k s) {v : csr.Node} (hv : v ∈ s.left)
    (hdegree : s.degree v < k) : CoreNumber csr v (k - 1) := by
  refine ⟨h.below v hv, fun j ⟨t, hvt, ht⟩ => ?_⟩
  by_contra hlt
  have hdense : Dense csr k t := ht.mono (by omega)
  have hle := (hdense v hvt).trans (ends_mono (h.kept t hdense) v)
  rw [← h.degree v hv] at hle
  omega

lemma left_removeNode (k : Nat) (s : Peeling csr) (v : csr.Node) :
    (removeNode k s v).left = s.left.erase v := by
  ext u
  rw [Peeling.mem_left, (removeNode_spec k s v).1, mem_erase, Peeling.mem_left]
  by_cases hu : u = v
  · subst hu
    simp
  · simp [hu]

lemma Level.removeNode {k : Nat} {s : Peeling csr} (h : Level k s) {v : csr.Node} (hv : v ∈ s.left)
    (hdegree : s.degree v < k) : Level k (removeNode k s v) := by
  obtain ⟨-, hcoreness, hlower⟩ := removeNode_spec k s v
  have hleft := left_removeNode k s v
  refine ⟨fun u hu => ?_, fun t ht => ?_, fun u hu => ?_, fun u hu => ?_⟩
  · rw [hleft] at hu ⊢
    obtain ⟨huv, hu⟩ := mem_erase.mp hu
    have hends := ends_insert (notMem_erase v s.left) u
    rw [insert_erase hv, ← h.degree u hu] at hends
    rw [hlower u huv (Peeling.mem_left.mp hu), hends, Nat.add_sub_cancel]
  · rw [hleft]
    refine subset_erase.mpr ⟨h.kept t ht, fun hvt => ?_⟩
    have := (h.coreNumber hv hdegree).2 ⟨t, hvt, ht⟩
    omega
  · rw [hleft] at hu
    exact h.below u (mem_of_mem_erase hu)
  · rw [hcoreness]
    by_cases huv : u = v
    · subst huv
      rw [Function.update_self]
      exact ⟨k - 1, h.coreNumber hv hdegree, rfl⟩
    · rw [Function.update_of_ne huv]
      exact h.done u fun hmem => hu (hleft ▸ mem_erase.mpr ⟨huv, hmem⟩)

/-- What holds within a pass that has looked at some of the nodes. -/
structure InPass (k : Nat) (s : Peeling csr) (seen : List csr.Node) (t : Peeling csr × Bool) :
    Prop where
  level : Level k t.1
  sub : t.1.left ⊆ s.left
  progress : t.2 = true → t.1.left ≠ s.left
  still : t.2 = false → t.1 = s ∧ ∀ u ∈ seen, u ∈ s.left → k ≤ s.degree u

lemma InPass.step {k : Nat} {s : Peeling csr} {seen : List csr.Node} {t : Peeling csr × Bool}
    (h : InPass k s seen t) (v : csr.Node) : InPass k s (seen ++ [v]) (passNode k t v) := by
  rw [passNode]
  split_ifs with hv
  · have hleft : v ∈ t.1.left := Peeling.mem_left.mpr hv.1
    refine ⟨h.level.removeNode hleft hv.2, ?_, fun _ heq => ?_, (nomatch ·)⟩
    · rw [left_removeNode]
      exact (erase_subset v _).trans h.sub
    · rw [left_removeNode] at heq
      exact notMem_erase v _ (heq ▸ h.sub hleft)
  · refine ⟨h.level, h.sub, h.progress, fun hfalse => ?_⟩
    obtain ⟨heq, hseen⟩ := h.still hfalse
    refine ⟨heq, fun u hu hleft => ?_⟩
    obtain hu | hu := List.mem_append.mp hu
    · exact hseen u hu hleft
    · obtain rfl := List.mem_singleton.mp hu
      rw [heq] at hv
      exact Nat.le_of_not_lt fun hlt => hv ⟨Peeling.mem_left.mp hleft, hlt⟩

lemma inPass_pass {k : Nat} {s : Peeling csr} (h : Level k s) :
    InPass k s (List.finRange csr.nodeCount) (pass k s) := by
  suffices hrun : ∀ rest seen t, InPass k s seen t →
      InPass k s (seen ++ rest) (rest.foldl (passNode k) t) from
    hrun _ [] (s, false) ⟨h, Subset.refl _, (nomatch ·),
      fun _ => ⟨rfl, fun u hu => absurd hu List.not_mem_nil⟩⟩
  intro rest
  induction rest with
  | nil =>
    intro seen t ht
    rwa [List.append_nil]
  | cons v rest ih =>
    intro seen t ht
    have := ih (seen ++ [v]) (passNode k t v) (ht.step v)
    rwa [List.append_assoc] at this

/-- The passes of a level end, with enough ends at every node that is left. -/
lemma passes_gives {k : Nat} {s : Peeling csr} (h : Level k s) :
    ∃ t, Gives (fun fuel => passes k fuel s) t ∧ Level k t ∧ ∀ u ∈ t.left, k ≤ t.degree u := by
  induction hcard : s.left.card using Nat.strong_induction_on generalizing s with
  | _ m ih =>
    have hpass := inPass_pass h
    cases hprogress : (pass k s).2 with
    | false =>
      obtain ⟨heq, hseen⟩ := hpass.still hprogress
      refine ⟨s, .of_succ ?_, h, fun u hu => hseen u (List.mem_finRange u) hu⟩
      simp only [passes, hprogress, heq, Bool.false_eq_true, if_false]
      exact .of_const s
    | true =>
      have hless : (pass k s).1.left.card < m := by
        rw [← hcard]
        exact card_lt_card (hpass.sub.ssubset_of_ne (hpass.progress hprogress))
      obtain ⟨t, hgives, ht⟩ := ih _ hless hpass.level rfl
      refine ⟨t, .of_succ ?_, ht⟩
      simp only [passes, hprogress, if_true]
      exact hgives

lemma Level.next {k : Nat} {s : Peeling csr} (h : Level k s) (hends : ∀ u ∈ s.left, k ≤ s.degree u)
    (coreness : csr.Node → Nat) (hcoreness : ∀ u ∉ s.left, coreness u = s.coreness u) :
    Level (k + 1) { s with coreness := coreness } where
  degree := h.degree
  kept t ht := h.kept t (ht.mono (Nat.le_succ k))
  below u hu := ⟨s.left, hu, fun v hv => by
    rw [← h.degree v hv]
    exact hends v hv⟩
  done u hu := by
    obtain ⟨c, hc, heq⟩ := h.done u hu
    exact ⟨c, hc, (hcoreness u hu).trans heq⟩

lemma levels_gives {k : Nat} {s : Peeling csr} (h : Level k s) :
    ∃ t, Gives (fun fuel => levels fuel k s) t ∧
      ∀ u, ∃ c, CoreNumber csr u c ∧ t.coreness u = asU32 c := by
  -- a level with a node left is at most the number of its ends
  induction hm : (univ.sup fun u => ends csr univ u) + 1 - k using Nat.strong_induction_on
    generalizing k s with
  | _ m ih =>
    obtain ⟨t, hpasses, ht, hends⟩ := passes_gives h
    by_cases hall : ∀ i, t.removed i
    · refine ⟨t, .of_succ (hpasses.bind ?_), fun u => ht.done u ?_⟩
      · simp only [if_pos hall]
        exact .of_const t
      · rw [Peeling.mem_left, hall u]
        exact Bool.noConfusion
    · obtain ⟨u, hu⟩ := not_forall.mp hall
      have hleft : u ∈ t.left := Peeling.mem_left.mpr (by simpa using hu)
      have hbound : k ≤ univ.sup fun u => ends csr univ u :=
        calc k ≤ t.degree u := hends u hleft
          _ = ends csr t.left u := ht.degree u hleft
          _ ≤ ends csr univ u := ends_mono (subset_univ _) u
          _ ≤ _ := le_sup (f := fun u => ends csr univ u) (mem_univ u)
      have hnext := ht.next hends (fun i => if t.removed i then t.coreness i else asU32 k)
        fun v hv => if_pos (by
          rw [Peeling.mem_left] at hv
          simpa using hv)
      obtain ⟨r, hgives, hr⟩ := ih _ (by omega) hnext rfl
      refine ⟨r, .of_succ (hpasses.bind ?_), hr⟩
      simp only [if_neg hall]
      exact hgives

lemma level_start (csr : CsrIndex) : Level 1 (⟨fun i => outDegreeRaw csr i + inDegreeRaw csr i, fun _ => false,
    fun _ => 0⟩ : Peeling csr) := by
  have hleft : (⟨fun i => outDegreeRaw csr i + inDegreeRaw csr i, fun _ => false,
      fun _ => 0⟩ : Peeling csr).left = univ := by simp [Peeling.left]
  refine ⟨fun u _ => ?_, fun t _ => ?_, fun u _ => ⟨univ, mem_univ u, fun _ _ => Nat.zero_le _⟩,
    fun u hu => absurd (hleft ▸ mem_univ u) hu⟩
  · rw [hleft, ends_univ]
  · rw [hleft]
    exact subset_univ t

/-- Every node is reported with its core number, as far as it fits. -/
lemma kcore_gives (csr : CsrIndex) :
    ∃ core : csr.Node → Nat, (∀ u, CoreNumber csr u (core u)) ∧
      Gives (kcore csr)
        ((List.finRange csr.nodeCount).map (csr.row fun i => (asU32 (core i) : Int))) := by
  obtain ⟨t, hgives, ht⟩ := levels_gives (level_start csr)
  choose core hcore hstored using ht
  refine ⟨core, hcore, ?_⟩
  by_cases hzero : csr.nodeCount = 0
  · have hnone : List.finRange csr.nodeCount = [] := by
      rw [← List.length_eq_zero_iff, List.length_finRange, hzero]
    have hkcore : kcore csr = fun _ => some [] := funext fun _ => if_pos hzero
    rw [hkcore, hnone]
    exact .of_const []
  · have hkcore : kcore csr = fun fuel => _ := funext fun _ => if_neg hzero
    rw [hkcore]
    have hrows := hgives.map fun s =>
      (List.finRange csr.nodeCount).map (csr.row fun i => (s.coreness i : Int))
    simp only [hstored] at hrows
    exact hrows

end Peel

/-- The core numbers are reported as they are exactly if they are all below 2^32. -/
theorem kcore_exact_iff (csr : CsrIndex) :
    (∃ core : csr.Node → Nat, (∀ u, CoreNumber csr u (core u)) ∧
      Gives (kcore csr) ((List.finRange csr.nodeCount).map (csr.row fun i => (core i : Int)))) ↔
      ∀ u, ¬InCore csr (2 ^ 32) u := by
  obtain ⟨core, hcore, hgives⟩ := kcore_gives csr
  constructor
  · rintro ⟨core', hcore', hgives'⟩ u ⟨s, hu, hs⟩
    have hsame : core' u = core u := IsGreatest.unique (hcore' u) (hcore u)
    have hrows := List.map_inj_left.mp (hgives.unique hgives') u (List.mem_finRange u)
    have hfits : asU32 (core u) = core' u := by
      simpa only [CsrIndex.row, Prod.mk.injEq, true_and, Nat.cast_inj] using hrows
    have hle : 2 ^ 32 ≤ core u := (hcore u).2 ⟨s, hu, hs⟩
    rw [asU32] at hfits
    omega
  · intro hsmall
    refine ⟨core, hcore, ?_⟩
    have hfits : ∀ u, asU32 (core u) = core u := by
      intro u
      refine Nat.mod_eq_of_lt (Nat.lt_of_not_le fun hle => hsmall u ?_)
      obtain ⟨s, hu, hs⟩ := (hcore u).1
      exact ⟨s, hu, hs.mono hle⟩
    simpa only [hfits] using hgives

/-- One node with so many loops, each with a label of its own. -/
def loops (m : Nat) : CsrIndex where
  nodeCount := 1
  nodeCount_lt := by decide
  nodeNameRaw _ := "a"
  iterOutEdgesRaw _ := (List.range m).map fun label => (label, 0)
  iterInEdgesRaw _ := (List.range m).map fun label => (label, 0)
  inverse u v label := by rw [Subsingleton.elim u v]

lemma coreNumber_loops (m : Nat) (u : (loops m).Node) : CoreNumber (loops m) u (m + m) := by
  have hall : ends (loops m) univ u = m + m := by
    rw [ends_univ]
    simp [outDegreeRaw, inDegreeRaw, loops]
  refine ⟨⟨univ, mem_univ u, fun v _ => ?_⟩, fun k ⟨s, hu, hs⟩ => ?_⟩
  · rw [Subsingleton.elim (α := Fin 1) v u, hall]
  · exact (hs u hu).trans ((ends_mono (subset_univ s) u).trans_eq hall)

/-- With 2^31 loops the node has core number 2^32, and 0 is reported for it. -/
theorem loops_core_number_lost :
    Gives (kcore (loops (2 ^ 31))) [("a", 0)] ∧ ∀ u, CoreNumber (loops (2 ^ 31)) u (2 ^ 32) := by
  have hcore : ∀ u, CoreNumber (loops (2 ^ 31)) u (2 ^ 32) := coreNumber_loops (2 ^ 31)
  refine ⟨?_, hcore⟩
  obtain ⟨core, hnumber, hgives⟩ := kcore_gives (loops (2 ^ 31))
  have heq : ∀ u, core u = 2 ^ 32 := fun u => IsGreatest.unique (hnumber u) (hcore u)
  simp only [heq, asU32, Nat.mod_self] at hgives
  exact hgives

end NodedbLite.GraphAlgo
