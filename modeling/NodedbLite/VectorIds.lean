import NodedbLite.SortedMap
import Mathlib

/-! Bindings between the documents of a vector index and the nodes of its graph, in both
directions, and the flat layout in which the bindings of all indexes are stored. -/
namespace NodedbLite.VectorIds

structure IndexIdMap where
  byNode : SortedMap Nat String
  byDoc : SortedMap String Nat

namespace IndexIdMap

def empty : IndexIdMap := ⟨.empty, .empty⟩

/-- The documents without the one that the node is taken from. -/
def dropPrevious (m : IndexIdMap) (docId : String) (node : Nat) : SortedMap String Nat :=
  match m.byNode.get node with
  | some prevDoc =>
    if prevDoc ≠ docId ∧ m.byDoc.get prevDoc = some node then m.byDoc.erase prevDoc else m.byDoc
  | none => m.byDoc

/-- Bind a document to a node. The node that the document leaves is returned. -/
def bind (m : IndexIdMap) (docId : String) (node : Nat) : IndexIdMap × Option Nat :=
  let byNode := m.byNode.insert node docId
  let byDoc := m.dropPrevious docId node
  match byDoc.get docId with
  | some old =>
    if old ≠ node then (⟨byNode.erase old, byDoc.insert docId node⟩, some old)
    else (⟨byNode, byDoc.insert docId node⟩, none)
  | none => (⟨byNode, byDoc.insert docId node⟩, none)

def unbindDoc (m : IndexIdMap) (docId : String) : IndexIdMap × Option Nat :=
  match m.byDoc.get docId with
  | some node => (⟨m.byNode.erase node, m.byDoc.erase docId⟩, some node)
  | none => (m, none)

def unbindNode (m : IndexIdMap) (node : Nat) : IndexIdMap × Option String :=
  match m.byNode.get node with
  | some docId => (⟨m.byNode.erase node, m.byDoc.erase docId⟩, some docId)
  | none => (m, none)

def isEmpty (m : IndexIdMap) : Bool := m.byDoc.entries.isEmpty

/-- Both directions hold the same bindings, so each document has one node and each node one
document. -/
def Agrees (m : IndexIdMap) : Prop := ∀ d n, m.byDoc.get d = some n ↔ m.byNode.get n = some d

lemma agrees_empty : empty.Agrees := fun d n => by simp [empty]

lemma Agrees.ext {m m' : IndexIdMap} (h : m.Agrees) (h' : m'.Agrees)
    (hdoc : ∀ d, m.byDoc.get d = m'.byDoc.get d) : m = m' := by
  have hnode : m.byNode = m'.byNode := by
    refine SortedMap.ext fun n => Option.ext fun d => ?_
    rw [← h d n, ← h' d n, hdoc]
  have hbyDoc : m.byDoc = m'.byDoc := SortedMap.ext hdoc
  cases m
  cases m'
  simp_all

section Bind

variable {m : IndexIdMap} (h : m.Agrees) (docId : String) (node : Nat)

include h

lemma get_dropPrevious (d : String) :
    (m.dropPrevious docId node).get d =
      if d ≠ docId ∧ m.byDoc.get d = some node then none else m.byDoc.get d := by
  have hd := h d node
  rw [dropPrevious]
  cases hprev : m.byNode.get node with
  | none =>
    rw [hprev] at hd
    rw [if_neg fun hboth => by cases hd.mp hboth.2]
  | some prevDoc =>
    have hprevDoc := (h prevDoc node).mpr hprev
    rw [hprev] at hd
    simp only [hprevDoc, and_true]
    by_cases hne : prevDoc = docId
    · rw [if_neg (not_not.mpr hne), if_neg]
      rintro ⟨hother, hnode⟩
      exact hother (hne ▸ (Option.some.inj (hd.mp hnode)).symm)
    · rw [if_pos hne, SortedMap.get_erase]
      split_ifs <;> grind

/-- A bind moves the document to the node, takes the node from the document that had it, and
returns the node that is left. -/
lemma bind_spec :
    (∀ d, (m.bind docId node).1.byDoc.get d =
        if d = docId then some node else if m.byDoc.get d = some node then none
        else m.byDoc.get d) ∧
      (∀ n, (m.bind docId node).1.byNode.get n =
        if n = node then some docId else if m.byNode.get n = some docId then none
        else m.byNode.get n) ∧
      (m.bind docId node).2 = (m.byDoc.get docId).filter (· ≠ node) := by
  have hdrop := get_dropPrevious h docId node
  have hself : (m.dropPrevious docId node).get docId = m.byDoc.get docId := by
    rw [hdrop, if_neg fun hboth => hboth.1 rfl]
  have hdocs : ∀ d, ((m.dropPrevious docId node).insert docId node).get d =
      if d = docId then some node else if m.byDoc.get d = some node then none
      else m.byDoc.get d := by
    intro d
    rw [SortedMap.get_insert, hdrop]
    split_ifs <;> grind
  rw [bind]
  simp only [hself]
  cases hold : m.byDoc.get docId with
  | none =>
    refine ⟨hdocs, fun n => ?_, rfl⟩
    have hn := h docId n
    rw [SortedMap.get_insert]
    split_ifs <;> grind
  | some old =>
    have hnode := (h docId old).mp hold
    by_cases hne : old = node
    · simp only [hne, ne_eq, not_true_eq_false, if_false]
      refine ⟨hdocs, fun n => ?_, by simp [Option.filter]⟩
      have hn := h docId n
      rw [SortedMap.get_insert]
      split_ifs <;> grind
    · simp only [ne_eq, hne, not_false_eq_true, if_true]
      refine ⟨hdocs, fun n => ?_, by simp [Option.filter, hne]⟩
      have hn := h docId n
      rw [SortedMap.get_erase, SortedMap.get_insert]
      split_ifs <;> grind

lemma Agrees.bind : (m.bind docId node).1.Agrees := by
  obtain ⟨hdoc, hnode, -⟩ := bind_spec h docId node
  intro d n
  rw [hdoc, hnode]
  have hdn := h d n
  split_ifs <;> grind

/-- The node that is returned is the one that had a document and has none. -/
lemma bind_returned (n : Nat) :
    (m.bind docId node).2 = some n ↔
      (m.byNode.get n).isSome ∧ (m.bind docId node).1.byNode.get n = none := by
  obtain ⟨-, hnode, hreturned⟩ := bind_spec h docId node
  rw [hreturned, hnode, Option.filter_eq_some_iff, h docId n]
  split_ifs <;> grind

end Bind

lemma Agrees.erase {m : IndexIdMap} (h : m.Agrees) {d : String} {n : Nat}
    (hbound : m.byDoc.get d = some n) : Agrees ⟨m.byNode.erase n, m.byDoc.erase d⟩ := by
  intro e k
  have hek := h e k
  have hdn := (h d n).mp hbound
  rw [SortedMap.get_erase, SortedMap.get_erase]
  split_ifs <;> grind

lemma Agrees.unbindDoc {m : IndexIdMap} (h : m.Agrees) (docId : String) :
    (m.unbindDoc docId).1.Agrees := by
  rw [IndexIdMap.unbindDoc]
  cases hbound : m.byDoc.get docId with
  | none => exact h
  | some node => exact h.erase hbound

lemma Agrees.unbindNode {m : IndexIdMap} (h : m.Agrees) (node : Nat) :
    (m.unbindNode node).1.Agrees := by
  rw [IndexIdMap.unbindNode]
  cases hbound : m.byNode.get node with
  | none => exact h
  | some docId => exact h.erase ((h docId node).mpr hbound)

lemma isEmpty_eq_false_iff {m : IndexIdMap} :
    m.isEmpty = false ↔ ∃ d n, m.byDoc.get d = some n := by
  rw [isEmpty, List.isEmpty_eq_false_iff_exists_mem]
  simp only [Prod.exists, SortedMap.get_eq_some_iff]

end IndexIdMap

structure VectorIdMap where
  indexes : SortedMap String IndexIdMap

/-- A stored binding: the index key and the node as one text, the document and the node. -/
abbrev PersistedIdEntry := String × String × Nat

def stripSuffix (text suffix : String) : Option String :=
  if suffix.toList <:+ text.toList then
    some (String.ofList (text.toList.take (text.toList.length - suffix.toList.length)))
  else none

lemma stripSuffix_append (text suffix : String) :
    stripSuffix (text ++ suffix) suffix = some text := by
  rw [stripSuffix, String.toList_append, if_pos (List.suffix_append _ _), List.length_append,
    Nat.add_sub_cancel, List.take_left, String.ofList_toList]

def compositeKey (indexKey : String) (node : Nat) : String := indexKey ++ (":" ++ toString node)

def persistedIndexKey (entry : PersistedIdEntry) : Option String :=
  stripSuffix entry.1 (":" ++ toString entry.2.2)

namespace VectorIdMap

def empty : VectorIdMap := ⟨.empty⟩

def bind (m : VectorIdMap) (indexKey docId : String) (node : Nat) : VectorIdMap × Option Nat :=
  let bound := ((m.indexes.get indexKey).getD .empty).bind docId node
  (⟨m.indexes.insert indexKey bound.1⟩, bound.2)

/-- What is left of an index; an index without a binding is dropped. -/
def replace (m : VectorIdMap) (indexKey : String) (ids : IndexIdMap) : VectorIdMap :=
  if ids.isEmpty then ⟨m.indexes.erase indexKey⟩ else ⟨m.indexes.insert indexKey ids⟩

def unbindDoc (m : VectorIdMap) (indexKey docId : String) : VectorIdMap × Option Nat :=
  match m.indexes.get indexKey with
  | some ids => (m.replace indexKey (ids.unbindDoc docId).1, (ids.unbindDoc docId).2)
  | none => (m, none)

def unbindNode (m : VectorIdMap) (indexKey : String) (node : Nat) : VectorIdMap × Option String :=
  match m.indexes.get indexKey with
  | some ids => (m.replace indexKey (ids.unbindNode node).1, (ids.unbindNode node).2)
  | none => (m, none)

def node (m : VectorIdMap) (indexKey docId : String) : Option Nat :=
  (m.indexes.get indexKey).bind fun ids => ids.byDoc.get docId

def docId (m : VectorIdMap) (indexKey : String) (node : Nat) : Option String :=
  (m.indexes.get indexKey).bind fun ids => ids.byNode.get node

def toEntries (m : VectorIdMap) : List PersistedIdEntry :=
  m.indexes.entries.flatMap fun index =>
    index.2.byDoc.entries.map fun binding =>
      (compositeKey index.1 binding.2, binding.1, binding.2)

/-- One stored binding is bound again; a node that it displaces is noted. -/
def restore (acc : VectorIdMap × List (String × Nat)) (binding : String × String × Nat) :
    VectorIdMap × List (String × Nat) :=
  let bound := acc.1.bind binding.1 binding.2.1 binding.2.2
  (bound.1, acc.2 ++ (bound.2.map fun old => (binding.1, old)).toList)

/-- Bind the stored bindings again, the lowest node first. -/
def fromEntries (entries : List PersistedIdEntry) : VectorIdMap × List (String × Nat) :=
  let parsed := entries.filterMap fun entry =>
    (persistedIndexKey entry).map fun indexKey => (indexKey, entry.2)
  (parsed.mergeSort fun a b => a.2.2 ≤ b.2.2).foldl restore (.empty, [])

/-- Every index has its bindings in both directions, and at least one. -/
structure WellFormed (m : VectorIdMap) : Prop where
  agrees : ∀ key ids, m.indexes.get key = some ids → ids.Agrees
  bound : ∀ key ids, m.indexes.get key = some ids → ids.isEmpty = false

lemma wellFormed_empty : empty.WellFormed where
  agrees _ _ h := nomatch h
  bound _ _ h := nomatch h

section Operations

variable {m : VectorIdMap} (h : m.WellFormed)

include h

lemma agrees_getD (key : String) : ((m.indexes.get key).getD .empty).Agrees := by
  cases hget : m.indexes.get key with
  | none => exact IndexIdMap.agrees_empty
  | some ids => exact h.agrees key ids hget

lemma WellFormed.bind (key docId : String) (node : Nat) : (m.bind key docId node).1.WellFormed := by
  have hagrees := agrees_getD h key
  have hget : ∀ other, (m.bind key docId node).1.indexes.get other =
      if other = key then some (((m.indexes.get key).getD .empty).bind docId node).1
      else m.indexes.get other := fun other => SortedMap.get_insert _ _ _ _
  refine ⟨fun other ids hids => ?_, fun other ids hids => ?_⟩ <;> rw [hget] at hids <;>
    split_ifs at hids with hother
  · cases hids
    exact hagrees.bind docId node
  · exact h.agrees other ids hids
  · cases hids
    refine IndexIdMap.isEmpty_eq_false_iff.mpr ⟨docId, node, ?_⟩
    rw [(IndexIdMap.bind_spec hagrees docId node).1, if_pos rfl]
  · exact h.bound other ids hids

lemma WellFormed.replace (key : String) {ids : IndexIdMap} (hids : ids.Agrees) :
    (m.replace key ids).WellFormed := by
  rw [VectorIdMap.replace]
  cases hempty : ids.isEmpty with
  | true =>
    have hget : ∀ other ids', (m.indexes.erase key).get other = some ids' →
        m.indexes.get other = some ids' := by
      intro other ids' hids'
      rw [SortedMap.get_erase] at hids'
      split_ifs at hids'
      exact hids'
    exact ⟨fun other ids' hids' => h.agrees other ids' (hget other ids' hids'),
      fun other ids' hids' => h.bound other ids' (hget other ids' hids')⟩
  | false =>
    have hget : ∀ other ids', (m.indexes.insert key ids).get other = some ids' →
        ids' = ids ∨ m.indexes.get other = some ids' := by
      intro other ids' hids'
      rw [SortedMap.get_insert] at hids'
      split_ifs at hids'
      · exact .inl (Option.some.inj hids').symm
      · exact .inr hids'
    refine ⟨fun other ids' hids' => ?_, fun other ids' hids' => ?_⟩ <;>
      obtain rfl | hold := hget other ids' hids'
    · exact hids
    · exact h.agrees other ids' hold
    · exact hempty
    · exact h.bound other ids' hold

lemma WellFormed.unbindDoc (key docId : String) : (m.unbindDoc key docId).1.WellFormed := by
  rw [VectorIdMap.unbindDoc]
  cases hget : m.indexes.get key with
  | none => exact h
  | some ids => exact h.replace key ((h.agrees key ids hget).unbindDoc docId)

lemma WellFormed.unbindNode (key : String) (node : Nat) :
    (m.unbindNode key node).1.WellFormed := by
  rw [VectorIdMap.unbindNode]
  cases hget : m.indexes.get key with
  | none => exact h
  | some ids => exact h.replace key ((h.agrees key ids hget).unbindNode node)

lemma node_eq_some_iff (key d : String) (n : Nat) : m.node key d = some n ↔ m.docId key n = some d := by
  rw [node, docId]
  cases hget : m.indexes.get key with
  | none => simp
  | some ids => exact h.agrees key ids hget d n

lemma WellFormed.ext {m' : VectorIdMap} (h' : m'.WellFormed)
    (hnode : ∀ key d, m.node key d = m'.node key d) : m = m' := by
  have hindexes : m.indexes = m'.indexes := by
    refine SortedMap.ext fun key => ?_
    have hkey := hnode key
    simp only [node] at hkey
    cases hget : m.indexes.get key with
    | none =>
      cases hget' : m'.indexes.get key with
      | none => rfl
      | some ids' =>
        obtain ⟨d, n, hbound⟩ := IndexIdMap.isEmpty_eq_false_iff.mp (h'.bound key ids' hget')
        have hd := hkey d
        rw [hget, hget', Option.bind_some, hbound] at hd
        cases hd
    | some ids =>
      cases hget' : m'.indexes.get key with
      | none =>
        obtain ⟨d, n, hbound⟩ := IndexIdMap.isEmpty_eq_false_iff.mp (h.bound key ids hget)
        have hd := hkey d
        rw [hget, hget', Option.bind_some, hbound] at hd
        cases hd
      | some ids' =>
        simp only [hget, hget', Option.bind_some] at hkey
        rw [(h.agrees key ids hget).ext (h'.agrees key ids' hget') hkey]
  cases m
  cases m'
  exact congrArg _ hindexes

omit h in
lemma node_getD (key d : String) :
    ((m.indexes.get key).getD .empty).byDoc.get d = m.node key d := by
  rw [node]
  cases m.indexes.get key <;> rfl

omit h in
lemma docId_getD (key : String) (n : Nat) :
    ((m.indexes.get key).getD .empty).byNode.get n = m.docId key n := by
  rw [docId]
  cases m.indexes.get key <;> rfl

lemma node_bind (key docId : String) (node : Nat) (key' d : String) :
    (m.bind key docId node).1.node key' d =
      if key' = key then
        if d = docId then some node else if m.node key d = some node then none else m.node key d
      else m.node key' d := by
  rw [VectorIdMap.node, VectorIdMap.bind, SortedMap.get_insert]
  by_cases hkey : key' = key
  · rw [if_pos hkey, if_pos hkey, Option.bind_some,
      (IndexIdMap.bind_spec (agrees_getD h key) docId node).1, node_getD]
  · rw [if_neg hkey, if_neg hkey, VectorIdMap.node]

lemma bind_leaves_iff (key docId : String) (node : Nat) (key' : String) (n : Nat) :
    (m.docId key' n).isSome ∧ (m.bind key docId node).1.docId key' n = none ↔
      key' = key ∧ (m.bind key docId node).2 = some n := by
  have hreturned := IndexIdMap.bind_returned (agrees_getD h key) docId node n
  rw [docId_getD] at hreturned
  have hdocId : (m.bind key docId node).1.docId key' n =
      if key' = key then (((m.indexes.get key).getD .empty).bind docId node).1.byNode.get n
      else m.docId key' n := by
    rw [VectorIdMap.docId, VectorIdMap.bind, SortedMap.get_insert]
    split_ifs with hkey
    · rfl
    · rw [VectorIdMap.docId]
  rw [hdocId]
  split_ifs with hkey
  · subst hkey
    exact hreturned.symm.trans ⟨fun hsome => ⟨rfl, hsome⟩, And.right⟩
  · simp only [hkey, false_and, iff_false, not_and]
    intro hsome hnone
    rw [hnone] at hsome
    cases hsome

end Operations

section Stored

variable {m : VectorIdMap} (h : m.WellFormed)

lemma mem_toEntries {entry : PersistedIdEntry} :
    entry ∈ m.toEntries ↔ ∃ key, entry.1 = compositeKey key entry.2.2 ∧
      m.node key entry.2.1 = some entry.2.2 := by
  obtain ⟨composite, d, n⟩ := entry
  simp only [toEntries, List.mem_flatMap, List.mem_map, Prod.mk.injEq, Prod.exists, node,
    Option.bind_eq_some_iff, SortedMap.get_eq_some_iff]
  constructor
  · rintro ⟨key, ids, hids, d', n', hbound, rfl, rfl, rfl⟩
    exact ⟨key, rfl, ids, hids, hbound⟩
  · rintro ⟨key, rfl, ids, hids, hbound⟩
    exact ⟨key, ids, hids, d, n, hbound, rfl, rfl, rfl⟩

lemma persistedIndexKey_compositeKey (key d : String) (n : Nat) :
    persistedIndexKey (compositeKey key n, d, n) = some key :=
  stripSuffix_append key (":" ++ toString n)

lemma mem_parsed {entries : List PersistedIdEntry} (hperm : entries.Perm m.toEntries)
    {binding : String × String × Nat} :
    binding ∈ entries.filterMap (fun entry =>
        (persistedIndexKey entry).map fun indexKey => (indexKey, entry.2)) ↔
      m.node binding.1 binding.2.1 = some binding.2.2 := by
  obtain ⟨key, d, n⟩ := binding
  simp only [List.mem_filterMap, hperm.mem_iff, mem_toEntries]
  constructor
  · rintro ⟨⟨composite, d', n'⟩, ⟨key', hcomposite, hnode⟩, hparsed⟩
    simp only at hcomposite hnode
    subst hcomposite
    rw [persistedIndexKey_compositeKey] at hparsed
    cases hparsed
    exact hnode
  · intro hnode
    refine ⟨(compositeKey key n, d, n), ⟨key, rfl, hnode⟩, ?_⟩
    rw [persistedIndexKey_compositeKey]
    rfl

/-- The bindings that are done are those of the map so far, and no node was displaced. -/
structure Restored (m : VectorIdMap) (acc : VectorIdMap × List (String × Nat))
    (done : List (String × String × Nat)) : Prop where
  wellFormed : acc.1.WellFormed
  bindings : ∀ key d n, acc.1.node key d = some n ↔ (key, d, n) ∈ done
  displaced : acc.2 = []

include h

lemma Restored.step {acc : VectorIdMap × List (String × Nat)}
    {done : List (String × String × Nat)} (hacc : Restored m acc done)
    (hdone : ∀ b ∈ done, m.node b.1 b.2.1 = some b.2.2) {key d : String} {n : Nat}
    (hnode : m.node key d = some n) : Restored m (restore acc (key, d, n)) (done ++ [(key, d, n)]) := by
  have hsub : ∀ {key d n}, acc.1.node key d = some n → m.node key d = some n :=
    fun hbound => hdone _ ((hacc.bindings _ _ _).mp hbound)
  refine ⟨hacc.wellFormed.bind key d n, fun key' d' n' => ?_, ?_⟩
  · rw [restore, node_bind hacc.wellFormed, List.mem_append, List.mem_singleton, ← hacc.bindings]
    simp only [Prod.mk.injEq]
    by_cases hkey : key' = key
    · subst hkey
      by_cases hd : d' = d
      · subst hd
        have hsame : acc.1.node key' d' = some n' → n = n' := fun hbound =>
          Option.some.inj (hnode.symm.trans (hsub hbound))
        grind
      · have hother : acc.1.node key' d' ≠ some n := fun hbound => by
          have h₁ := (node_eq_some_iff h key' d' n).mp (hsub hbound)
          have h₂ := (node_eq_some_iff h key' d n).mp hnode
          exact hd (Option.some.inj (h₁.symm.trans h₂))
        simp [hd, hother]
    · simp [hkey]
  · have hreturned : (acc.1.bind key d n).2 = none := by
      rw [VectorIdMap.bind]
      change (IndexIdMap.bind _ d n).2 = none
      rw [(IndexIdMap.bind_spec (agrees_getD hacc.wellFormed key) d n).2.2, node_getD,
        Option.filter_eq_none_iff]
      intro old hold
      have : old = n := Option.some.inj ((hsub hold).symm.trans hnode)
      simp [this]
    rw [restore, hreturned, hacc.displaced]
    rfl

lemma restored_foldl {bindings : List (String × String × Nat)}
    (hbindings : ∀ b ∈ bindings, m.node b.1 b.2.1 = some b.2.2) :
    Restored m (bindings.foldl restore (empty, [])) bindings := by
  suffices hrun : ∀ rest done acc, (∀ b ∈ done ++ rest, m.node b.1 b.2.1 = some b.2.2) →
      Restored m acc done → Restored m (rest.foldl restore acc) (done ++ rest) from
    hrun bindings [] (empty, []) hbindings
      ⟨wellFormed_empty, fun key d n => by simp [node, empty], rfl⟩
  intro rest
  induction rest with
  | nil =>
    intro done acc _ hacc
    rwa [List.append_nil]
  | cons b rest ih =>
    intro done acc hall hacc
    obtain ⟨key, d, n⟩ := b
    have hstep := hacc.step h (fun b hb => hall b (List.mem_append_left _ hb))
      (hall (key, d, n) (List.mem_append_right _ (.head _)))
    have := ih (done ++ [(key, d, n)]) _ (by simpa using hall) hstep
    simpa using this

lemma fromEntries_toEntries {entries : List PersistedIdEntry} (hperm : entries.Perm m.toEntries) :
    fromEntries entries = (m, []) := by
  set parsed := entries.filterMap fun entry =>
    (persistedIndexKey entry).map fun indexKey => (indexKey, entry.2) with hparsed
  have hmem : ∀ b, b ∈ parsed.mergeSort (fun a b => a.2.2 ≤ b.2.2) ↔
      m.node b.1 b.2.1 = some b.2.2 := by
    intro b
    rw [List.mem_mergeSort, hparsed, mem_parsed hperm]
  have hrestored := restored_foldl h fun b hb => (hmem b).mp hb
  refine Prod.ext ?_ hrestored.displaced
  refine hrestored.wellFormed.ext h fun key d => Option.ext fun n => ?_
  rw [hrestored.bindings, hmem]

end Stored

end VectorIdMap

/-- The calls that change bindings. -/
inductive IdCall
  | bind (indexKey docId : String) (node : Nat)
  | unbindDoc (indexKey docId : String)
  | unbindNode (indexKey : String) (node : Nat)

def IdCall.apply (m : VectorIdMap) : IdCall → VectorIdMap
  | .bind indexKey docId node => (m.bind indexKey docId node).1
  | .unbindDoc indexKey docId => (m.unbindDoc indexKey docId).1
  | .unbindNode indexKey node => (m.unbindNode indexKey node).1

def runCalls (calls : List IdCall) : VectorIdMap := calls.foldl IdCall.apply .empty

lemma wellFormed_apply {m : VectorIdMap} (h : m.WellFormed) (call : IdCall) :
    (call.apply m).WellFormed := by
  cases call with
  | bind indexKey docId node => exact h.bind indexKey docId node
  | unbindDoc indexKey docId => exact h.unbindDoc indexKey docId
  | unbindNode indexKey node => exact h.unbindNode indexKey node

lemma wellFormed_runCalls (calls : List IdCall) : (runCalls calls).WellFormed := by
  suffices h : ∀ m : VectorIdMap, m.WellFormed → (calls.foldl IdCall.apply m).WellFormed from
    h _ VectorIdMap.wellFormed_empty
  induction calls with
  | nil => exact fun m hm => hm
  | cons call calls ih => exact fun m hm => ih _ (wellFormed_apply hm call)

/-- After any calls the two directions of every index agree, a bind returns exactly the node that it
leaves without a document, and the stored layout gives back the same maps. -/
theorem vector_ids_stay_bijection (calls : List IdCall) :
    (∀ key ids, (runCalls calls).indexes.get key = some ids →
        ∀ d n, ids.byDoc.get d = some n ↔ ids.byNode.get n = some d) ∧
      (∀ key docId node key' n,
        ((runCalls calls).docId key' n).isSome ∧
            ((runCalls calls).bind key docId node).1.docId key' n = none ↔
          key' = key ∧ ((runCalls calls).bind key docId node).2 = some n) ∧
      ∀ entries : List PersistedIdEntry, entries.Perm (runCalls calls).toEntries →
        VectorIdMap.fromEntries entries = (runCalls calls, []) := by
  have h := wellFormed_runCalls calls
  exact ⟨h.agrees, VectorIdMap.bind_leaves_iff h,
    fun entries hperm => VectorIdMap.fromEntries_toEntries h hperm⟩

end NodedbLite.VectorIds
