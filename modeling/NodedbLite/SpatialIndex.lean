import NodedbLite.SortedMap
import NodedbLite.GuardedRun

/-! The per-collection spatial index: an R-tree per collection and field, and the two maps between
documents and tree entries. The maps have one place per document, not one per field. -/
namespace NodedbLite.Spatial

structure RTreeEntry (Box : Type) where
  id : Nat
  bbox : Box

/-- The R-tree crate: a tree holds entries, and a search gives those whose boxes intersect. -/
structure RTree (Tree Box : Type) where
  intersects : Box → Box → Bool
  new : Tree
  insert : Tree → RTreeEntry Box → Tree
  delete : Tree → Nat → Tree
  bulkLoad : List (RTreeEntry Box) → Tree
  search : Tree → Box → List (RTreeEntry Box)
  entries : Tree → List (RTreeEntry Box)
  entries_new : entries new = []
  entries_insert : ∀ t e, (entries (insert t e)).Perm (e :: entries t)
  entries_delete : ∀ t id, ((entries t).map RTreeEntry.id).Nodup →
    (entries (delete t id)).Perm ((entries t).filter (fun e => e.id ≠ id))
  entries_bulkLoad : ∀ es, (entries (bulkLoad es)).Perm es
  search_perm : ∀ t query, (search t query).Perm
    ((entries t).filter (fun e => intersects e.bbox query))

/-- A collection with a field, or with a document. -/
abbrev PairKey := String ×ₗ String

def pairKey (collection name : String) : PairKey := toLex (collection, name)

lemma pairKey_inj {c d c' d' : String} : pairKey c d = pairKey c' d' ↔ c = c' ∧ d = d' := by
  simp [pairKey]

structure SpatialIndexManager (Tree : Type) where
  indices : SortedMap PairKey Tree
  docToEntry : SortedMap PairKey Nat
  entryToDoc : SortedMap Nat PairKey
  nextId : Nat

section Manager

variable {Tree Box Geometry : Type} (rtree : RTree Tree Box) (geometryBbox : Geometry → Box)

namespace SpatialIndexManager

def new : SpatialIndexManager Tree := ⟨SortedMap.empty, SortedMap.empty, SortedMap.empty, 1⟩

def docIdForEntry (m : SpatialIndexManager Tree) (entryId : Nat) : Option String :=
  (m.entryToDoc.get entryId).map (fun doc => (ofLex doc).2)

/-- Forget the entry of a document, and delete it from the tree of the field. -/
def removeDocument (m : SpatialIndexManager Tree) (collection field docId : String) :
    SpatialIndexManager Tree :=
  let key := pairKey collection field
  let docKey := pairKey collection docId
  match m.docToEntry.get docKey with
  | some entryId =>
    { m with
      docToEntry := m.docToEntry.erase docKey
      entryToDoc := m.entryToDoc.erase entryId
      indices := match m.indices.get key with
        | some tree => m.indices.insert key (rtree.delete tree entryId)
        | none => m.indices }
  | none => m

/-- Give a document a fresh entry. -/
def assignEntry (m : SpatialIndexManager Tree) (collection docId : String) :
    SpatialIndexManager Tree :=
  { m with
    nextId := m.nextId + 1
    docToEntry := m.docToEntry.insert (pairKey collection docId) m.nextId
    entryToDoc := m.entryToDoc.insert m.nextId (pairKey collection docId) }

/-- The old entry of the document goes the way of `removeDocument`, and a new one is inserted. -/
def indexDocument (m : SpatialIndexManager Tree) (collection field docId : String)
    (geometry : Geometry) : SpatialIndexManager Tree :=
  let cleared := m.removeDocument rtree collection field docId
  let key := pairKey collection field
  let tree := (cleared.indices.get key).getD rtree.new
  { cleared.assignEntry collection docId with
    indices := cleared.indices.insert key
      (rtree.insert tree ⟨cleared.nextId, geometryBbox geometry⟩) }

/-- Fresh entries for a list of documents, in order. -/
def assignEntries (collection : String) : SpatialIndexManager Tree → List (String × Geometry) →
    SpatialIndexManager Tree × List (RTreeEntry Box)
  | m, [] => (m, [])
  | m, (docId, geom) :: documents =>
    let rest := assignEntries collection (m.assignEntry collection docId) documents
    (rest.1, ⟨m.nextId, geometryBbox geom⟩ :: rest.2)

def rebuildFromDocuments (m : SpatialIndexManager Tree) (collection field : String)
    (documents : List (String × Geometry)) : SpatialIndexManager Tree :=
  let assigned := assignEntries geometryBbox collection m documents
  { assigned.1 with
    indices := assigned.1.indices.insert (pairKey collection field) (rtree.bulkLoad assigned.2) }

def search (m : SpatialIndexManager Tree) (collection field : String) (query : Box) :
    List (RTreeEntry Box) :=
  match m.indices.get (pairKey collection field) with
  | some tree => rtree.search tree query
  | none => []

/-- The documents a search resolves to. -/
def searchDocs (m : SpatialIndexManager Tree) (collection field : String) (query : Box) :
    List String :=
  (m.search rtree collection field query).filterMap (fun e => m.docIdForEntry e.id)

end SpatialIndexManager

/-- The calls that change the index. -/
inductive IndexCall (Geometry : Type)
  | index (collection field docId : String) (geometry : Geometry)
  | remove (collection field docId : String)
  | rebuild (collection field : String) (documents : List (String × Geometry))

/-- The latest indexed geometry of each collection, field and document. -/
abbrev Geometries (Geometry : Type) := String → String → String → Option Geometry

/-- What a call makes of the latest geometries; a rebuild puts its documents in place of the
field. -/
def Geometries.after (latest : Geometries Geometry) : IndexCall Geometry → Geometries Geometry
  | .index collection field docId geometry => fun c f d =>
    if c = collection ∧ f = field ∧ d = docId then some geometry else latest c f d
  | .remove collection field docId => fun c f d =>
    if c = collection ∧ f = field ∧ d = docId then none else latest c f d
  | .rebuild collection field documents => fun c f d =>
    if c = collection ∧ f = field then documents.reverse.lookup d else latest c f d

def SpatialIndexManager.after (m : SpatialIndexManager Tree) :
    IndexCall Geometry → SpatialIndexManager Tree
  | .index collection field docId geometry =>
    m.indexDocument rtree geometryBbox collection field docId geometry
  | .remove collection field docId => m.removeDocument rtree collection field docId
  | .rebuild collection field documents =>
    m.rebuildFromDocuments rtree geometryBbox collection field documents

/-- No other field of the document has a geometry. -/
def OnlyField (latest : Geometries Geometry) (collection field docId : String) : Prop :=
  ∀ other, other ≠ field → latest collection other docId = none

/-- A call is about documents with no other spatial field, and a rebuild lists each document
once. -/
def FitsField (latest : Geometries Geometry) : IndexCall Geometry → Prop
  | .index collection field docId _ => OnlyField latest collection field docId
  | .remove collection field docId => OnlyField latest collection field docId
  | .rebuild collection field documents => (documents.map Prod.fst).Nodup ∧
    ∀ docId ∈ documents.map Prod.fst, OnlyField latest collection field docId

/-- A search gives each document whose latest geometry intersects the box, once. -/
def SearchExact (m : SpatialIndexManager Tree) (latest : Geometries Geometry) : Prop :=
  ∀ collection field query, (m.searchDocs rtree collection field query).Nodup ∧
    ∀ docId, docId ∈ m.searchDocs rtree collection field query ↔
      ∃ geometry, latest collection field docId = some geometry ∧
        rtree.intersects (geometryBbox geometry) query = true

/-- The entries of one field's tree. -/
def SpatialIndexManager.entriesOf (m : SpatialIndexManager Tree) (collection field : String) :
    List (RTreeEntry Box) :=
  ((m.indices.get (pairKey collection field)).map rtree.entries).getD []

/-- The maps are inverse to each other on the documents, and no entry is given out twice. -/
structure Mapped (m : SpatialIndexManager Tree) : Prop where
  doc : ∀ {doc id}, m.docToEntry.get doc = some id → m.entryToDoc.get id = some doc
  lt : ∀ {doc id}, m.docToEntry.get doc = some id → id < m.nextId

/-- Each tree holds the entry of every document with a geometry in its field, and no other. -/
structure Tracks (m : SpatialIndexManager Tree) (latest : Geometries Geometry) : Prop where
  mapped : Mapped m
  nodup : ∀ c f, ((m.entriesOf rtree c f).map RTreeEntry.id).Nodup
  live : ∀ {c f d g}, latest c f d = some g → (m.docToEntry.get (pairKey c d)).isSome
  mem : ∀ {c f e}, e ∈ m.entriesOf rtree c f ↔ ∃ d g, latest c f d = some g ∧
    m.docToEntry.get (pairKey c d) = some e.id ∧ e.bbox = geometryBbox g

end Manager

section Proofs

variable {Tree Box Geometry : Type} {rtree : RTree Tree Box} {geometryBbox : Geometry → Box}
variable {m : SpatialIndexManager Tree} {latest : Geometries Geometry}

namespace SpatialIndexManager

lemma mem_search {e : RTreeEntry Box} {collection field : String} {query : Box} :
    e ∈ m.search rtree collection field query ↔
      e ∈ m.entriesOf rtree collection field ∧ rtree.intersects e.bbox query = true := by
  unfold search entriesOf
  cases m.indices.get (pairKey collection field) with
  | none => simp
  | some tree => simp [(rtree.search_perm tree query).mem_iff]

lemma search_ids_nodup {collection field : String} {query : Box}
    (h : ((m.entriesOf rtree collection field).map RTreeEntry.id).Nodup) :
    ((m.search rtree collection field query).map RTreeEntry.id).Nodup := by
  unfold search
  unfold entriesOf at h
  cases hkey : m.indices.get (pairKey collection field) with
  | none => simp
  | some tree =>
    rw [hkey] at h
    rw [((rtree.search_perm tree query).map _).nodup_iff]
    exact h.sublist (List.filter_sublist.map _)

end SpatialIndexManager

lemma Tracks.searchExact (h : Tracks rtree geometryBbox m latest) :
    SearchExact rtree geometryBbox m latest := by
  intro collection field query
  have hdoc : ∀ {e}, e ∈ m.search rtree collection field query → ∀ {docId},
      m.docIdForEntry e.id = some docId → m.docToEntry.get (pairKey collection docId) = some e.id := by
    intro e he docId hid
    obtain ⟨d, g, -, hd, -⟩ := h.mem.mp (SpatialIndexManager.mem_search.mp he).1
    rw [SpatialIndexManager.docIdForEntry, h.mapped.doc hd] at hid
    obtain rfl : d = docId := by simpa [pairKey] using hid
    exact hd
  constructor
  · have hids : ((m.search rtree collection field query).map RTreeEntry.id).Nodup :=
      SpatialIndexManager.search_ids_nodup (h.nodup collection field)
    rw [List.Nodup, List.pairwise_map] at hids
    rw [SpatialIndexManager.searchDocs, List.Nodup, List.pairwise_filterMap]
    apply hids.imp_of_mem
    intro a b ha hb hne x hx y hy hxy
    have hx' := hdoc ha hx
    rw [hxy, hdoc hb hy] at hx'
    exact hne (Option.some.inj hx').symm
  · intro docId
    rw [SpatialIndexManager.searchDocs, List.mem_filterMap]
    constructor
    · rintro ⟨e, he, hid⟩
      obtain ⟨hmem, hbox⟩ := SpatialIndexManager.mem_search.mp he
      obtain ⟨d, g, hg, hd, hbbox⟩ := h.mem.mp hmem
      have hsame := h.mapped.doc (hdoc he hid)
      rw [h.mapped.doc hd, Option.some.injEq, pairKey_inj] at hsame
      exact ⟨g, hsame.2 ▸ hg, hbbox ▸ hbox⟩
    · rintro ⟨g, hg, hbox⟩
      obtain ⟨id, hid⟩ := Option.isSome_iff_exists.mp (h.live hg)
      refine ⟨⟨id, geometryBbox g⟩, ?_, ?_⟩
      · exact SpatialIndexManager.mem_search.mpr ⟨h.mem.mpr ⟨docId, g, hg, hid, rfl⟩, hbox⟩
      · simp [SpatialIndexManager.docIdForEntry, h.mapped.doc hid, pairKey]

lemma tracks_new : Tracks rtree geometryBbox (SpatialIndexManager.new : SpatialIndexManager Tree)
    (fun _ _ _ => (none : Option Geometry)) where
  mapped := ⟨fun h => (by cases h), fun h => (by cases h)⟩
  nodup _ _ := List.nodup_nil
  live h := by cases h
  mem := by
    intro c f e
    constructor
    · intro h
      cases h
    · rintro ⟨d, g, h, -⟩
      cases h

section Entries

variable {c f d : String}

lemma get_docToEntry_assignEntry (doc : PairKey) : (m.assignEntry c d).docToEntry.get doc
    = if doc = pairKey c d then some m.nextId else m.docToEntry.get doc :=
  SortedMap.get_insert ..

lemma Mapped.assignEntry (h : Mapped m) : Mapped (m.assignEntry c d) where
  doc := by
    intro doc id hid
    rw [get_docToEntry_assignEntry] at hid
    rw [SpatialIndexManager.assignEntry, SortedMap.get_insert]
    split at hid
    · next heq => rw [heq, if_pos (Option.some.inj hid).symm]
    · rw [if_neg (h.lt hid).ne, h.doc hid]
  lt := by
    intro doc id hid
    rw [get_docToEntry_assignEntry] at hid
    change id < m.nextId + 1
    split at hid
    · rw [← Option.some.inj hid]
      exact Nat.lt_succ_self _
    · exact Nat.lt_succ_of_lt (h.lt hid)

lemma removeDocument_of_none (h : m.docToEntry.get (pairKey c d) = none) :
    m.removeDocument rtree c f d = m := by
  simp only [SpatialIndexManager.removeDocument, h]

lemma removeDocument_of_some {entryId : Nat} (h : m.docToEntry.get (pairKey c d) = some entryId) :
    m.removeDocument rtree c f d =
      { m with
        docToEntry := m.docToEntry.erase (pairKey c d)
        entryToDoc := m.entryToDoc.erase entryId
        indices := match m.indices.get (pairKey c f) with
          | some tree => m.indices.insert (pairKey c f) (rtree.delete tree entryId)
          | none => m.indices } := by
  simp only [SpatialIndexManager.removeDocument, h]

lemma get_docToEntry_removeDocument (doc : PairKey) :
    (m.removeDocument rtree c f d).docToEntry.get doc
      = if doc = pairKey c d then none else m.docToEntry.get doc := by
  cases hold : m.docToEntry.get (pairKey c d) with
  | none =>
    rw [removeDocument_of_none hold]
    by_cases heq : doc = pairKey c d
    · rw [if_pos heq, heq, hold]
    · rw [if_neg heq]
  | some entryId =>
    rw [removeDocument_of_some hold]
    exact SortedMap.get_erase ..

lemma nextId_removeDocument : (m.removeDocument rtree c f d).nextId = m.nextId := by
  cases hold : m.docToEntry.get (pairKey c d) with
  | none => rw [removeDocument_of_none hold]
  | some entryId => rw [removeDocument_of_some hold]

lemma Mapped.removeDocument (h : Mapped m) : Mapped (m.removeDocument rtree c f d) where
  doc := by
    intro doc id hid
    rw [get_docToEntry_removeDocument] at hid
    split at hid
    · cases hid
    · next hne =>
      cases hold : m.docToEntry.get (pairKey c d) with
      | none =>
        rw [removeDocument_of_none hold]
        exact h.doc hid
      | some entryId =>
        have hentry : id ≠ entryId := by
          rintro rfl
          exact hne (Option.some.inj ((h.doc hid).symm.trans (h.doc hold)))
        rw [removeDocument_of_some hold, SortedMap.get_erase, if_neg hentry, h.doc hid]
  lt := by
    intro doc id hid
    rw [get_docToEntry_removeDocument] at hid
    rw [nextId_removeDocument]
    split at hid
    · cases hid
    · exact h.lt hid

lemma entriesOf_removeDocument (c' f' : String)
    (hnodup : ((m.entriesOf rtree c' f').map RTreeEntry.id).Nodup) :
    ((m.removeDocument rtree c f d).entriesOf rtree c' f').Perm
      ((m.entriesOf rtree c' f').filter fun e =>
        ¬ (pairKey c' f' = pairKey c f ∧ m.docToEntry.get (pairKey c d) = some e.id)) := by
  cases hold : m.docToEntry.get (pairKey c d) with
  | none => simp [removeDocument_of_none hold]
  | some entryId =>
    rw [removeDocument_of_some hold]
    by_cases hkey : pairKey c' f' = pairKey c f
    · unfold SpatialIndexManager.entriesOf at hnodup ⊢
      rw [hkey] at hnodup ⊢
      cases htree : m.indices.get (pairKey c f) with
      | none => simp [htree]
      | some tree =>
        rw [htree] at hnodup
        simp only [SortedMap.get_insert, if_true, Option.map_some, Option.getD_some, true_and,
          Option.some.injEq, htree]
        have hdelete := rtree.entries_delete tree entryId hnodup
        simpa [eq_comm] using hdelete
    · unfold SpatialIndexManager.entriesOf
      cases htree : m.indices.get (pairKey c f) with
      | none => simp [hkey]
      | some tree => simp [SortedMap.get_insert, hkey]

end Entries

section Steps

variable {c f d : String}

lemma Tracks.removeDocument (h : Tracks rtree geometryBbox m latest) (honly : OnlyField latest c f d) :
    Tracks rtree geometryBbox (m.removeDocument rtree c f d) (latest.after (.remove c f d)) where
  mapped := h.mapped.removeDocument
  nodup c' f' := by
    rw [((entriesOf_removeDocument c' f' (h.nodup c' f')).map _).nodup_iff]
    exact (h.nodup c' f').sublist (List.filter_sublist.map _)
  live := by
    intro c' f' d' g hg
    simp only [Geometries.after] at hg
    split at hg
    · cases hg
    · next hne =>
      rw [get_docToEntry_removeDocument, if_neg, h.live hg]
      rw [pairKey_inj]
      rintro ⟨rfl, rfl⟩
      by_cases hfield : f' = f
      · exact hne ⟨rfl, hfield, rfl⟩
      · rw [honly f' hfield] at hg
        cases hg
  mem := by
    intro c' f' e
    rw [(entriesOf_removeDocument c' f' (h.nodup c' f')).mem_iff, List.mem_filter, h.mem,
      decide_eq_true_iff, pairKey_inj]
    simp only [Geometries.after, get_docToEntry_removeDocument, pairKey_inj]
    constructor
    · rintro ⟨⟨d', g, hg, hd, hbox⟩, hkept⟩
      have hdoc : ¬ (c' = c ∧ d' = d) := by
        rintro ⟨rfl, rfl⟩
        by_cases hfield : f' = f
        · exact hkept ⟨⟨rfl, hfield⟩, hd⟩
        · rw [honly f' hfield] at hg
          cases hg
      refine ⟨d', g, ?_, ?_, hbox⟩
      · rw [if_neg (fun heq => hdoc ⟨heq.1, heq.2.2⟩), hg]
      · rw [if_neg hdoc, hd]
    · rintro ⟨d', g, hg, hd, hbox⟩
      split at hd
      · cases hd
      · next hdoc =>
        rw [if_neg (fun heq => hdoc ⟨heq.1, heq.2.2⟩)] at hg
        refine ⟨⟨d', g, hg, hd, hbox⟩, ?_⟩
        rintro ⟨⟨rfl, rfl⟩, hold⟩
        have hsame := (h.mapped.doc hd).symm.trans (h.mapped.doc hold)
        rw [Option.some.injEq, pairKey_inj] at hsame
        exact hdoc hsame

lemma entriesOf_of_indices_eq {m' : SpatialIndexManager Tree} {tree : Tree}
    (h : m'.indices = m.indices.insert (pairKey c f) tree) (c' f' : String) :
    m'.entriesOf rtree c' f'
      = if c' = c ∧ f' = f then rtree.entries tree else m.entriesOf rtree c' f' := by
  unfold SpatialIndexManager.entriesOf
  rw [h, SortedMap.get_insert]
  simp only [pairKey_inj]
  split <;> rfl

lemma entries_getD_new : rtree.entries ((m.indices.get (pairKey c f)).getD rtree.new)
    = m.entriesOf rtree c f := by
  unfold SpatialIndexManager.entriesOf
  cases m.indices.get (pairKey c f) with
  | none => exact rtree.entries_new
  | some tree => rfl

lemma Tracks.insertEntry {g : Geometry} (h : Tracks rtree geometryBbox m latest)
    (hfree : m.docToEntry.get (pairKey c d) = none) :
    Tracks rtree geometryBbox
      { m.assignEntry c d with
        indices := m.indices.insert (pairKey c f)
          (rtree.insert ((m.indices.get (pairKey c f)).getD rtree.new)
            ⟨m.nextId, geometryBbox g⟩) }
      (latest.after (.index c f d g)) where
  mapped := ⟨h.mapped.assignEntry.doc, h.mapped.assignEntry.lt⟩
  nodup c' f' := by
    rw [entriesOf_of_indices_eq rfl]
    split
    · rw [((rtree.entries_insert _ _).map _).nodup_iff, entries_getD_new, List.map_cons,
        List.nodup_cons]
      refine ⟨?_, h.nodup c f⟩
      intro hid
      obtain ⟨e, he, heq⟩ := List.mem_map.mp hid
      obtain ⟨d', g', -, hd, -⟩ := h.mem.mp he
      exact (h.mapped.lt hd).ne heq
    · exact h.nodup c' f'
  live := by
    intro c' f' d' g' hg
    simp only [Geometries.after] at hg
    rw [get_docToEntry_assignEntry]
    split
    · rfl
    · next hne =>
      rw [pairKey_inj] at hne
      rw [if_neg (fun heq => hne ⟨heq.1, heq.2.2⟩)] at hg
      exact h.live hg
  mem := by
    intro c' f' e
    have hother : ∀ {d' g'}, latest c' f' d' = some g' → ¬ (c' = c ∧ d' = d) := by
      rintro d' g' hg ⟨rfl, rfl⟩
      have hlive := h.live hg
      rw [hfree] at hlive
      cases hlive
    have hold : e ∈ m.entriesOf rtree c' f' ↔ ∃ d' g', ¬ (c' = c ∧ d' = d) ∧
        latest c' f' d' = some g' ∧ m.docToEntry.get (pairKey c' d') = some e.id ∧
          e.bbox = geometryBbox g' := by
      rw [h.mem]
      constructor
      · rintro ⟨d', g', hg, hrest⟩
        exact ⟨d', g', hother hg, hg, hrest⟩
      · rintro ⟨d', g', -, hg⟩
        exact ⟨d', g', hg⟩
    have hnew : e ∈ (if c' = c ∧ f' = f then rtree.entries (rtree.insert
          ((m.indices.get (pairKey c f)).getD rtree.new) ⟨m.nextId, geometryBbox g⟩)
        else m.entriesOf rtree c' f') ↔
        (c' = c ∧ f' = f) ∧ e = ⟨m.nextId, geometryBbox g⟩ ∨ e ∈ m.entriesOf rtree c' f' := by
      split
      · next hkey =>
        rw [(rtree.entries_insert _ _).mem_iff, entries_getD_new, List.mem_cons]
        simp [hkey]
      · next hkey => simp [hkey]
    rw [entriesOf_of_indices_eq rfl, hnew, hold]
    simp only [Geometries.after, get_docToEntry_assignEntry, pairKey_inj]
    constructor
    · rintro (⟨⟨rfl, rfl⟩, rfl⟩ | ⟨d', g', hne, hg, hd, hbox⟩)
      · exact ⟨d, g, by simp, by simp, rfl⟩
      · refine ⟨d', g', ?_, ?_, hbox⟩
        · rw [if_neg (fun heq => hne ⟨heq.1, heq.2.2⟩), hg]
        · rw [if_neg hne, hd]
    · rintro ⟨d', g', hg, hd, hbox⟩
      by_cases hdoc : c' = c ∧ d' = d
      · rw [if_pos hdoc] at hd
        split at hg
        · next hkey =>
          left
          obtain ⟨id, bbox⟩ := e
          obtain rfl := Option.some.inj hg
          obtain rfl := Option.some.inj hd
          obtain rfl := hbox
          exact ⟨⟨hkey.1, hkey.2.1⟩, rfl⟩
        · exact absurd hdoc (hother hg)
      · rw [if_neg (fun heq => hdoc ⟨heq.1, heq.2.2⟩)] at hg
        rw [if_neg hdoc] at hd
        exact Or.inr ⟨d', g', hdoc, hg, hd, hbox⟩

lemma Tracks.indexDocument {g : Geometry} (h : Tracks rtree geometryBbox m latest)
    (honly : OnlyField latest c f d) :
    Tracks rtree geometryBbox (m.indexDocument rtree geometryBbox c f d g)
      (latest.after (.index c f d g)) := by
  have hfree : (m.removeDocument rtree c f d).docToEntry.get (pairKey c d) = none := by
    rw [get_docToEntry_removeDocument, if_pos rfl]
  have hinsert := (h.removeDocument honly).insertEntry (f := f) (g := g) hfree
  have hafter : (latest.after (.remove c f d)).after (.index c f d g)
      = latest.after (.index c f d g) := by
    funext c' f' d'
    simp only [Geometries.after]
    split
    · rfl
    · rfl
  rw [hafter] at hinsert
  exact hinsert

end Steps

section Rebuild

variable {c f : String} {documents : List (String × Geometry)}

open SpatialIndexManager

lemma indices_assignEntries : (assignEntries geometryBbox c m documents).1.indices = m.indices := by
  induction documents generalizing m with
  | nil => rfl
  | cons document documents ih => exact ih

lemma Mapped.assignEntries (h : Mapped m) : Mapped (assignEntries geometryBbox c m documents).1 := by
  induction documents generalizing m with
  | nil => exact h
  | cons document documents ih => exact ih h.assignEntry

lemma get_docToEntry_assignEntries {doc : PairKey}
    (hdoc : ∀ docId ∈ documents.map Prod.fst, doc ≠ pairKey c docId) :
    (assignEntries geometryBbox c m documents).1.docToEntry.get doc = m.docToEntry.get doc := by
  induction documents generalizing m with
  | nil => rfl
  | cons document documents ih =>
    simp only [List.map_cons, List.forall_mem_cons] at hdoc
    rw [assignEntries, ih hdoc.2, get_docToEntry_assignEntry, if_neg hdoc.1]

lemma nextId_le_of_mem_assignEntries {e : RTreeEntry Box}
    (he : e ∈ (assignEntries geometryBbox c m documents).2) : m.nextId ≤ e.id := by
  induction documents generalizing m with
  | nil => cases he
  | cons document documents ih =>
    rcases List.mem_cons.mp he with rfl | he
    · exact le_rfl
    · exact (Nat.le_succ _).trans (ih he)

lemma assignEntries_ids_nodup :
    ((assignEntries geometryBbox c m documents).2.map RTreeEntry.id).Nodup := by
  induction documents generalizing m with
  | nil => exact List.nodup_nil
  | cons document documents ih =>
    rw [assignEntries, List.map_cons, List.nodup_cons]
    refine ⟨?_, ih⟩
    intro hid
    obtain ⟨e, he, heq⟩ := List.mem_map.mp hid
    have hle : m.nextId + 1 ≤ e.id := nextId_le_of_mem_assignEntries he
    exact absurd heq.symm (Nat.lt_of_succ_le hle).ne

lemma mem_assignEntries {e : RTreeEntry Box} (hnodup : (documents.map Prod.fst).Nodup) :
    e ∈ (assignEntries geometryBbox c m documents).2 ↔ ∃ docId geom, (docId, geom) ∈ documents ∧
      (assignEntries geometryBbox c m documents).1.docToEntry.get (pairKey c docId) = some e.id ∧
        e.bbox = geometryBbox geom := by
  induction documents generalizing m with
  | nil => simp [assignEntries]
  | cons document documents ih =>
    obtain ⟨docId, geom⟩ := document
    rw [List.map_cons, List.nodup_cons] at hnodup
    have hfirst : (assignEntries geometryBbox c (m.assignEntry c docId) documents).1.docToEntry.get
        (pairKey c docId) = some m.nextId := by
      rw [get_docToEntry_assignEntries, get_docToEntry_assignEntry, if_pos rfl]
      intro other hother heq
      rw [pairKey_inj] at heq
      exact hnodup.1 (heq.2 ▸ hother)
    simp only [assignEntries, List.mem_cons, ih hnodup.2, or_and_right, exists_or, Prod.mk.injEq]
    apply or_congr_left
    constructor
    · rintro rfl
      exact ⟨docId, geom, ⟨rfl, rfl⟩, hfirst, rfl⟩
    · rintro ⟨other, geometry, ⟨rfl, rfl⟩, hid, hbox⟩
      rw [hfirst] at hid
      obtain ⟨id, bbox⟩ := e
      obtain rfl := Option.some.inj hid
      obtain rfl := hbox
      rfl

lemma isSome_docToEntry_assignEntries {docId : String} (h : docId ∈ documents.map Prod.fst) :
    ((assignEntries geometryBbox c m documents).1.docToEntry.get (pairKey c docId)).isSome := by
  induction documents generalizing m with
  | nil => cases h
  | cons document documents ih =>
    rw [assignEntries]
    by_cases hlater : docId ∈ documents.map Prod.fst
    · exact ih hlater
    · obtain rfl : docId = document.1 := by simpa [hlater] using h
      rw [get_docToEntry_assignEntries, get_docToEntry_assignEntry, if_pos rfl]
      · rfl
      · intro other hother heq
        rw [pairKey_inj] at heq
        exact hlater (heq.2 ▸ hother)

lemma lookup_reverse_eq_some_iff (hnodup : (documents.map Prod.fst).Nodup) {docId : String}
    {geom : Geometry} : documents.reverse.lookup docId = some geom ↔ (docId, geom) ∈ documents := by
  rw [List.lookup_eq_some_iff]
  constructor
  · rintro ⟨before, after, heq, -⟩
    rw [← List.mem_reverse, heq]
    simp
  · intro hmem
    obtain ⟨before, after, heq⟩ := List.append_of_mem (List.mem_reverse.mpr hmem)
    refine ⟨before, after, heq, ?_⟩
    intro p hp
    rw [← List.nodup_reverse, ← List.map_reverse, heq, List.map_append, List.map_cons,
      List.nodup_middle, List.nodup_cons] at hnodup
    have hne : docId ≠ p.1 := by
      intro h
      exact hnodup.1 (List.mem_append_left _ (List.mem_map.mpr ⟨p, hp, h.symm⟩))
    simpa using hne

lemma Tracks.rebuild (h : Tracks rtree geometryBbox m latest)
    (hnodup : (documents.map Prod.fst).Nodup)
    (honly : ∀ docId ∈ documents.map Prod.fst, OnlyField latest c f docId) :
    Tracks rtree geometryBbox (m.rebuildFromDocuments rtree geometryBbox c f documents)
      (latest.after (.rebuild c f documents)) := by
  have hindices : (m.rebuildFromDocuments rtree geometryBbox c f documents).indices
      = m.indices.insert (pairKey c f)
        (rtree.bulkLoad (assignEntries geometryBbox c m documents).2) := by
    rw [← @indices_assignEntries _ _ _ geometryBbox m c documents]
    rfl
  have hget : ∀ doc, (m.rebuildFromDocuments rtree geometryBbox c f documents).docToEntry.get doc
      = (assignEntries geometryBbox c m documents).1.docToEntry.get doc := fun _ => rfl
  -- a document of another field keeps its entry
  have hkept : ∀ {c' f' d' g}, ¬ (c' = c ∧ f' = f) → latest c' f' d' = some g →
      (assignEntries geometryBbox c m documents).1.docToEntry.get (pairKey c' d')
        = m.docToEntry.get (pairKey c' d') := by
    intro c' f' d' g hkey hg
    apply get_docToEntry_assignEntries
    intro docId hdoc heq
    obtain ⟨rfl, rfl⟩ := pairKey_inj.mp heq
    have hnone := honly d' hdoc f' (fun hfield => hkey ⟨rfl, hfield⟩)
    rw [hnone] at hg
    cases hg
  refine ⟨⟨h.mapped.assignEntries.doc, h.mapped.assignEntries.lt⟩, ?_, ?_, ?_⟩
  · intro c' f'
    rw [entriesOf_of_indices_eq hindices]
    split
    · rw [((rtree.entries_bulkLoad _).map _).nodup_iff]
      exact assignEntries_ids_nodup
    · exact h.nodup c' f'
  · intro c' f' d' g hg
    simp only [Geometries.after] at hg
    rw [hget]
    split at hg
    · next hkey =>
      rw [hkey.1]
      apply isSome_docToEntry_assignEntries
      exact List.mem_map.mpr ⟨_, (lookup_reverse_eq_some_iff hnodup).mp hg, rfl⟩
    · next hkey =>
      rw [hkept hkey hg]
      exact h.live hg
  · intro c' f' e
    rw [entriesOf_of_indices_eq hindices]
    simp only [Geometries.after, hget]
    by_cases hkey : c' = c ∧ f' = f
    · obtain ⟨rfl, rfl⟩ := hkey
      simp only [and_self, if_true, (rtree.entries_bulkLoad _).mem_iff, mem_assignEntries hnodup,
        lookup_reverse_eq_some_iff hnodup]
    · simp only [if_neg hkey, h.mem]
      constructor
      · rintro ⟨d', g, hg, hd, hbox⟩
        exact ⟨d', g, hg, (hkept hkey hg).trans hd, hbox⟩
      · rintro ⟨d', g, hg, hd, hbox⟩
        exact ⟨d', g, hg, (hkept hkey hg).symm.trans hd, hbox⟩

end Rebuild

lemma Tracks.after {call : IndexCall Geometry} (h : Tracks rtree geometryBbox m latest)
    (hfits : FitsField latest call) :
    Tracks rtree geometryBbox (m.after rtree geometryBbox call) (latest.after call) := by
  cases call with
  | index c f d g => exact h.indexDocument hfits
  | remove c f d => exact h.removeDocument hfits
  | rebuild c f documents => exact h.rebuild hfits.1 hfits.2

end Proofs

section Runs

variable {Tree Box Geometry : Type} (rtree : RTree Tree Box) (geometryBbox : Geometry → Box)

/-- The index and the latest geometries after a run of calls. -/
def runCalls (calls : List (IndexCall Geometry)) :
    SpatialIndexManager Tree × Geometries Geometry :=
  calls.foldl (fun s call => (s.1.after rtree geometryBbox call, s.2.after call))
    (SpatialIndexManager.new, fun _ _ _ => none)

/-- Every call of the run fits the geometries it meets. -/
def EachFits : Geometries Geometry → List (IndexCall Geometry) → Prop
  | _, [] => True
  | latest, call :: calls => FitsField latest call ∧ EachFits (latest.after call) calls

/-- In a run of calls about documents with one spatial field each, every search is exact. -/
theorem search_exact_of_one_field (calls : List (IndexCall Geometry))
    (hfits : EachFits (fun _ _ _ => none) calls) :
    SearchExact rtree geometryBbox (runCalls rtree geometryBbox calls).1
      (runCalls rtree geometryBbox calls).2 := by
  have hrun : ∀ (calls : List (IndexCall Geometry)) (s : SpatialIndexManager Tree ×
      Geometries Geometry), EachFits s.2 calls → Tracks rtree geometryBbox s.1 s.2 →
      Tracks rtree geometryBbox
        (calls.foldl (fun s call => (s.1.after rtree geometryBbox call, s.2.after call)) s).1
        (calls.foldl (fun s call => (s.1.after rtree geometryBbox call, s.2.after call)) s).2 := by
    intro calls
    induction calls with
    | nil => exact fun s _ h => h
    | cons call calls ih =>
      intro s hfits h
      exact ih _ hfits.2 (h.after hfits.1)
  exact (hrun calls _ hfits tracks_new).searchExact

/-- A tree that is the list of its entries, over boxes that intersect only themselves. -/
def listTree : RTree (List (RTreeEntry Nat)) Nat where
  intersects box query := box == query
  new := []
  insert tree entry := entry :: tree
  delete tree id := tree.filter (fun e => e.id ≠ id)
  bulkLoad es := es
  search tree query := tree.filter (fun e => e.bbox == query)
  entries tree := tree
  entries_new := rfl
  entries_insert _ _ := .refl _
  entries_delete _ _ _ := .refl _
  entries_bulkLoad _ := .refl _
  search_perm _ _ := .refl _

/-- Two fields, each with documents of its own: inserted, replaced, removed and rebuilt. -/
def oneFieldCalls : List (IndexCall Nat) :=
  [.index "c" "f" "x" 1, .index "c" "f" "x" 2, .index "c" "g" "y" 3, .remove "c" "f" "x",
    .rebuild "c" "f" [("x", 4), ("z", 5)]]

theorem search_exact_two_fields :
    SearchExact listTree id (runCalls listTree id oneFieldCalls).1
      (runCalls listTree id oneFieldCalls).2 := by
  apply search_exact_of_one_field
  refine ⟨?_, ?_, ?_, ?_, ⟨by decide, ?_⟩, trivial⟩
  · exact fun _ _ => rfl
  · intro other hne
    simp [Geometries.after, hne]
  · intro other hne
    simp [Geometries.after]
  · intro other hne
    simp [Geometries.after, hne]
  · intro docId hdoc other hne
    have hy : docId ≠ "y" := by
      rintro rfl
      exact absurd hdoc (by decide)
    simp [Geometries.after, hne, hy]

/-- With a second field indexed, the document is lost from the search of the first. -/
theorem second_field_hides_first :
    ¬ SearchExact listTree id
      (runCalls listTree id [.index "c" "f" "x" 1, .index "c" "g" "x" 2]).1
      (runCalls listTree id [.index "c" "f" "x" 1, .index "c" "g" "x" 2]).2 := by
  intro h
  have hmem := ((h "c" "f" 1).2 "x").mpr ⟨1, by decide, by decide⟩
  revert hmem
  decide

end Runs

end NodedbLite.Spatial
