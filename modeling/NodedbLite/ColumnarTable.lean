import NodedbLite.ColumnarStore
import NodedbLite.KeyedTable

/-! A columnar collection against the table it stands for: the rows inserted and not since
deleted or replaced, and those that were. Every row the collection ever took stays where it
was placed; the mutation engine's bitmaps say which of them are gone. -/
namespace NodedbLite.Columnar

open KeyedTable

variable {Schema Row Pk : Type} [DecidableEq Pk] {M : MutationEngine Schema Row Pk}

/-- The segment bytes of one collection. -/
abbrev Files (Row : Type) := Nat → Option (List Row)

/-- The rows of a segment with their locations. -/
def placedSegment (files : Files Row) (m : SegmentMeta) : List (RowLocation × Row) :=
  if m.fullyDeletedAtMs.isSome then []
  else ((files m.segmentId).getD []).mapIdx (fun i r => (.segment m.segmentId i, r))

/-- Every row a scan of the collection meets, with its location. -/
def placed (files : Files Row) (s : CollectionState M) : List (RowLocation × Row) :=
  (M.memtable s.mutation).mapIdx (fun i r => (.memtable i, r)) ++
    s.segments.flatMap (placedSegment files)

/-- The rows the mutation engine has no delete recorded for. -/
def liveRows (eng : ColumnarEngine M) (collection : String) : List Row :=
  match eng.collections.get collection with
  | none => []
  | some s => rowsMarked (placed (eng.storage.loadSegmentBytes collection) s)
      (M.marked s.mutation) false

/-- The collection keeps the table `t`, over these segment files. -/
structure Keeps (files : Files Row) (s : CollectionState M) (t : KeyedTable Row) : Prop where
  represents : Represents (M.pkOf s.mutation) (placed files s) (M.marked s.mutation)
    (M.location s.mutation) t
  marked_placed : ∀ loc, M.marked s.mutation loc = true → loc ∈ (placed files s).map Prod.fst
  filed : ∀ m ∈ s.segments, m.fullyDeletedAtMs = none ∧
    ∃ rows, files m.segmentId = some rows ∧ m.rowCount = rows.length
  ids : ∀ m ∈ s.segments, m.segmentId < s.nextSegmentId

lemma snd_mapIdx {α : Type} (place : Nat → α) (rows : List Row) :
    (rows.mapIdx (fun i r => (place i, r))).map Prod.snd = rows := by
  apply List.ext_getElem <;> simp

lemma placedSegment_snd (files : Files Row) (m : SegmentMeta) :
    (placedSegment files m).map Prod.snd
      = if m.fullyDeletedAtMs.isSome then [] else (files m.segmentId).getD [] := by
  unfold placedSegment
  split
  · rfl
  · exact snd_mapIdx _ _

lemma placed_snd (storage : Storage Schema Row) (collection : String) (s : CollectionState M) :
    (placed (storage.loadSegmentBytes collection) s).map Prod.snd
      = M.memtable s.mutation
        ++ ColumnarEngine.segmentRows storage collection s.segments := by
  rw [placed, List.map_append, snd_mapIdx, List.map_flatMap]
  simp only [placedSegment_snd]
  rfl

lemma mem_mapIdx_fst {α : Type} {place : Nat → α} {rows : List Row} {loc : α}
    (h : loc ∈ (rows.mapIdx (fun i r => (place i, r))).map Prod.fst) :
    ∃ i, i < rows.length ∧ loc = place i := by
  obtain ⟨e, he, rfl⟩ := List.mem_map.mp h
  obtain ⟨i, hi, rfl⟩ := List.mem_mapIdx.mp he
  exact ⟨i, hi, rfl⟩

lemma mem_placed_memtable {files : Files Row} {s : CollectionState M} {i : Nat}
    (h : RowLocation.memtable i ∈ (placed files s).map Prod.fst) :
    i < (M.memtable s.mutation).length := by
  rw [placed, List.map_append, List.mem_append] at h
  rcases h with h | h
  · obtain ⟨j, hj, heq⟩ := mem_mapIdx_fst h
    obtain rfl := RowLocation.memtable.inj heq
    exact hj
  · rw [List.map_flatMap, List.mem_flatMap] at h
    obtain ⟨m, _, hm⟩ := h
    unfold placedSegment at hm
    split at hm
    · cases hm
    · obtain ⟨j, _, heq⟩ := mem_mapIdx_fst hm
      cases heq

lemma mem_placed_segment {files : Files Row} {s : CollectionState M} {id i : Nat}
    (h : RowLocation.segment id i ∈ (placed files s).map Prod.fst) :
    ∃ m ∈ s.segments, m.segmentId = id := by
  rw [placed, List.map_append, List.mem_append] at h
  rcases h with h | h
  · obtain ⟨j, _, heq⟩ := mem_mapIdx_fst h
    cases heq
  · rw [List.map_flatMap, List.mem_flatMap] at h
    obtain ⟨m, hm, hloc⟩ := h
    unfold placedSegment at hloc
    split at hloc
    · cases hloc
    · obtain ⟨j, _, heq⟩ := mem_mapIdx_fst hloc
      exact ⟨m, hm, (RowLocation.segment.inj heq).1.symm⟩

lemma keeps_new (files : Files Row) (schema : Schema) (profile : ColumnarProfile)
    (bitemporal : Bool) :
    Keeps (M := M) files ⟨M.new schema, profile, bitemporal, [], 1⟩ .empty := by
  have hplaced : placed (M := M) files ⟨M.new schema, profile, bitemporal, [], 1⟩ = [] := by
    simp [placed, M.new_memtable]
  refine ⟨⟨?_, ?_, ?_, ?_⟩, ?_, ?_, ?_⟩
  · simp [hplaced]
  · simp [hplaced, M.new_location]
  · simp [hplaced, KeyedTable.empty, rowsMarked]
  · simp [hplaced, KeyedTable.empty, rowsMarked]
  · simp [M.new_marked]
  · simp
  · simp

lemma placed_insert (files : Files Row) {s : CollectionState M} {mutation : M.State} {row : Row}
    (h : M.memtable mutation = M.memtable s.mutation ++ [row]) :
    (placed files s ++ [(RowLocation.memtable (M.memtable s.mutation).length, row)]).Perm
      (placed files { s with mutation }) := by
  simp only [placed, h, List.mapIdx_append, List.append_assoc]
  apply List.Perm.append_left
  simp

lemma Keeps.insert {files : Files Row} {s : CollectionState M} {t : KeyedTable Row}
    (h : Keeps files s t) {row : Row} {mutation : M.State}
    (hinsert : M.insert s.mutation row = .ok mutation) :
    Keeps files { s with mutation } (t.insert (M.pkOf s.mutation) row) := by
  obtain ⟨hpk, hmem, hmarked, hloc⟩ := M.insert_ok hinsert
  have hperm := placed_insert files hmem
  have hfresh : RowLocation.memtable (M.memtable s.mutation).length
      ∉ (placed files s).map Prod.fst := fun hin => absurd (mem_placed_memtable hin) (lt_irrefl _)
  have hunmarked : M.marked s.mutation (.memtable (M.memtable s.mutation).length) = false := by
    by_contra hmark
    exact hfresh (h.marked_placed _ (by simpa using hmark))
  have hrep := (h.represents.insert hfresh hunmarked hmarked hloc).of_perm hperm
  refine ⟨by simpa only [hpk] using hrep, ?_, h.filed, h.ids⟩
  intro loc hmark
  rw [hmarked, Bool.or_eq_true, decide_eq_true_eq] at hmark
  have hold : loc ∈ (placed files s).map Prod.fst := by
    rcases hmark with hmark | hprior
    · exact h.marked_placed loc hmark
    · obtain ⟨r, hr, _⟩ := (h.represents.index_iff _ _).mp hprior
      exact List.mem_map.mpr ⟨_, hr, rfl⟩
  rw [← (hperm.map Prod.fst).mem_iff, List.map_append]
  exact List.mem_append_left _ hold

lemma Keeps.delete {files : Files Row} {s : CollectionState M} {t : KeyedTable Row}
    (h : Keeps files s t) {pk : Pk} {mutation : M.State}
    (hdelete : M.delete s.mutation pk = .ok mutation) :
    Keeps files { s with mutation } (t.remove (M.pkOf s.mutation) pk) := by
  obtain ⟨hpk, hmem, loc, hprior, hmarked, hloc⟩ := M.delete_ok hdelete
  have hplaced : placed files { s with mutation } = placed files s := by simp only [placed, hmem]
  have hrep := h.represents.mark hprior hmarked hloc
  refine ⟨by simpa only [hplaced, hpk] using hrep, ?_, h.filed, h.ids⟩
  intro l hmark
  rw [hplaced]
  rw [hmarked, Bool.or_eq_true, decide_eq_true_eq] at hmark
  rcases hmark with hmark | rfl
  · exact h.marked_placed l hmark
  · obtain ⟨r, hr, _⟩ := (h.represents.index_iff _ _).mp hprior
    exact List.mem_map.mpr ⟨_, hr, rfl⟩

lemma Keeps.update {files : Files Row} {s : CollectionState M} {t : KeyedTable Row}
    (h : Keeps files s t) {pk : Pk} {row : Row} {mutation : M.State}
    (hupdate : M.update s.mutation pk row = .ok mutation) :
    Keeps files { s with mutation }
      ((t.remove (M.pkOf s.mutation) pk).insert (M.pkOf s.mutation) row) := by
  obtain ⟨mid, hdelete, hinsert⟩ := M.update_ok hupdate
  have hmid := h.delete hdelete
  have hpk : M.pkOf mid = M.pkOf s.mutation := (M.delete_ok hdelete).1
  have hlast := hmid.insert hinsert
  rwa [hpk] at hlast

/-- The segment files after a flush has written its segment. -/
def filesWith (files : Files Row) (segmentId : Nat) (rows : List Row) : Files Row :=
  fun id => if id = segmentId then some rows else files id

lemma filesWith_of_ne {files : Files Row} {segmentId id : Nat} {rows : List Row}
    (h : id ≠ segmentId) : filesWith files segmentId rows id = files id := if_neg h

lemma placedSegments_filesWith {files : Files Row} {s : CollectionState M}
    (hids : ∀ m ∈ s.segments, m.segmentId < s.nextSegmentId) (rows : List Row) :
    s.segments.flatMap (placedSegment (filesWith files s.nextSegmentId rows))
      = s.segments.flatMap (placedSegment files) := by
  apply List.flatMap_congr
  intro m hm
  unfold placedSegment
  rw [filesWith_of_ne (hids m hm).ne]

lemma relocate_placedSegment (files : Files Row) (m : SegmentMeta) (segmentId : Nat) :
    (placedSegment files m).map (fun e => (e.1.relocate segmentId, e.2))
      = placedSegment files m := by
  unfold placedSegment
  split
  · rfl
  · apply List.ext_getElem <;> simp [RowLocation.relocate]

lemma placed_drain (files : Files Row) {s : CollectionState M} (now : Int)
    (hids : ∀ m ∈ s.segments, m.segmentId < s.nextSegmentId) :
    ((placed files s).map (fun e => (e.1.relocate s.nextSegmentId, e.2))).Perm
      (placed (filesWith files s.nextSegmentId (M.memtable s.mutation)) (s.drain now).2) := by
  have hmoved : ((M.memtable s.mutation).mapIdx (fun i r => (RowLocation.memtable i, r))).map
        (fun e => (e.1.relocate s.nextSegmentId, e.2))
      = (M.memtable s.mutation).mapIdx (fun i r => (.segment s.nextSegmentId i, r)) := by
    apply List.ext_getElem <;> simp [RowLocation.relocate]
  have hempty : M.memtable (s.drain now).2.mutation = [] :=
    (M.flushed _ _).2.1.trans (M.drain _).2.1
  have hnew : placedSegment (filesWith files s.nextSegmentId (M.memtable s.mutation))
        ⟨s.nextSegmentId, (M.memtable s.mutation).length, if s.bitemporal then now else 0, none⟩
      = (M.memtable s.mutation).mapIdx (fun i r => (.segment s.nextSegmentId i, r)) := by
    simp [placedSegment, filesWith]
  rw [placed, List.map_append, hmoved, List.map_flatMap]
  simp only [relocate_placedSegment]
  rw [placed, hempty, CollectionState.drain, List.flatMap_append, placedSegments_filesWith hids,
    List.flatMap_singleton, hnew]
  exact List.perm_append_comm

lemma Keeps.unmarked_next {files : Files Row} {s : CollectionState M} {t : KeyedTable Row}
    (h : Keeps files s t) (i : Nat) :
    M.marked s.mutation (.segment s.nextSegmentId i) = false := by
  by_contra hmark
  obtain ⟨m, hm, hid⟩ := mem_placed_segment (h.marked_placed _ (by simpa using hmark))
  exact absurd hid (h.ids m hm).ne

lemma relocate_injOn {files : Files Row} {s : CollectionState M}
    (hids : ∀ m ∈ s.segments, m.segmentId < s.nextSegmentId) :
    ∀ a ∈ (placed files s).map Prod.fst, ∀ b ∈ (placed files s).map Prod.fst,
      a.relocate s.nextSegmentId = b.relocate s.nextSegmentId → a = b := by
  have hother : ∀ id i, RowLocation.segment id i ∈ (placed files s).map Prod.fst →
      id ≠ s.nextSegmentId := by
    intro id i hin
    obtain ⟨m, hm, rfl⟩ := mem_placed_segment hin
    exact (hids m hm).ne
  intro a ha b hb hab
  cases a <;> cases b <;> simp only [RowLocation.relocate, RowLocation.segment.injEq] at hab
  · rw [hab.2]
  · exact absurd hab.1.symm (hother _ _ hb)
  · exact absurd hab.1 (hother _ _ ha)
  · rw [hab.1, hab.2]

lemma Keeps.marked_drain {files : Files Row} {s : CollectionState M} {t : KeyedTable Row}
    (h : Keeps files s t) (now : Int) {loc : RowLocation}
    (hloc : loc ∈ (placed files s).map Prod.fst) :
    M.marked (s.drain now).2.mutation (loc.relocate s.nextSegmentId)
      = M.marked s.mutation loc := by
  have hsegment := (M.flushed (M.drainOptimized s.mutation) s.nextSegmentId).2.2.2.1
  have hdrained := (M.drain s.mutation).2.2.1
  cases loc with
  | memtable i =>
    refine (hsegment s.nextSegmentId i).trans ?_
    rw [hdrained, h.unmarked_next]
    simp
  | segment id i =>
    obtain ⟨m, hm, rfl⟩ := mem_placed_segment hloc
    refine (hsegment m.segmentId i).trans ?_
    rw [hdrained]
    simp [(h.ids m hm).ne]

/-- A flush whose segment is written keeps the table. -/
lemma Keeps.drain {files : Files Row} {s : CollectionState M} {t : KeyedTable Row}
    (h : Keeps files s t) (now : Int) :
    Keeps (filesWith files s.nextSegmentId (M.memtable s.mutation)) (s.drain now).2 t := by
  obtain ⟨hpk, hmem, hnone, hsegment, hindex⟩ :=
    M.flushed (M.drainOptimized s.mutation) s.nextSegmentId
  obtain ⟨hpk', hmem', hmarked', hindex'⟩ := M.drain s.mutation
  have hperm := placed_drain files now h.ids
  have hmoved := h.represents.relocate (relocate_injOn h.ids)
    (fun loc hloc => h.marked_drain now hloc)
    (fun pk => (hindex pk).trans (by rw [hindex']))
  have hsame : M.pkOf (s.drain now).2.mutation = M.pkOf s.mutation := hpk.trans hpk'
  refine ⟨?_, ?_, ?_, ?_⟩
  · rw [hsame]
    exact hmoved.of_perm hperm
  · intro loc hmark
    rw [← (hperm.map Prod.fst).mem_iff, List.map_map]
    have hcomp : (Prod.fst ∘ fun e : RowLocation × Row => (e.1.relocate s.nextSegmentId, e.2))
        = RowLocation.relocate s.nextSegmentId ∘ Prod.fst := rfl
    rw [hcomp, ← List.map_map, List.mem_map]
    cases loc with
    | memtable i => exact absurd ((hnone i).symm.trans hmark) Bool.false_ne_true
    | segment id i =>
      have hcases := (hsegment id i).symm.trans hmark
      rw [hmarked', Bool.or_eq_true, Bool.and_eq_true, decide_eq_true_eq] at hcases
      rcases hcases with hold | ⟨rfl, hold⟩
      · exact ⟨.segment id i, h.marked_placed _ hold, rfl⟩
      · exact ⟨.memtable i, h.marked_placed _ hold, rfl⟩
  · intro m hm
    rcases List.mem_append.mp hm with hm | hm
    · obtain ⟨hlive, rows, hfile, hcount⟩ := h.filed m hm
      exact ⟨hlive, rows, by rw [filesWith_of_ne (h.ids m hm).ne, hfile], hcount⟩
    · obtain rfl := List.mem_singleton.mp hm
      exact ⟨rfl, _, if_pos rfl, rfl⟩
  · intro m hm
    rcases List.mem_append.mp hm with hm | hm
    · exact Nat.lt_succ_of_lt (h.ids m hm)
    · obtain rfl := List.mem_singleton.mp hm
      exact Nat.lt_succ_self _

end NodedbLite.Columnar
