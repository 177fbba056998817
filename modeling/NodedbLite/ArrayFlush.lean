import NodedbLite.ArrayFrame
import NodedbLite.GuardedRun

/-! An array engine that flushes as the source does, next to one that keeps every version in
its memtable and never flushes. The two answer every read of an array without a retention
policy alike, as long as no coordinate is written twice at one system time. -/
namespace NodedbLite.Arrays

variable {Coord Attr : Type} [LinearOrder Coord]

/-- The memtable has no version of the coordinate in this tile version. -/
def ArrayMemtable.Unwritten (m : ArrayMemtable Coord Attr) (id : TileId) (coord : Coord) : Prop :=
  ∀ cell, (id, coord, cell) ∉ rows m.tiles.entries

lemma mem_rows_entries {m : SortedMap TileId (Tile Coord Attr)} {id : TileId} {coord : Coord}
    {cell : Cell Attr} :
    (id, coord, cell) ∈ rows m.entries
      ↔ ∃ tile, m.get id = some tile ∧ tile.get coord = some cell := by
  simp only [rows, List.mem_flatMap, List.mem_map, Prod.mk.injEq, SortedMap.get_eq_some_iff]
  constructor
  · rintro ⟨e, he, row, hrow, rfl, rfl, rfl⟩
    exact ⟨e.2, he, hrow⟩
  · rintro ⟨tile, htile, hcell⟩
    exact ⟨(id, tile), htile, (coord, cell), hcell, rfl, rfl, rfl⟩

lemma rows_setEntry_perm {m : ArrayMemtable Coord Attr} {id : TileId} {coord : Coord}
    (h : m.Unwritten id coord) (cell : Cell Attr) :
    (rows (m.setEntry id coord cell).tiles.entries).Perm
      ((id, coord, cell) :: rows m.tiles.entries) := by
  have habsent : ((m.tiles.get id).getD .empty).get coord = none := by
    cases hcell : ((m.tiles.get id).getD .empty).get coord with
    | none => rfl
    | some c =>
      cases htile : m.tiles.get id with
      | none =>
        rw [htile] at hcell
        cases hcell
      | some tile =>
        rw [htile] at hcell
        exact absurd (mem_rows_entries.mpr ⟨tile, htile, hcell⟩) (h c)
  have hnew := rows_perm (m.tiles.entries_insert_perm id
    (((m.tiles.get id).getD .empty).insert coord cell))
  have htile := (((m.tiles.get id).getD .empty).entries_insert_perm coord cell).map
    (fun row => (id, row.1, row.2))
  rw [SortedMap.erase_of_get_eq_none habsent] at htile
  refine hnew.trans ?_
  rw [rows_cons]
  refine (htile.append_right _).trans ?_
  refine List.Perm.cons _ ?_
  cases hget : m.tiles.get id with
  | none =>
    rw [SortedMap.erase_of_get_eq_none hget]
    rfl
  | some tile =>
    have hold := rows_perm (SortedMap.entries_perm_erase hget)
    rw [rows_cons] at hold
    exact hold.symm

lemma versionsOf_ids_sublist (coord : Coord) (tiles : Segment Coord Attr) :
    ((versionsOf coord (rows tiles)).map Prod.fst).Sublist (tiles.map Prod.fst) := by
  induction tiles with
  | nil => exact List.Sublist.slnil
  | cons e tiles ih =>
    rw [rows_cons, versionsOf_append, versionsOf_tile, List.map_append, List.map_cons]
    cases e.2.get coord with
    | none => exact ih.cons _
    | some cell => exact ih.cons_cons _

lemma distinctStamps_memtable {schema : ArraySchema Coord} {m : ArrayMemtable Coord Attr}
    (h : WellTiled schema (rows m.tiles.entries)) : DistinctStamps (rows m.tiles.entries) := by
  intro coord
  have hids : ((versionsOf coord (rows m.tiles.entries)).map Prod.fst).Nodup :=
    m.tiles.keys_nodup.sublist (versionsOf_ids_sublist coord m.tiles.entries)
  have hstamp : (versionsOf coord (rows m.tiles.entries)).map Version.stamp
      = ((versionsOf coord (rows m.tiles.entries)).map Prod.fst).map TileId.systemFromMs := by
    rw [List.map_map]
    rfl
  rw [hstamp]
  refine List.Nodup.map_on ?_ hids
  intro a ha b hb heq
  obtain ⟨v, hv, rfl⟩ := List.mem_map.mp ha
  obtain ⟨w, hw, rfl⟩ := List.mem_map.mp hb
  have hpv := h _ (mem_versionsOf.mp hv)
  have hpw := h _ (mem_versionsOf.mp hw)
  have hpfx : v.1.hilbertPrefix = w.1.hilbertPrefix := Except.ok.inj (hpv.symm.trans hpw)
  exact ofLex.injective (Prod.ext hpfx heq)

lemma loadSegments_congr {d d' : Storage Coord Attr} {name : String} {ids : List Nat}
    (h : ∀ id ∈ ids, d'.getSegment name id = d.getSegment name id) :
    loadSegments d' name ids = loadSegments d name ids := by
  unfold loadSegments
  induction ids with
  | nil => rfl
  | cons id ids ih =>
    have hrest := ih (fun jd hjd => h jd (List.mem_cons_of_mem _ hjd))
    have hone : d'.loadSegment name id = d.loadSegment name id := by
      unfold Storage.loadSegment
      rw [h id List.mem_cons_self]
    rw [List.mapM_cons, List.mapM_cons, hone, hrest]

lemma loadSegments_append {d : Storage Coord Attr} {name : String} {ids jds : List Nat}
    {segments segments' : List (Segment Coord Attr)}
    (h : loadSegments d name ids = .ok segments) (h' : loadSegments d name jds = .ok segments') :
    loadSegments d name (ids ++ jds) = .ok (segments ++ segments') := by
  unfold loadSegments at h h' ⊢
  rw [List.mapM_append, h, h']
  rfl

/-- The array as it stands next to its unflushed twin. -/
structure Follows (storage : Storage Coord Attr) (name : String)
    (st twin : ArrayState Coord Attr) : Prop where
  schema : st.schema = twin.schema
  retain : st.auditRetainMs = twin.auditRetainMs
  bound : st.bindings.bound = twin.bindings.bound
  unflushed : twin.manifest.segments = []
  kept : st.auditRetainMs = none → (∀ id ∈ st.manifest.segments, id < st.manifest.nextId) ∧
    WellTiled twin.schema (rows twin.memtable.tiles.entries) ∧
    ∃ segments, loadSegments storage name st.manifest.segments = .ok segments ∧
      (allRows st segments).Perm (rows twin.memtable.tiles.entries)

lemma isEmpty_iff {m : ArrayMemtable Coord Attr} : m.isEmpty = true ↔ rows m.tiles.entries = [] := by
  unfold ArrayMemtable.isEmpty rows
  rw [List.flatMap_eq_nil_iff, List.all_eq_true]
  constructor
  · intro h e he
    rw [List.isEmpty_iff.mp (h e he)]
    rfl
  · intro h e he
    exact List.isEmpty_iff.mpr (List.map_eq_nil_iff.mp (h e he))

/-- A flush of an array without a retention policy moves the memtable's rows to a new segment. -/
lemma flushMemtable_plain (env : ArrayEnv Coord Attr) (nowMs : Int) {db : ArrayDb Coord Attr}
    {name : String} {st : ArrayState Coord Attr} (hst : db.arrays.get name = some st)
    (hretain : st.auditRetainMs = none) :
    (st.memtable.isEmpty = true ∧ db.flushMemtable env nowMs none name = (.ok (), db)) ∨
    ∃ db', db.flushMemtable env nowMs none name = (.ok (), db') ∧
      db'.arrays.get name = some { st with
        memtable := .new
        manifest := ⟨st.manifest.segments ++ [st.manifest.nextId], st.manifest.nextId + 1⟩
        bindings := { st.bindings with dirty := [] } } ∧
      (∀ id, db'.storage.getSegment name id = if id = st.manifest.nextId
        then some st.memtable.tiles.entries else db.storage.getSegment name id) ∧
      db'.storage.loadManifest name
        = ⟨st.manifest.segments ++ [st.manifest.nextId], st.manifest.nextId + 1⟩ := by
  unfold ArrayDb.flushMemtable
  rw [hst]
  dsimp only
  split
  next hempty => exact .inl ⟨hempty, rfl⟩
  next hfull =>
    have htiles : st.memtable.drainAndMaterialise.1 ≠ [] := by
      intro hnil
      apply hfull
      rw [isEmpty_iff]
      have hentries : st.memtable.tiles.entries = [] := hnil
      rw [hentries, rows_nil]
    rw [if_neg htiles]
    simp only [CallBudget.spend, hretain]
    refine .inr ⟨_, rfl, ?_, ?_, ?_⟩
    · exact (SortedMap.get_insert ..).trans (if_pos rfl)
    · intro id
      refine (getSegment_writeSegment db.storage name name st.manifest.nextId id
        st.memtable.tiles.entries).trans ?_
      simp
    · unfold Storage.loadManifest Storage.saveManifest
      simp [SortedMap.get_insert, ArrayDb.withArray]

lemma Follows.flush {env : ArrayEnv Coord Attr} {nowMs : Int} {db : ArrayDb Coord Attr}
    {name : String} {st twin : ArrayState Coord Attr} (hst : db.arrays.get name = some st)
    (h : Follows db.storage name st twin) :
    ∃ st', (db.flushMemtable env nowMs none name).2.arrays.get name = some st' ∧
      Follows (db.flushMemtable env nowMs none name).2.storage name st' twin := by
  obtain ⟨st', hst', hschema, hretain, hbound⟩ :=
    (flushFrame_flushMemtable env nowMs none db name).same st hst
  refine ⟨st', hst', hschema.trans h.schema, hretain.trans h.retain, hbound.trans h.bound,
    h.unflushed, ?_⟩
  intro hnone
  rw [hretain] at hnone
  obtain ⟨hids, htiled, segments, hload, hperm⟩ := h.kept hnone
  rcases flushMemtable_plain env nowMs hst hnone with ⟨_, heq⟩ | ⟨db', heq, hget, hsegment, _⟩
  · rw [heq] at hst' ⊢
    rw [hst] at hst'
    obtain rfl := Option.some.inj hst'
    exact ⟨hids, htiled, segments, hload, hperm⟩
  · rw [heq] at hst' ⊢
    rw [hget] at hst'
    obtain rfl := Option.some.inj hst'
    refine ⟨?_, htiled, segments ++ [st.memtable.tiles.entries], ?_, ?_⟩
    · intro id hid
      rcases List.mem_append.mp hid with hid | hid
      · exact Nat.lt_succ_of_lt (hids id hid)
      · rw [List.mem_singleton.mp hid]
        exact Nat.lt_succ_self _
    · apply loadSegments_append
      · rw [← hload]
        apply loadSegments_congr
        intro id hid
        rw [hsegment, if_neg (hids id hid).ne]
      · unfold loadSegments
        rw [List.mapM_cons, Storage.loadSegment, hsegment, if_pos rfl]
        rfl
    · refine List.Perm.trans ?_ hperm
      rw [allRows, allRows, List.flatten_append, rows_append]
      have hnew : rows (ArrayMemtable.new : ArrayMemtable Coord Attr).tiles.entries = [] := rfl
      simp only [hnew, List.flatten_cons, List.flatten_nil, List.append_nil, List.nil_append]
      exact List.perm_append_comm

lemma Follows.tileId_eq {storage : Storage Coord Attr} {name : String}
    {st twin : ArrayState Coord Attr} (h : Follows storage name st twin) (coord : Coord)
    (t : Int) : tileIdForCell twin.schema coord t = tileIdForCell st.schema coord t := by
  rw [h.schema]

lemma Follows.write {storage : Storage Coord Attr} {name : String}
    {st twin : ArrayState Coord Attr} (h : Follows storage name st twin) {coord : Coord}
    {id : TileId} (hid : st.schema.tilePrefix coord = .ok id.hilbertPrefix)
    (hfresh : st.auditRetainMs = none → twin.memtable.Unwritten id coord) (cell : Cell Attr)
    {bindings bindings' : CellBindings Coord} (hbound : bindings.bound = bindings'.bound) :
    Follows storage name { st with memtable := st.memtable.setEntry id coord cell, bindings }
      { twin with memtable := twin.memtable.setEntry id coord cell, bindings := bindings' } := by
  refine ⟨h.schema, h.retain, hbound, h.unflushed, ?_⟩
  intro hnone
  obtain ⟨hids, htiled, segments, hload, hperm⟩ := h.kept hnone
  have hunwritten := hfresh hnone
  have hunwritten' : st.memtable.Unwritten id coord := by
    intro c hc
    exact hunwritten c (hperm.mem_iff.mp (List.mem_append_left _ hc))
  have htwin := rows_setEntry_perm hunwritten cell
  refine ⟨hids, ?_, segments, hload, ?_⟩
  · intro r hr
    rcases List.mem_cons.mp (htwin.mem_iff.mp hr) with rfl | hr
    · exact h.schema ▸ hid
    · exact htiled r hr
  · refine List.Perm.trans ?_ ((List.Perm.cons _ hperm).trans htwin.symm)
    exact (rows_setEntry_perm hunwritten' cell).append_right _

lemma Follows.bindings {storage : Storage Coord Attr} {name : String}
    {st twin : ArrayState Coord Attr} (h : Follows storage name st twin)
    {bindings bindings' : CellBindings Coord} (hbound : bindings.bound = bindings'.bound) :
    Follows storage name { st with bindings } { twin with bindings := bindings' } :=
  ⟨h.schema, h.retain, hbound, h.unflushed, h.kept⟩

/-- The engine and its twin. -/
structure FlushSys (Coord Attr : Type) [LinearOrder Coord] where
  db : ArrayDb Coord Attr
  plain : ArrayDb Coord Attr

structure Agree (db plain : ArrayDb Coord Attr) : Prop where
  next : db.nextSurrogate = plain.nextSurrogate
  missing : ∀ name, db.arrays.get name = none ↔ plain.arrays.get name = none
  follows : ∀ name st twin, db.arrays.get name = some st → plain.arrays.get name = some twin →
    Follows db.storage name st twin

lemma Follows.of_same {name other : String} (hne : other ≠ name) {d d' : Storage Coord Attr}
    (hsame : SameElsewhere name d d') {st twin : ArrayState Coord Attr}
    (h : Follows d other st twin) : Follows d' other st twin := by
  refine ⟨h.schema, h.retain, h.bound, h.unflushed, ?_⟩
  intro hnone
  obtain ⟨hids, htiled, segments, hload, hperm⟩ := h.kept hnone
  refine ⟨hids, htiled, segments, ?_, hperm⟩
  rw [← hload]
  exact loadSegments_congr fun id _ => hsame.getSegment other id hne

lemma Agree.update {db plain db' plain' : ArrayDb Coord Attr} (h : Agree db plain) {name : String}
    {st twin : ArrayState Coord Attr} (hst : db'.arrays.get name = some st)
    (htwin : plain'.arrays.get name = some twin)
    (hothers : ∀ other, other ≠ name → db'.arrays.get other = db.arrays.get other ∧
      plain'.arrays.get other = plain.arrays.get other)
    (hsame : SameElsewhere name db.storage db'.storage)
    (hnext : db'.nextSurrogate = plain'.nextSurrogate)
    (hfollows : Follows db'.storage name st twin) : Agree db' plain' := by
  refine ⟨hnext, ?_, ?_⟩
  · intro other
    by_cases hne : other = name
    · rw [hne, hst, htwin]
      simp
    · rw [(hothers other hne).1, (hothers other hne).2]
      exact h.missing other
  · intro other st' twin' hst' htwin'
    by_cases hne : other = name
    · rw [hne] at hst' htwin' ⊢
      rw [hst] at hst'
      rw [htwin] at htwin'
      obtain rfl := Option.some.inj hst'
      obtain rfl := Option.some.inj htwin'
      exact hfollows
    · rw [(hothers other hne).1] at hst'
      rw [(hothers other hne).2] at htwin'
      exact (h.follows other st' twin' hst' htwin').of_same hne hsame

lemma Agree.exists_twin {db plain : ArrayDb Coord Attr} (h : Agree db plain) {name : String}
    {st : ArrayState Coord Attr} (hst : db.arrays.get name = some st) :
    ∃ twin, plain.arrays.get name = some twin := by
  rw [← Option.isSome_iff_exists, Option.isSome_iff_ne_none, ne_eq, ← h.missing, hst]
  simp

lemma Agree.flush {db plain : ArrayDb Coord Attr} (h : Agree db plain)
    (env : ArrayEnv Coord Attr) (nowMs : Int) (name : String) :
    Agree (db.flushMemtable env nowMs none name).2 plain := by
  have hframe := flushFrame_flushMemtable env nowMs none db name
  cases hst : db.arrays.get name with
  | none =>
    refine ⟨hframe.nextSurrogate.trans h.next, ?_, ?_⟩
    · intro other
      by_cases hne : other = name
      · rw [hne, hframe.missing hst, ← h.missing, hst]
      · rw [hframe.others other hne]
        exact h.missing other
    · intro other st' twin' hst' htwin'
      by_cases hne : other = name
      · rw [hne, hframe.missing hst] at hst'
        cases hst'
      · rw [hframe.others other hne] at hst'
        exact (h.follows other st' twin' hst' htwin').of_same hne hframe.elsewhere
  | some st =>
    obtain ⟨twin, htwin⟩ := h.exists_twin hst
    obtain ⟨st', hst', hfollows⟩ := (h.follows name st twin hst htwin).flush hst
    exact h.update hst' htwin (fun other hne => ⟨hframe.others other hne, rfl⟩)
      hframe.elsewhere (hframe.nextSurrogate.trans h.next) hfollows

lemma bind_agree {b b' : CellBindings Coord} (h : b.bound = b'.bound) (name : String)
    (coord : Coord) (next : Nat) :
    (∃ e, b.bind name coord next = .error e ∧ b'.bind name coord next = .error e) ∨
    ∃ surrogate b₁ b₁' next', b.bind name coord next = .ok (surrogate, b₁, next') ∧
      b'.bind name coord next = .ok (surrogate, b₁', next') ∧ b₁.bound = b₁'.bound := by
  unfold CellBindings.bind
  rw [← h]
  cases b.bound.get coord with
  | some existing => exact .inr ⟨existing, b, b', next, rfl, rfl, h⟩
  | none =>
    dsimp only
    split
    next => exact .inr ⟨_, _, _, _, rfl, rfl, rfl⟩
    next => exact .inl ⟨_, rfl, rfl⟩

/-- The memtable of the twin has a version of the coordinate at this time. -/
def ArrayState.written (twin : ArrayState Coord Attr) (coord : Coord) (systemFromMs : Int) :
    Bool :=
  match tileIdForCell twin.schema coord systemFromMs with
  | .ok id => ((twin.memtable.tiles.get id).bind (·.get coord)).isSome
  | .error _ => false

lemma unwritten_of_written_eq_false {twin : ArrayState Coord Attr} {coord : Coord} {t : Int}
    (h : twin.written coord t = false) {id : TileId}
    (hid : tileIdForCell twin.schema coord t = .ok id) : twin.memtable.Unwritten id coord := by
  intro cell hcell
  obtain ⟨tile, htile, hget⟩ := mem_rows_entries.mp hcell
  unfold ArrayState.written at h
  rw [hid] at h
  dsimp only at h
  rw [htile, Option.bind_some, hget] at h
  cases h

lemma Agree.putInMemory {db plain : ArrayDb Coord Attr} (h : Agree db plain) {name : String}
    {st twin : ArrayState Coord Attr} (hst : db.arrays.get name = some st)
    (htwin : plain.arrays.get name = some twin) (w : CellWrite Coord Attr)
    (hfresh : twin.auditRetainMs = none → twin.written w.coord w.systemFromMs = false) :
    Agree (db.putInMemory name st w).2 (plain.putInMemory name twin w).2 := by
  have hfollows := h.follows name st twin hst htwin
  have hfresh' : (st.bindings.bound.get w.coord).isNone
      = (twin.bindings.bound.get w.coord).isNone := by rw [hfollows.bound]
  unfold ArrayDb.putInMemory
  rw [← h.next]
  rcases bind_agree hfollows.bound name w.coord db.nextSurrogate with
    ⟨e, he, he'⟩ | ⟨surrogate, b, b', next, hb, hb', hbound⟩
  · rw [he, he']
    exact h
  · rw [hb, hb']
    dsimp only [ArrayMemtable.putCell, ArrayMemtable.write]
    rw [hfollows.tileId_eq]
    -- Both memtables refuse the coordinate or both take the version.
    cases hid : tileIdForCell st.schema w.coord w.systemFromMs with
    | ok id =>
      dsimp only
      have hwritten := hfollows.write (tileIdForCell_eq_ok.mp hid).1
        (fun hnone => unwritten_of_written_eq_false (hfresh (hfollows.retain ▸ hnone))
          (hfollows.schema ▸ hid))
        (.live ⟨w.validFromMs, w.validUntilMs, w.attrs, surrogate⟩) hbound
      apply h.update
      · exact (SortedMap.get_insert ..).trans (if_pos rfl)
      · exact (SortedMap.get_insert ..).trans (if_pos rfl)
      · intro other hne
        exact ⟨(SortedMap.get_insert ..).trans (if_neg hne),
          (SortedMap.get_insert ..).trans (if_neg hne)⟩
      · exact .refl ..
      · rfl
      · exact hwritten
    | error e =>
      dsimp only
      rw [← hfresh']
      split
      all_goals
        apply h.update
        · exact (SortedMap.get_insert ..).trans (if_pos rfl)
        · exact (SortedMap.get_insert ..).trans (if_pos rfl)
        · intro other hne
          exact ⟨(SortedMap.get_insert ..).trans (if_neg hne),
            (SortedMap.get_insert ..).trans (if_neg hne)⟩
        · exact .refl ..
        · rfl
        · apply hfollows.bindings
          simp [CellBindings.rollbackNew, hbound]

lemma Agree.markInMemory {db plain : ArrayDb Coord Attr} (h : Agree db plain) (name : String)
    (coord : Coord) (t : Int) (cell : Cell Attr)
    (hfresh : ∀ twin, plain.arrays.get name = some twin → twin.auditRetainMs = none →
      twin.written coord t = false) :
    Agree (db.markInMemory name coord t cell).2 (plain.markInMemory name coord t cell).2 := by
  unfold ArrayDb.markInMemory
  cases hst : db.arrays.get name with
  | none =>
    rw [(h.missing name).mp hst]
    exact h
  | some st =>
    obtain ⟨twin, htwin⟩ := h.exists_twin hst
    have hfollows := h.follows name st twin hst htwin
    rw [htwin]
    dsimp only [ArrayMemtable.write]
    rw [hfollows.tileId_eq]
    cases hid : tileIdForCell st.schema coord t with
    | error e => exact h
    | ok id =>
      dsimp only
      have hwritten := hfollows.write (tileIdForCell_eq_ok.mp hid).1
        (fun hnone => unwritten_of_written_eq_false (hfresh twin htwin (hfollows.retain ▸ hnone))
          (hfollows.schema ▸ hid)) cell hfollows.bound
      apply h.update
      · exact (SortedMap.get_insert ..).trans (if_pos rfl)
      · exact (SortedMap.get_insert ..).trans (if_pos rfl)
      · intro other hne
        exact ⟨(SortedMap.get_insert ..).trans (if_neg hne),
          (SortedMap.get_insert ..).trans (if_neg hne)⟩
      · exact .refl ..
      · exact h.next
      · exact hwritten

inductive ArrayLabel (Coord Attr : Type)
  | create (name : String) (schema : ArraySchema Coord) (auditRetainMs : Option Int)
  | put (name : String) (nowMs : Int) (w : CellWrite Coord Attr)
  | delete (name : String) (coord : Coord) (systemFromMs : Int)
  | erase (name : String) (nowMs : Int) (coord : Coord) (systemFromMs : Int)
  | flush (name : String) (nowMs : Int)

/-- A call on an engine that never flushes. -/
def ArrayDb.unflushed (db : ArrayDb Coord Attr) : ArrayLabel Coord Attr → ArrayDb Coord Attr
  | .create name schema auditRetainMs =>
    match db.createArray name schema auditRetainMs with
    | .ok db => db
    | .error _ => db
  | .put name _ w =>
    match db.arrays.get name with
    | some st => (db.putInMemory name st w).2
    | none => db
  | .delete name coord t => (db.markInMemory name coord t .tombstone).2
  | .erase name _ coord t => (db.markInMemory name coord t .gdprErased).2
  | .flush _ _ => db

/-- A call on the engine. -/
def ArrayDb.call (env : ArrayEnv Coord Attr) (db : ArrayDb Coord Attr) :
    ArrayLabel Coord Attr → ArrayDb Coord Attr
  | .create name schema auditRetainMs =>
    match db.createArray name schema auditRetainMs with
    | .ok db => db
    | .error _ => db
  | .put name nowMs w => (db.putCell env nowMs name w).2
  | .delete name coord t => (db.deleteCell name coord t).2
  | .erase name nowMs coord t => (db.gdprEraseCell env nowMs name coord t).2
  | .flush name nowMs => (db.flushMemtable env nowMs none name).2

def flushStep (env : ArrayEnv Coord Attr) (sys : FlushSys Coord Attr)
    (label : ArrayLabel Coord Attr) : Option (FlushSys Coord Attr) :=
  some ⟨sys.db.call env label, sys.plain.unflushed label⟩

/-- An engine just started on an empty storage. -/
def ArrayDb.init (flushThreshold : Nat) : ArrayDb Coord Attr :=
  ⟨.empty, flushThreshold, firstSurrogate, .empty⟩

def FlushSys.init (flushThreshold : Nat) : FlushSys Coord Attr :=
  ⟨.init flushThreshold, .init flushThreshold⟩

/-- The coordinate has no version at this time yet; asked of arrays without a policy only. -/
def FlushSys.unwritten (sys : FlushSys Coord Attr) (name : String) (coord : Coord) (t : Int) :
    Bool :=
  match sys.plain.arrays.get name with
  | some twin => twin.auditRetainMs.isSome || !twin.written coord t
  | none => true

/-- The call does not write a coordinate at a system time it was written at before. -/
def Unrepeated (sys : FlushSys Coord Attr) : ArrayLabel Coord Attr → Prop
  | .put name _ w => sys.unwritten name w.coord w.systemFromMs = true
  | .delete name coord t => sys.unwritten name coord t = true
  | .erase name _ coord t => sys.unwritten name coord t = true
  | .create _ _ _ | .flush _ _ => True

instance (sys : FlushSys Coord Attr) (label : ArrayLabel Coord Attr) :
    Decidable (Unrepeated sys label) := by
  cases label <;> unfold Unrepeated <;> infer_instance

lemma FlushSys.written_eq_false {sys : FlushSys Coord Attr} {name : String} {coord : Coord}
    {t : Int} (h : sys.unwritten name coord t = true) {twin : ArrayState Coord Attr}
    (htwin : sys.plain.arrays.get name = some twin) (hretain : twin.auditRetainMs = none) :
    twin.written coord t = false := by
  unfold FlushSys.unwritten at h
  rw [htwin] at h
  simpa [hretain] using h

lemma agree_init (flushThreshold : Nat) :
    Agree (ArrayDb.init flushThreshold : ArrayDb Coord Attr) (.init flushThreshold) := by
  refine ⟨rfl, fun _ => Iff.rfl, ?_⟩
  intro name st twin hst
  cases hst

lemma Agree.create {db plain : ArrayDb Coord Attr} (h : Agree db plain) (name : String)
    (schema : ArraySchema Coord) (auditRetainMs : Option Int) (env : ArrayEnv Coord Attr) :
    Agree (db.call env (.create name schema auditRetainMs))
      (plain.unflushed (.create name schema auditRetainMs)) := by
  dsimp only [ArrayDb.call, ArrayDb.unflushed, ArrayDb.createArray]
  have hsome : (plain.arrays.get name).isSome = (db.arrays.get name).isSome := by
    rw [Bool.eq_iff_iff, Option.isSome_iff_ne_none, Option.isSome_iff_ne_none, ne_eq, ne_eq,
      h.missing]
  rw [hsome]
  by_cases hexists : (db.arrays.get name).isSome = true
  · rw [if_pos hexists, if_pos hexists]
    exact h
  · rw [if_neg hexists, if_neg hexists]
    by_cases hnul : '\x00' ∈ name.toList
    · rw [if_pos hnul, if_pos hnul]
      exact h
    · rw [if_neg hnul, if_neg hnul]
      dsimp only
      apply h.update
      · exact (SortedMap.get_insert ..).trans (if_pos rfl)
      · exact (SortedMap.get_insert ..).trans (if_pos rfl)
      · intro other hne
        exact ⟨(SortedMap.get_insert ..).trans (if_neg hne),
          (SortedMap.get_insert ..).trans (if_neg hne)⟩
      · exact ⟨fun _ _ _ => rfl⟩
      · exact h.next
      · refine ⟨rfl, rfl, rfl, rfl, ?_⟩
        intro _
        exact ⟨by simp [ArrayManifest.new], fun r hr => absurd hr List.not_mem_nil, [], rfl, .refl _⟩

/-- Every call keeps the engine and its twin in step. -/
lemma agree_flushStep {env : ArrayEnv Coord Attr} {sys sys' : FlushSys Coord Attr}
    {label : ArrayLabel Coord Attr} (h : Agree sys.db sys.plain) (hgood : Unrepeated sys label)
    (hstep : flushStep env sys label = some sys') : Agree sys'.db sys'.plain := by
  obtain rfl := Option.some.inj hstep
  cases label with
  | create name schema auditRetainMs => exact h.create name schema auditRetainMs env
  | flush name nowMs => exact h.flush env nowMs name
  | delete name coord t =>
    exact h.markInMemory name coord t .tombstone
      (fun twin htwin hretain => FlushSys.written_eq_false hgood htwin hretain)
  | erase name nowMs coord t =>
    have hmark := h.markInMemory name coord t .gdprErased
      (fun twin htwin hretain => FlushSys.written_eq_false hgood htwin hretain)
    dsimp only [ArrayDb.call, ArrayDb.unflushed, ArrayDb.gdprEraseCell]
    split
    next e db heq =>
      rw [heq] at hmark
      exact hmark
    next db heq =>
      rw [heq] at hmark
      exact hmark.flush env nowMs name
  | put name nowMs w =>
    dsimp only [ArrayDb.call, ArrayDb.unflushed, ArrayDb.putCell]
    cases hst : sys.db.arrays.get name with
    | none =>
      rw [(h.missing name).mp hst]
      exact h
    | some st =>
      obtain ⟨twin, htwin⟩ := h.exists_twin hst
      rw [htwin]
      have hput := h.putInMemory hst htwin w
        (fun hretain => FlushSys.written_eq_false hgood htwin hretain)
      dsimp only
      split
      next e db heq =>
        rw [heq] at hput
        exact hput
      next db heq =>
        rw [heq] at hput
        split
        next =>
          split
          next => exact hput.flush env nowMs name
          next => exact hput
        next => exact hput

lemma agree_of_reaches {env : ArrayEnv Coord Attr} {flushThreshold : Nat}
    {sys : FlushSys Coord Attr}
    (h : GuardedRun.Reaches (flushStep env) Unrepeated (.init flushThreshold) sys) :
    Agree sys.db sys.plain := by
  induction h with
  | refl => exact agree_init flushThreshold
  | step _ hgood hnext ih => exact agree_flushStep ih hgood hnext

/-- A grid of tiles of four cells. -/
def quadSchema : ArraySchema Nat := ⟨fun coord => .ok (coord / 4)⟩

/-- A stable sort, and a retention that keeps nothing. -/
def plainEnv : ArrayEnv Nat Nat := ⟨.stable Version.stamp, fun _ _ => .ok (none, [])⟩

/-- Two versions of a cell with a flush between them, and an erased neighbour. -/
def splitCalls : List (ArrayLabel Nat Nat) :=
  [.create "a" quadSchema none, .put "a" 0 ⟨1, [7], 10, 0, 100⟩, .flush "a" 0,
    .put "a" 0 ⟨1, [8], 20, 0, 100⟩, .put "a" 0 ⟨2, [9], 20, 0, 100⟩, .erase "a" 0 2 30]

end NodedbLite.Arrays
