import NodedbLite.ArrayStore
import NodedbLite.Buckets
import NodedbLite.ExceptFold

/-! The cell versions of an array as one list of rows, and the two read paths as functions of
that list. What the reads gather is a permutation of the rows that name the coordinate, so
wherever a version is kept (which tile, which segment, the memtable), it takes part in the
read of its coordinate. -/
namespace NodedbLite.Arrays

variable {Coord Attr : Type} [LinearOrder Coord]

/-- A row: the tile version, the coordinate and the cell. -/
abbrev Row (Coord Attr : Type) := TileId × Coord × Cell Attr

/-- The rows of some tiles. -/
def rows (tiles : Segment Coord Attr) : List (Row Coord Attr) :=
  tiles.flatMap (fun e => e.2.entries.map (fun row => (e.1, row.1, row.2)))

/-- The versions of a coordinate among some rows. -/
def versionsOf (coord : Coord) (rs : List (Row Coord Attr)) : List (Version Attr) :=
  rs.filterMap (fun r => if r.2.1 = coord then some (r.1, r.2.2) else none)

@[simp] lemma rows_nil : rows ([] : Segment Coord Attr) = [] := rfl

lemma rows_cons (e : TileId × Tile Coord Attr) (tiles : Segment Coord Attr) :
    rows (e :: tiles) = e.2.entries.map (fun row => (e.1, row.1, row.2)) ++ rows tiles := by
  simp [rows]

lemma rows_append (a b : Segment Coord Attr) : rows (a ++ b) = rows a ++ rows b := by
  simp [rows]

lemma rows_perm {a b : Segment Coord Attr} (h : a.Perm b) : (rows a).Perm (rows b) :=
  h.flatMap_right _

lemma versionsOf_append (coord : Coord) (a b : List (Row Coord Attr)) :
    versionsOf coord (a ++ b) = versionsOf coord a ++ versionsOf coord b := by
  simp [versionsOf]

lemma versionsOf_perm {coord : Coord} {a b : List (Row Coord Attr)} (h : a.Perm b) :
    (versionsOf coord a).Perm (versionsOf coord b) :=
  h.filterMap _

lemma mem_versionsOf {coord : Coord} {rs : List (Row Coord Attr)} {v : Version Attr} :
    v ∈ versionsOf coord rs ↔ (v.1, coord, v.2) ∈ rs := by
  rw [versionsOf, List.mem_filterMap]
  constructor
  · rintro ⟨r, hr, hv⟩
    split at hv
    next heq =>
      rw [← Option.some.inj hv, ← heq]
      exact hr
    next => cases hv
  · intro h
    exact ⟨_, h, if_pos rfl⟩

lemma versionsOf_tile (coord : Coord) (id : TileId) (tile : Tile Coord Attr) :
    versionsOf coord (tile.entries.map (fun row => (id, row.1, row.2)))
      = ((tile.get coord).map (fun cell => (id, cell))).toList := by
  obtain ⟨entries, hsorted⟩ := tile
  induction entries with
  | nil => rfl
  | cons e es ih =>
    obtain ⟨he, hes⟩ := List.pairwise_cons.mp hsorted
    have hrest := ih hes
    simp only [SortedMap.get] at hrest ⊢
    rw [List.map_cons, versionsOf, List.filterMap_cons, SortedMap.lookup_cons_eq_ite]
    by_cases heq : e.1 = coord
    · have hnone : es.lookup coord = none := by
        have habsent := SortedMap.get_eq_none_iff (m := ⟨es, hes⟩) (k := coord)
        refine habsent.mpr ?_
        intro v hv
        exact absurd (he (coord, v) hv) (by simp [heq])
      rw [hnone] at hrest
      simp only [heq, if_pos]
      rw [show List.filterMap (fun r : Row Coord Attr =>
        if r.2.1 = coord then some (r.1, r.2.2) else none) _ = [] from hrest]
      rfl
    · rw [if_neg heq, if_neg (Ne.symm heq)]
      exact hrest

lemma versionsOf_rows (coord : Coord) (tiles : Segment Coord Attr) :
    versionsOf coord (rows tiles)
      = tiles.filterMap (fun e => (e.2.get coord).map (fun cell => (e.1, cell))) := by
  induction tiles with
  | nil => rfl
  | cons e tiles ih =>
    rw [rows_cons, versionsOf_append, versionsOf_tile, ih, List.filterMap_cons]
    cases e.2.get coord <;> rfl

/-- The rows at or before a time. -/
def rowsAsOf (systemAsOf : Int) (rs : List (Row Coord Attr)) : List (Row Coord Attr) :=
  rs.filter (fun r => r.1.systemFromMs ≤ systemAsOf)

lemma rows_filter (p : TileId → Bool) (tiles : Segment Coord Attr) :
    rows (tiles.filter (fun e => p e.1)) = (rows tiles).filter (fun r => p r.1) := by
  induction tiles with
  | nil => rfl
  | cons e tiles ih =>
    rw [rows_cons, List.filter_append, ← ih, List.filter_cons]
    cases hp : p e.1 with
    | true =>
      rw [if_pos rfl, rows_cons]
      congr 1
      symm
      apply List.filter_eq_self.mpr
      intro r hr
      obtain ⟨row, _, rfl⟩ := List.mem_map.mp hr
      exact hp
    | false =>
      rw [if_neg (by simp)]
      symm
      have hnone : ∀ r ∈ e.2.entries.map (fun row => (e.1, row.1, row.2)), ¬ p r.1 = true := by
        intro r hr
        obtain ⟨row, _, rfl⟩ := List.mem_map.mp hr
        simp [hp]
      rw [List.filter_eq_nil_iff.mpr hnone, List.nil_append]

/-- Every row is in a tile of its coordinate. -/
def WellTiled (schema : ArraySchema Coord) (rs : List (Row Coord Attr)) : Prop :=
  ∀ r ∈ rs, schema.tilePrefix r.2.1 = .ok r.1.hilbertPrefix

omit [LinearOrder Coord] in
lemma WellTiled.of_perm {schema : ArraySchema Coord} {a b : List (Row Coord Attr)}
    (h : WellTiled schema a) (hperm : a.Perm b) : WellTiled schema b :=
  fun r hr => h r (hperm.mem_iff.mpr hr)

omit [LinearOrder Coord] in
lemma tileIdForCell_eq_ok {schema : ArraySchema Coord} {coord : Coord} {t : Int} {id : TileId} :
    tileIdForCell schema coord t = .ok id
      ↔ schema.tilePrefix coord = .ok id.hilbertPrefix ∧ id.systemFromMs = t := by
  unfold tileIdForCell
  cases schema.tilePrefix coord with
  | error e => simp
  | ok p =>
    simp only [Except.ok.injEq]
    constructor
    · rintro rfl
      exact ⟨rfl, rfl⟩
    · rintro ⟨rfl, rfl⟩
      rfl

lemma versionsOf_prefix {schema : ArraySchema Coord} {coord : Coord} {hilbertPrefix : Nat}
    (hcoord : schema.tilePrefix coord = .ok hilbertPrefix) (systemAsOf : Int)
    {tiles : Segment Coord Attr} (h : WellTiled schema (rows tiles)) :
    versionsOf coord (rows (tiles.filter (fun e =>
      e.1.hilbertPrefix = hilbertPrefix ∧ e.1.systemFromMs ≤ systemAsOf)))
      = versionsOf coord (rowsAsOf systemAsOf (rows tiles)) := by
  rw [rows_filter (fun id =>
    decide (id.hilbertPrefix = hilbertPrefix ∧ id.systemFromMs ≤ systemAsOf)),
    versionsOf, versionsOf, rowsAsOf, List.filterMap_filter, List.filterMap_filter]
  apply List.filterMap_congr
  intro r hr
  by_cases heq : r.2.1 = coord
  · have hpfx := h r hr
    rw [heq, hcoord] at hpfx
    simp [Except.ok.inj hpfx]
  · simp [heq]

lemma gather_perm {schema : ArraySchema Coord} {coord : Coord} {hilbertPrefix : Nat}
    (hcoord : schema.tilePrefix coord = .ok hilbertPrefix) (systemAsOf : Int)
    {tiles : Segment Coord Attr} (h : WellTiled schema (rows tiles)) :
    (segmentCellVersions hilbertPrefix systemAsOf coord tiles).Perm
      (versionsOf coord (rowsAsOf systemAsOf (rows tiles))) := by
  rw [← versionsOf_prefix hcoord systemAsOf h, versionsOf_rows]
  exact (List.reverse_perm _).filterMap _

/-- All rows of an array: those of the memtable and those of its segments. -/
def allRows (st : ArrayState Coord Attr) (segments : List (Segment Coord Attr)) :
    List (Row Coord Attr) :=
  rows st.memtable.tiles.entries ++ rows segments.flatten

omit [LinearOrder Coord] in
lemma rowsAsOf_append (t : Int) (a b : List (Row Coord Attr)) :
    rowsAsOf t (a ++ b) = rowsAsOf t a ++ rowsAsOf t b := by
  simp [rowsAsOf]

omit [LinearOrder Coord] in
lemma rowsAsOf_perm {t : Int} {a b : List (Row Coord Attr)} (h : a.Perm b) :
    (rowsAsOf t a).Perm (rowsAsOf t b) := h.filter _

lemma gather_segments_perm {schema : ArraySchema Coord} {coord : Coord} {hilbertPrefix : Nat}
    (hcoord : schema.tilePrefix coord = .ok hilbertPrefix) (systemAsOf : Int)
    {segments : List (Segment Coord Attr)} (h : WellTiled schema (rows segments.flatten)) :
    (segments.flatMap (segmentCellVersions hilbertPrefix systemAsOf coord)).Perm
      (versionsOf coord (rowsAsOf systemAsOf (rows segments.flatten))) := by
  induction segments with
  | nil => rfl
  | cons tiles segments ih =>
    rw [List.flatten_cons, rows_append] at h ⊢
    have hhead : WellTiled schema (rows tiles) := fun r hr => h r (List.mem_append_left _ hr)
    have hrest : WellTiled schema (rows segments.flatten) :=
      fun r hr => h r (List.mem_append_right _ hr)
    rw [List.flatMap_cons, rowsAsOf_append, versionsOf_append]
    exact (gather_perm hcoord systemAsOf hhead).append (ih hrest)

/-- `read_coord` gathers the versions of the coordinate at or before the time. -/
lemma coordVersions_perm {db : ArrayDb Coord Attr} {name : String} {st : ArrayState Coord Attr}
    {segments : List (Segment Coord Attr)} (hst : db.arrays.get name = some st)
    (hsegments : loadSegments db.storage name st.manifest.segments = .ok segments)
    (htiled : WellTiled st.schema (allRows st segments)) {coord : Coord} {hilbertPrefix : Nat}
    (hcoord : st.schema.tilePrefix coord = .ok hilbertPrefix) (systemAsOf : Int) :
    ∃ versions, db.coordVersions name coord systemAsOf = .ok versions ∧
      versions.Perm (versionsOf coord (rowsAsOf systemAsOf (allRows st segments))) := by
  have hid : tileIdForCell st.schema coord systemAsOf
      = .ok (.mk hilbertPrefix systemAsOf) := tileIdForCell_eq_ok.mpr ⟨hcoord, rfl⟩
  refine ⟨st.memtable.iterCellVersions hilbertPrefix systemAsOf coord ++
    segments.flatMap (segmentCellVersions hilbertPrefix systemAsOf coord), ?_, ?_⟩
  · unfold ArrayDb.coordVersions
    rw [hst]
    dsimp only
    rw [hid]
    dsimp only
    rw [hsegments]
    rfl
  · rw [allRows, rowsAsOf_append, versionsOf_append]
    apply List.Perm.append
    · exact gather_perm hcoord systemAsOf fun r hr => htiled r (List.mem_append_left _ hr)
    · exact gather_segments_perm hcoord systemAsOf
        fun r hr => htiled r (List.mem_append_right _ hr)

lemma coordVersions_outside {db : ArrayDb Coord Attr} {name : String}
    {st : ArrayState Coord Attr} (hst : db.arrays.get name = some st) {coord : Coord} {e : String}
    (hcoord : st.schema.tilePrefix coord = .error e) (systemAsOf : Int) :
    db.coordVersions name coord systemAsOf
      = .error (.storage s!"tile_id_for_cell: {e}") := by
  unfold ArrayDb.coordVersions
  rw [hst]
  dsimp only
  unfold tileIdForCell
  rw [hcoord]

/-- A map that lists for every coordinate its versions among some rows, in order. -/
def Gathers (acc : SortedMap Coord (List (Version Attr))) (rs : List (Row Coord Attr)) : Prop :=
  ∀ coord, (acc.get coord).getD [] = versionsOf coord rs ∧ acc.get coord ≠ some []

lemma gathers_empty : Gathers (SortedMap.empty : SortedMap Coord (List (Version Attr))) [] := by
  intro coord
  simp [versionsOf]

lemma Gathers.row {acc : SortedMap Coord (List (Version Attr))} {rs : List (Row Coord Attr)}
    (h : Gathers acc rs) (id : TileId) (row : Coord × Cell Attr) :
    Gathers (acc.insert row.1 (((acc.get row.1).getD []) ++ [(id, row.2)]))
      (rs ++ [(id, row.1, row.2)]) := by
  intro coord
  rw [SortedMap.get_insert, versionsOf_append]
  by_cases heq : coord = row.1
  · subst heq
    simp [(h row.1).1, versionsOf]
  · simp [heq, h coord, versionsOf, Ne.symm heq]

lemma Gathers.tile {acc : SortedMap Coord (List (Version Attr))} {rs : List (Row Coord Attr)}
    (h : Gathers acc rs) (id : TileId) (tile : Tile Coord Attr) :
    Gathers (collectTileIntoMap acc id tile)
      (rs ++ tile.entries.map (fun row => (id, row.1, row.2))) := by
  unfold collectTileIntoMap
  induction tile.entries generalizing acc rs with
  | nil => simpa using h
  | cons row es ih =>
    have hrow := ih (h.row id row)
    rwa [List.append_assoc] at hrow

lemma Gathers.tiles {acc : SortedMap Coord (List (Version Attr))} {rs : List (Row Coord Attr)}
    (h : Gathers acc rs) (tiles : Segment Coord Attr) :
    Gathers (collectTiles acc tiles) (rs ++ rows tiles) := by
  unfold collectTiles
  induction tiles generalizing acc rs with
  | nil => simpa using h
  | cons e tiles ih =>
    have htile := ih (h.tile e.1 e.2)
    rwa [List.append_assoc, ← rows_cons] at htile

lemma gathers_segments (systemAsOf : Int) (segments : List (Segment Coord Attr))
    {acc : SortedMap Coord (List (Version Attr))} {rs : List (Row Coord Attr)}
    (h : Gathers acc rs) :
    ∃ rs', Gathers (segments.foldl (fun acc tiles => collectTiles acc
        (tiles.reverse.filter (fun e => e.1.systemFromMs ≤ systemAsOf))) acc) rs' ∧
      rs'.Perm (rs ++ rowsAsOf systemAsOf (rows segments.flatten)) := by
  induction segments generalizing acc rs with
  | nil => exact ⟨rs, h, by simp [rowsAsOf]⟩
  | cons tiles segments ih =>
    obtain ⟨rs', hrs', hperm⟩ := ih (h.tiles
      (tiles.reverse.filter (fun e => e.1.systemFromMs ≤ systemAsOf)))
    refine ⟨rs', hrs', hperm.trans ?_⟩
    rw [List.flatten_cons, rows_append, rowsAsOf_append, List.append_assoc]
    refine (List.Perm.append_right _ ?_).append_left rs
    rw [rows_filter (fun id => decide (id.systemFromMs ≤ systemAsOf))]
    exact (rows_perm (List.reverse_perm tiles)).filter _

lemma rows_drainAllTilesReadOnly (m : ArrayMemtable Coord Attr) (systemAsOf : Int) :
    (rows (m.drainAllTilesReadOnly systemAsOf)).Perm
      (rowsAsOf systemAsOf (rows m.tiles.entries)) := by
  unfold ArrayMemtable.drainAllTilesReadOnly ArrayMemtable.iterTilesForPrefix
  have hpair : ∀ p : Nat, m.tiles.entries.filter (fun e =>
        e.1.hilbertPrefix = p ∧ e.1.systemFromMs ≤ systemAsOf)
      = (m.tiles.entries.filter (fun e => e.1.systemFromMs ≤ systemAsOf)).filter
        (fun e => e.1.hilbertPrefix = p) := by
    intro p
    rw [List.filter_filter]
    apply List.filter_congr
    intro e _
    simp
  simp only [hpair]
  have hflat := Buckets.flatMap_filter_perm (fun e : TileId × Tile Coord Attr => e.1.hilbertPrefix)
    (m.tiles.entries.filter (fun e => e.1.systemFromMs ≤ systemAsOf))
    (List.nodup_dedup ((m.tiles.keys.filter (fun id => id.systemFromMs ≤ systemAsOf)).map
      TileId.hilbertPrefix))
  refine (rows_perm hflat).trans (List.Perm.of_eq ?_)
  have hall : (m.tiles.entries.filter (fun e => e.1.systemFromMs ≤ systemAsOf)).filter
        (fun e => e.1.hilbertPrefix ∈ ((m.tiles.keys.filter
          (fun id => id.systemFromMs ≤ systemAsOf)).map TileId.hilbertPrefix).dedup)
      = m.tiles.entries.filter (fun e => e.1.systemFromMs ≤ systemAsOf) := by
    apply List.filter_eq_self.mpr
    intro e he
    obtain ⟨hmem, htime⟩ := List.mem_filter.mp he
    rw [decide_eq_true_eq, List.mem_dedup]
    refine List.mem_map.mpr ⟨e.1, List.mem_filter.mpr ⟨?_, htime⟩, rfl⟩
    exact List.mem_map.mpr ⟨e, hmem, rfl⟩
  rw [hall, rows_filter (fun id => decide (id.systemFromMs ≤ systemAsOf))]
  rfl

/-- `slice` gathers for every coordinate its versions at or before the time. -/
lemma sliceVersions_gathers {db : ArrayDb Coord Attr} {name : String}
    {st : ArrayState Coord Attr} {segments : List (Segment Coord Attr)}
    (hst : db.arrays.get name = some st)
    (hsegments : loadSegments db.storage name st.manifest.segments = .ok segments)
    (systemAsOf : Int) :
    ∃ versions rs, db.sliceVersions name systemAsOf = .ok versions ∧ Gathers versions rs ∧
      rs.Perm (rowsAsOf systemAsOf (allRows st segments)) := by
  have hempty : Gathers (SortedMap.empty : SortedMap Coord (List (Version Attr))) [] :=
    gathers_empty
  obtain ⟨rs, hrs, hperm⟩ := gathers_segments systemAsOf segments hempty
  refine ⟨_, _, ?_, hrs.tiles (st.memtable.drainAllTilesReadOnly systemAsOf), ?_⟩
  · unfold ArrayDb.sliceVersions
    rw [hst]
    dsimp only
    rw [hsegments]
    rfl
  · rw [allRows, rowsAsOf_append]
    refine (hperm.append (rows_drainAllTilesReadOnly st.memtable systemAsOf)).trans ?_
    rw [List.nil_append]
    exact List.perm_append_comm

/-- No coordinate has two versions with one stamp. -/
def DistinctStamps (rs : List (Row Coord Attr)) : Prop :=
  ∀ coord, ((versionsOf coord rs).map Version.stamp).Nodup

lemma DistinctStamps.asOf {rs : List (Row Coord Attr)} (h : DistinctStamps rs) (t : Int) :
    DistinctStamps (rowsAsOf t rs) := by
  intro coord
  refine (h coord).sublist (List.Sublist.map _ ?_)
  exact List.Sublist.filterMap _ List.filter_sublist

lemma DistinctStamps.of_perm {a b : List (Row Coord Attr)} (h : DistinctStamps a)
    (hperm : a.Perm b) : DistinctStamps b := by
  intro coord
  exact ((versionsOf_perm hperm).map _).nodup_iff.mp (h coord)

/-- The payloads `slice` returns, from what it gathered. -/
def sliceOf (inSlice : Coord → Bool) (versions : SortedMap Coord (List (Version Attr))) :
    List (CellPayload Attr) :=
  versions.entries.filterMap (fun e =>
    match ceilingResolveCell ((NewestSort.stable Version.stamp).newest e.2) with
    | .live payload => if inSlice e.1 then some payload else none
    | _ => none)

lemma slice_eq (db : ArrayDb Coord Attr) (name : String) (inSlice : Coord → Bool)
    (systemAsOf : Int) :
    db.slice name inSlice systemAsOf
      = (db.sliceVersions name systemAsOf).map (sliceOf inSlice) := rfl

/-- What `slice` returns depends only on the newest version of each coordinate. -/
lemma sliceOf_congr {inSlice : Coord → Bool} {a b : SortedMap Coord (List (Version Attr))}
    (h : ∀ coord, (a.get coord).map (NewestSort.stable Version.stamp).newest
      = (b.get coord).map (NewestSort.stable Version.stamp).newest) :
    sliceOf inSlice a = sliceOf inSlice b := by
  have hmap : ∀ m : SortedMap Coord (List (Version Attr)), sliceOf inSlice m
      = (m.mapValues (fun _ => (NewestSort.stable Version.stamp).newest)).entries.filterMap
        (fun e => match ceilingResolveCell e.2 with
          | .live payload => if inSlice e.1 then some payload else none
          | _ => none) := by
    intro m
    rw [SortedMap.mapValues, List.filterMap_map]
    rfl
  have hsame : a.mapValues (fun _ => (NewestSort.stable Version.stamp).newest)
      = b.mapValues (fun _ => (NewestSort.stable Version.stamp).newest) := by
    ext1 coord
    rw [SortedMap.get_mapValues, SortedMap.get_mapValues, h]
  rw [hmap, hmap, hsame]

lemma Gathers.get_eq {acc : SortedMap Coord (List (Version Attr))} {rs : List (Row Coord Attr)}
    (h : Gathers acc rs) (coord : Coord) :
    acc.get coord = if versionsOf coord rs = [] then none else some (versionsOf coord rs) := by
  obtain ⟨heq, hne⟩ := h coord
  cases hget : acc.get coord with
  | none =>
    rw [hget] at heq
    exact (if_pos heq.symm).symm
  | some l =>
    rw [hget] at heq hne
    have hl : l = versionsOf coord rs := heq
    rw [if_neg (fun hnil => hne (by rw [hl, hnil])), hl]

/-- Two arrays with the same rows, wherever they are kept, answer every read alike, provided no
coordinate has two versions with one stamp. -/
theorem reads_eq {db db' : ArrayDb Coord Attr} {name : String} {st st' : ArrayState Coord Attr}
    {segments segments' : List (Segment Coord Attr)}
    (hst : db.arrays.get name = some st) (hst' : db'.arrays.get name = some st')
    (hsegments : loadSegments db.storage name st.manifest.segments = .ok segments)
    (hsegments' : loadSegments db'.storage name st'.manifest.segments = .ok segments')
    (hschema : st.schema = st'.schema)
    (hperm : (allRows st segments).Perm (allRows st' segments'))
    (htiled : WellTiled st.schema (allRows st segments))
    (hdistinct : DistinctStamps (allRows st segments)) (env : ArrayEnv Coord Attr) (t : Int) :
    (∀ coord, db.readCoord env name coord t = db'.readCoord env name coord t) ∧
    ∀ inSlice, db.slice name inSlice t = db'.slice name inSlice t := by
  constructor
  · intro coord
    unfold ArrayDb.readCoord
    cases hcoord : st.schema.tilePrefix coord with
    | error e =>
      rw [coordVersions_outside hst hcoord, coordVersions_outside hst' (hschema ▸ hcoord)]
    | ok p =>
      obtain ⟨vs, hvs, hvsperm⟩ := coordVersions_perm hst hsegments htiled hcoord t
      obtain ⟨vs', hvs', hvsperm'⟩ := coordVersions_perm hst' hsegments'
        (hschema ▸ htiled.of_perm hperm) (hschema ▸ hcoord) t
      have hsame : vs.Perm vs' :=
        hvsperm.trans ((versionsOf_perm (rowsAsOf_perm hperm)).trans hvsperm'.symm)
      have hstamps : (vs.map Version.stamp).Nodup :=
        (hvsperm.map _).nodup_iff.mpr (hdistinct.asOf t coord)
      rw [hvs, hvs']
      have hnewest := NewestSort.newest_eq_of_perm env.sortUnstable env.sortUnstable hsame hstamps
      change Except.ok (ceilingResolveCell (env.sortUnstable.newest vs)).payload
        = Except.ok (ceilingResolveCell (env.sortUnstable.newest vs')).payload
      rw [hnewest]
  · intro inSlice
    obtain ⟨m, rs, hm, hgathers, hrs⟩ := sliceVersions_gathers hst hsegments t
    obtain ⟨m', rs', hm', hgathers', hrs'⟩ := sliceVersions_gathers hst' hsegments' t
    have hsame : rs.Perm rs' := hrs.trans ((rowsAsOf_perm hperm).trans hrs'.symm)
    have hstamps : DistinctStamps rs := (hdistinct.asOf t).of_perm hrs.symm
    rw [slice_eq, slice_eq, hm, hm']
    change Except.ok _ = Except.ok _
    congr 1
    apply sliceOf_congr
    intro coord
    have hversions : (versionsOf coord rs).Perm (versionsOf coord rs') := versionsOf_perm hsame
    rw [hgathers.get_eq, hgathers'.get_eq]
    by_cases hnil : versionsOf coord rs = []
    · have hnil' : versionsOf coord rs' = [] := by
        rw [hnil] at hversions
        exact hversions.nil_eq.symm
      rw [if_pos hnil, if_pos hnil']
    · have hnil' : versionsOf coord rs' ≠ [] := by
        intro heq
        rw [heq] at hversions
        exact hnil hversions.eq_nil
      rw [if_neg hnil, if_neg hnil', Option.map_some, Option.map_some,
        NewestSort.newest_eq_of_perm _ _ hversions (hstamps coord)]

end NodedbLite.Arrays
