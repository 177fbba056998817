import NodedbLite.Results
import NodedbLite.SortedMap
import NodedbLite.CallBudget
import NodedbLite.NewestFirst

/-! The array engine (`engine/array`): the memtable of tile versions, the segments and the
manifest in storage, surrogate bindings, and the two read paths. Coordinates stand for their
encoded keys. A tile is the set of its rows: the shared tile builder takes the rows of a
buffer as they are, and a tile written to a segment reads back with the same rows. -/
namespace NodedbLite.Arrays

/-- `hilbert_prefix` and `system_from_ms`, ordered in this order. -/
abbrev TileId := Nat ×ₗ Int

def TileId.mk (hilbertPrefix : Nat) (systemFromMs : Int) : TileId :=
  toLex (hilbertPrefix, systemFromMs)

def TileId.hilbertPrefix (id : TileId) : Nat := (ofLex id).1

def TileId.systemFromMs (id : TileId) : Int := (ofLex id).2

structure CellPayload (Attr : Type) where
  validFromMs : Int
  validUntilMs : Int
  attrs : List Attr
  surrogate : Nat
  deriving DecidableEq, Repr

/-- The bytes of a cell version: a payload or one of the two sentinels. -/
inductive Cell (Attr : Type)
  | live (payload : CellPayload Attr)
  | tombstone
  | gdprErased
  deriving DecidableEq, Repr

def Cell.isSentinel {Attr : Type} : Cell Attr → Bool
  | .live _ => false
  | .tombstone | .gdprErased => true

/-- The tile grid: the hilbert prefix of a coordinate's tile, or why it has none. -/
structure ArraySchema (Coord : Type) where
  tilePrefix : Coord → Except String Nat

section
variable {Coord Attr : Type} [LinearOrder Coord]

def tileIdForCell (schema : ArraySchema Coord) (coord : Coord) (systemFromMs : Int) :
    Except LiteError TileId :=
  match schema.tilePrefix coord with
  | .ok hilbertPrefix => .ok (.mk hilbertPrefix systemFromMs)
  | .error e => .error (.storage s!"tile_id_for_cell: {e}")
end

/-- The rows of a tile version. -/
abbrev Tile (Coord Attr : Type) [LinearOrder Coord] := SortedMap Coord (Cell Attr)

/-- The tiles of a segment, in the order they were appended. -/
abbrev Segment (Coord Attr : Type) [LinearOrder Coord] := List (TileId × Tile Coord Attr)

/-- One version of a cell: its tile version and its bytes. -/
abbrev Version (Attr : Type) := TileId × Cell Attr

def Version.stamp {Attr : Type} (v : Version Attr) : Int := v.1.systemFromMs

structure ArrayMemtable (Coord Attr : Type) [LinearOrder Coord] where
  tiles : SortedMap TileId (Tile Coord Attr)

namespace ArrayMemtable

variable {Coord Attr : Type} [LinearOrder Coord]

def new : ArrayMemtable Coord Attr := ⟨.empty⟩

/-- Set the entry of a coordinate in a tile version. -/
def setEntry (m : ArrayMemtable Coord Attr) (id : TileId) (coord : Coord) (cell : Cell Attr) :
    ArrayMemtable Coord Attr :=
  ⟨m.tiles.insert id (((m.tiles.get id).getD .empty).insert coord cell)⟩

/-- A new version of a cell, in the tile version of its system time. -/
def write (m : ArrayMemtable Coord Attr) (schema : ArraySchema Coord) (coord : Coord)
    (systemFromMs : Int) (cell : Cell Attr) : Except LiteError (ArrayMemtable Coord Attr) :=
  match tileIdForCell schema coord systemFromMs with
  | .ok id => .ok (m.setEntry id coord cell)
  | .error e => .error e

def putCell (m : ArrayMemtable Coord Attr) (schema : ArraySchema Coord) (coord : Coord)
    (systemFromMs : Int) (payload : CellPayload Attr) :
    Except LiteError (ArrayMemtable Coord Attr) :=
  m.write schema coord systemFromMs (.live payload)

/-- Live cells only. -/
def cellCount (m : ArrayMemtable Coord Attr) : Nat :=
  (m.tiles.entries.map (fun e => e.2.entries.countP (fun row => !row.2.isSentinel))).sum

def isEmpty (m : ArrayMemtable Coord Attr) : Bool :=
  m.tiles.entries.all (fun e => e.2.entries.isEmpty)

def drainAndMaterialise (m : ArrayMemtable Coord Attr) :
    Segment Coord Attr × ArrayMemtable Coord Attr :=
  (m.tiles.entries, .new)

/-- The versions of a coordinate in the tiles of a prefix at or before a time, newest first. -/
def iterCellVersions (m : ArrayMemtable Coord Attr) (hilbertPrefix : Nat) (systemAsOf : Int)
    (coord : Coord) : List (Version Attr) :=
  ((m.tiles.entries.filter (fun e =>
      e.1.hilbertPrefix = hilbertPrefix ∧ e.1.systemFromMs ≤ systemAsOf)).reverse).filterMap
    (fun e => (e.2.get coord).map (fun cell => (e.1, cell)))

def iterTilesForPrefix (m : ArrayMemtable Coord Attr) (hilbertPrefix : Nat) (systemAsOf : Int) :
    Segment Coord Attr :=
  m.tiles.entries.filter (fun e =>
    e.1.hilbertPrefix = hilbertPrefix ∧ e.1.systemFromMs ≤ systemAsOf)

/-- Every tile version at or before a time, prefix by prefix. -/
def drainAllTilesReadOnly (m : ArrayMemtable Coord Attr) (systemAsOf : Int) :
    Segment Coord Attr :=
  let prefixes := ((m.tiles.keys.filter (fun id => id.systemFromMs ≤ systemAsOf)).map
    TileId.hilbertPrefix).dedup
  prefixes.flatMap (fun hilbertPrefix => m.iterTilesForPrefix hilbertPrefix systemAsOf)

end ArrayMemtable

/-- Surrogates by coordinate, and the coordinates bound since the last persisted flush. -/
structure CellBindings (Coord : Type) [LinearOrder Coord] where
  bound : SortedMap Coord Nat
  dirty : List Coord

def firstSurrogate : Nat := 1

namespace CellBindings

variable {Coord : Type} [LinearOrder Coord]

/-- The surrogate of a coordinate; an unbound one takes the next free. -/
def bind (b : CellBindings Coord) (array : String) (coord : Coord) (next : Nat) :
    Except LiteError (Nat × CellBindings Coord × Nat) :=
  match b.bound.get coord with
  | some existing => .ok (existing, b, next)
  | none =>
    let assigned := max next firstSurrogate
    if assigned + 1 < 2 ^ 32 then
      .ok (assigned, ⟨b.bound.insert coord assigned, b.dirty ++ [coord]⟩, assigned + 1)
    else
      .error (.storage
        s!"cannot bind a new cell in array '{array}': all u32 surrogates are assigned")

/-- Undo a `bind` that created a binding. -/
def rollbackNew (b : CellBindings Coord) (coord : Coord) (surrogate next : Nat) :
    CellBindings Coord × Nat :=
  (⟨b.bound.erase coord, if b.dirty.getLast? = some coord then b.dirty.dropLast else b.dirty⟩,
    if surrogate + 1 = next then surrogate else next)

end CellBindings

structure ArrayManifest where
  segments : List Nat
  nextId : Nat
  deriving DecidableEq, Repr

def ArrayManifest.new : ArrayManifest := ⟨[], 0⟩

structure ArrayState (Coord Attr : Type) [LinearOrder Coord] where
  schema : ArraySchema Coord
  manifest : ArrayManifest
  memtable : ArrayMemtable Coord Attr
  auditRetainMs : Option Int
  bindings : CellBindings Coord

structure CatalogEntry (Coord : Type) where
  schema : ArraySchema Coord
  auditRetainMs : Option Int

/-- What the storage holds of the arrays; a segment is under `segment:{name}:{id}`. -/
structure Storage (Coord Attr : Type) [LinearOrder Coord] where
  catalog : SortedMap String (CatalogEntry Coord)
  manifests : SortedMap String ArrayManifest
  segments : SortedMap (String ×ₗ Nat) (Segment Coord Attr)
  bindings : SortedMap (String ×ₗ Coord) Nat
  hwm : Option Nat

variable {Coord Attr : Type} [LinearOrder Coord]

namespace Storage

def empty : Storage Coord Attr := ⟨.empty, .empty, .empty, .empty, none⟩

def writeSegment (name : String) (id : Nat) (tiles : Segment Coord Attr)
    (d : Storage Coord Attr) : Storage Coord Attr :=
  { d with segments := d.segments.insert (toLex (name, id)) tiles }

def getSegment (d : Storage Coord Attr) (name : String) (id : Nat) :
    Option (Segment Coord Attr) :=
  d.segments.get (toLex (name, id))

def loadSegment (d : Storage Coord Attr) (name : String) (id : Nat) :
    Except LiteError (Segment Coord Attr) :=
  match d.getSegment name id with
  | some tiles => .ok tiles
  | none => .error (.storage s!"segment {name}/{id} not found")

def deleteSegment (name : String) (id : Nat) (d : Storage Coord Attr) : Storage Coord Attr :=
  { d with segments := d.segments.erase (toLex (name, id)) }

def saveManifest (name : String) (manifest : ArrayManifest) (d : Storage Coord Attr) :
    Storage Coord Attr :=
  { d with manifests := d.manifests.insert name manifest }

def loadManifest (d : Storage Coord Attr) (name : String) : ArrayManifest :=
  (d.manifests.get name).getD .new

/-- The batch of new bindings and the high-water mark. -/
def writeBindings (name : String) (b : CellBindings Coord) (nextSurrogate : Nat)
    (d : Storage Coord Attr) : Storage Coord Attr :=
  { d with
    bindings := b.dirty.foldl (fun rows coord =>
      match b.bound.get coord with
      | some surrogate => rows.insert (toLex (name, coord)) surrogate
      | none => rows) d.bindings
    hwm := some nextSurrogate }

end Storage

/-- What the engine takes from outside: the unstable sort of `read_coord` and
`merge_for_retention`, which gives for the tile versions of one prefix the tile of the live
state at the horizon and the ids of the tiles to keep. -/
structure ArrayEnv (Coord Attr : Type) [LinearOrder Coord] where
  sortUnstable : NewestSort (Version Attr) Version.stamp
  mergeForRetention : Segment Coord Attr → Int → Except String (Option (Tile Coord Attr) × List TileId)

/-- `i64` subtraction that stays within the type. -/
def saturatingSub (a b : Int) : Int := max (-2 ^ 63) (min (2 ^ 63 - 1) (a - b))

/-- `SegmentReader::read_tile_as_of`: the newest tile of a prefix at or before a time. -/
def readTileAsOf (tiles : Segment Coord Attr) (id : TileId) : Option (Tile Coord Attr) :=
  ((tiles.filter (fun e => e.1.hilbertPrefix = id.hilbertPrefix ∧
    e.1.systemFromMs ≤ id.systemFromMs)).getLast?).map Prod.snd

/-- The tiles that survive for one prefix: the state at the horizon, then the kept ones. -/
def keepPrefix (env : ArrayEnv Coord Attr) (tiles : Segment Coord Attr) (horizonMs : Int)
    (hilbertPrefix : Nat) : Except LiteError (Segment Coord Attr) :=
  match env.mergeForRetention (tiles.filter (fun e => e.1.hilbertPrefix = hilbertPrefix))
      horizonMs with
  | .error e => .error (.storage s!"merge_for_retention: {e}")
  | .ok (ceilingTile, keepInhorizon) =>
    .ok ((ceilingTile.toList.map (fun tile => (TileId.mk hilbertPrefix horizonMs, tile))) ++
      keepInhorizon.filterMap (fun id => (readTileAsOf tiles id).map (fun tile => (id, tile))))

/-- `dedup_by_key` on the tile ids behind a tile: of a run of equal ids the first stays. -/
def dedupBehind : TileId × Tile Coord Attr → Segment Coord Attr → Segment Coord Attr
  | e, [] => [e]
  | e, f :: rest => if e.1 = f.1 then dedupBehind e rest else e :: dedupBehind f rest

def dedupById : Segment Coord Attr → Segment Coord Attr
  | [] => []
  | e :: rest => dedupBehind e rest

/-- The tiles a rewritten segment gets. -/
def keepTiles (env : ArrayEnv Coord Attr) (tiles : Segment Coord Attr) (horizonMs : Int) :
    Except LiteError (Segment Coord Attr) :=
  ((tiles.map (fun e => e.1.hilbertPrefix)).dedup.mapM (keepPrefix env tiles horizonMs)).map
    (fun kept => dedupById (kept.flatten.insertionSort (fun e f => e.1 ≤ f.1)))

/-- Where a retention pass stands: the calls left, the storage, the next id (taken from the
manifest in place), the new list of segments and the number rewritten. -/
structure RetentionPass (Coord Attr : Type) [LinearOrder Coord] where
  budget : CallBudget
  storage : Storage Coord Attr
  nextId : Nat
  newSegments : List Nat
  rewritten : Nat

/-- One segment: loaded, and rewritten when it has a tile older than the horizon. The old
segment is deleted before the new one is written. -/
def retainSegment (env : ArrayEnv Coord Attr) (name : String) (horizonMs : Int) (id : Nat)
    (p : RetentionPass Coord Attr) : Except LiteError Unit × RetentionPass Coord Attr :=
  match p.budget.spend with
  | none => (.error callFailed, p)
  | some budget =>
    match p.storage.loadSegment name id with
    | .error e => (.error e, { p with budget })
    | .ok tiles =>
      if tiles.all (fun e => horizonMs ≤ e.1.systemFromMs) then
        (.ok (), { p with budget, newSegments := p.newSegments ++ [id] })
      else
        match keepTiles env tiles horizonMs with
        | .error e => (.error e, { p with budget })
        | .ok keep =>
          match budget.spend with
          | none => (.error callFailed, { p with budget })
          | some budget =>
            let storage := p.storage.deleteSegment name id
            if keep = [] then
              (.ok (), { p with budget, storage, rewritten := p.rewritten + 1 })
            else
              match budget.spend with
              | none => (.error callFailed, { p with budget, storage, nextId := p.nextId + 1 })
              | some budget =>
                (.ok (),
                  { budget
                    storage := storage.writeSegment name p.nextId keep
                    nextId := p.nextId + 1
                    newSegments := p.newSegments ++ [p.nextId]
                    rewritten := p.rewritten + 1 })

/-- The segments in turn, up to the first error. -/
def retainSegments (env : ArrayEnv Coord Attr) (name : String) (horizonMs : Int) :
    List Nat → RetentionPass Coord Attr → Except LiteError Unit × RetentionPass Coord Attr
  | [], p => (.ok (), p)
  | id :: ids, p =>
    match retainSegment env name horizonMs id p with
    | (.ok (), p') => retainSegments env name horizonMs ids p'
    | (.error e, p') => (.error e, p')

/-- `run_retention` on a manifest, with the calls left to it. -/
def runRetention (env : ArrayEnv Coord Attr) (name : String) (auditRetainMs nowMs : Int)
    (budget : CallBudget) (storage : Storage Coord Attr) (manifest : ArrayManifest) :
    Except LiteError Nat × Storage Coord Attr × ArrayManifest :=
  let horizonMs := saturatingSub nowMs auditRetainMs
  match retainSegments env name horizonMs manifest.segments
      ⟨budget, storage, manifest.nextId, [], 0⟩ with
  | (.error e, p) => (.error e, p.storage, { manifest with nextId := p.nextId })
  | (.ok (), p) =>
    let manifest := ⟨p.newSegments, p.nextId⟩
    match p.budget.spend with
    | none => (.error callFailed, p.storage, manifest)
    | some _ => (.ok p.rewritten, p.storage.saveManifest name manifest, manifest)

structure CellWrite (Coord Attr : Type) where
  coord : Coord
  attrs : List Attr
  systemFromMs : Int
  validFromMs : Int
  validUntilMs : Int

/-- The engine and the storage it is given. -/
structure ArrayDb (Coord Attr : Type) [LinearOrder Coord] where
  arrays : SortedMap String (ArrayState Coord Attr)
  flushThreshold : Nat
  nextSurrogate : Nat
  storage : Storage Coord Attr

def defaultFlushThreshold : Nat := 4096

namespace ArrayDb

def notFound (name : String) : LiteError := .badRequest s!"array '{name}' not found"

/-- Replace the state of an array. -/
def withArray (db : ArrayDb Coord Attr) (name : String) (st : ArrayState Coord Attr) :
    ArrayDb Coord Attr :=
  { db with arrays := db.arrays.insert name st }

def createArray (db : ArrayDb Coord Attr) (name : String) (schema : ArraySchema Coord)
    (auditRetainMs : Option Int) : Except LiteError (ArrayDb Coord Attr) :=
  if (db.arrays.get name).isSome then
    .error (.badRequest s!"array '{name}' already exists")
  else if '\x00' ∈ name.toList then
    .error (.badRequest
      ("array name " ++ name.quote ++ " contains NUL: use a name without NUL"))
  else
    .ok
      { db with
        arrays := db.arrays.insert name ⟨schema, .new, .new, auditRetainMs, ⟨.empty, []⟩⟩
        storage := { db.storage with
          catalog := db.storage.catalog.insert name ⟨schema, auditRetainMs⟩ } }

/-- `flush_memtable`, with the outcome of its storage calls given by a budget. The memtable is
drained and the segment id taken before the first call. -/
def flushMemtable (env : ArrayEnv Coord Attr) (nowMs : Int) (budget : CallBudget)
    (db : ArrayDb Coord Attr) (name : String) : Except LiteError Unit × ArrayDb Coord Attr :=
  match db.arrays.get name with
  | none => (.error (notFound name), db)
  | some st =>
    if st.memtable.isEmpty then (.ok (), db)
    else
      let (tiles, memtable) := st.memtable.drainAndMaterialise
      if tiles = [] then (.ok (), db.withArray name { st with memtable })
      else
        let newId := st.manifest.nextId
        let taken := { st with memtable, manifest := { st.manifest with nextId := newId + 1 } }
        match budget.spend with
        | none => (.error callFailed, db.withArray name taken)
        | some budget =>
          let db := { db with storage := db.storage.writeSegment name newId tiles }
          let listed := { taken with
            manifest := ⟨st.manifest.segments ++ [newId], newId + 1⟩ }
          match budget.spend with
          | none => (.error callFailed, db.withArray name listed)
          | some budget =>
            let db := { db with
              storage := db.storage.writeBindings name st.bindings db.nextSurrogate }
            let clean := { listed with bindings := { st.bindings with dirty := [] } }
            match budget.spend with
            | none => (.error callFailed, db.withArray name clean)
            | some budget =>
              let db := { db with storage := db.storage.saveManifest name clean.manifest }
              match st.auditRetainMs with
              | none => (.ok (), db.withArray name clean)
              | some retainMs =>
                let (result, storage, manifest) :=
                  runRetention env name retainMs nowMs budget db.storage clean.manifest
                (result.map (fun _ => ()),
                  { db.withArray name { clean with manifest } with storage })

/-- The in-memory part of `put_cell`: the surrogate is bound and the memtable written, or
neither. -/
def putInMemory (db : ArrayDb Coord Attr) (name : String) (st : ArrayState Coord Attr)
    (w : CellWrite Coord Attr) : Except LiteError Unit × ArrayDb Coord Attr :=
  let fresh := (st.bindings.bound.get w.coord).isNone
  match st.bindings.bind name w.coord db.nextSurrogate with
  | .error e => (.error e, db)
  | .ok (surrogate, bindings, next) =>
    match st.memtable.putCell st.schema w.coord w.systemFromMs
        ⟨w.validFromMs, w.validUntilMs, w.attrs, surrogate⟩ with
    | .ok memtable =>
      (.ok (), { db.withArray name { st with memtable, bindings } with nextSurrogate := next })
    | .error e =>
      if fresh then
        let (bindings, next) := bindings.rollbackNew w.coord surrogate next
        (.error e, { db.withArray name { st with bindings } with nextSurrogate := next })
      else (.error e, { db.withArray name { st with bindings } with nextSurrogate := next })

def putCell (env : ArrayEnv Coord Attr) (nowMs : Int) (db : ArrayDb Coord Attr) (name : String)
    (w : CellWrite Coord Attr) : Except LiteError Unit × ArrayDb Coord Attr :=
  match db.arrays.get name with
  | none => (.error (notFound name), db)
  | some st =>
    match db.putInMemory name st w with
    | (.error e, db) => (.error e, db)
    | (.ok (), db) =>
      match db.arrays.get name with
      | some st =>
        if db.flushThreshold ≤ st.memtable.cellCount then flushMemtable env nowMs none db name
        else (.ok (), db)
      | none => (.ok (), db)

/-- The in-memory part of `delete_cell` and `gdpr_erase_cell`: a sentinel version. -/
def markInMemory (db : ArrayDb Coord Attr) (name : String) (coord : Coord) (systemFromMs : Int)
    (cell : Cell Attr) : Except LiteError Unit × ArrayDb Coord Attr :=
  match db.arrays.get name with
  | none => (.error (notFound name), db)
  | some st =>
    match st.memtable.write st.schema coord systemFromMs cell with
    | .error e => (.error e, db)
    | .ok memtable => (.ok (), db.withArray name { st with memtable })

def deleteCell (db : ArrayDb Coord Attr) (name : String) (coord : Coord) (systemFromMs : Int) :
    Except LiteError Unit × ArrayDb Coord Attr :=
  db.markInMemory name coord systemFromMs .tombstone

def gdprEraseCell (env : ArrayEnv Coord Attr) (nowMs : Int) (db : ArrayDb Coord Attr)
    (name : String) (coord : Coord) (systemFromMs : Int) :
    Except LiteError Unit × ArrayDb Coord Attr :=
  match db.markInMemory name coord systemFromMs .gdprErased with
  | (.error e, db) => (.error e, db)
  | (.ok (), db) => flushMemtable env nowMs none db name

end ArrayDb

/-- `ceiling_resolve_cell` on a newest-first list: the first version decides. -/
inductive CeilingResult (Attr : Type)
  | live (payload : CellPayload Attr)
  | tombstoned
  | erased
  | notFound
  deriving DecidableEq, Repr

def ceilingResolveCell (first : Option (Version Attr)) : CeilingResult Attr :=
  match first with
  | none => .notFound
  | some (_, .live payload) => .live payload
  | some (_, .tombstone) => .tombstoned
  | some (_, .gdprErased) => .erased

def CeilingResult.payload : CeilingResult Attr → Option (CellPayload Attr)
  | .live payload => some payload
  | .tombstoned | .erased | .notFound => none

/-- Load the segments of a manifest in order. -/
def loadSegments (storage : Storage Coord Attr) (name : String) (ids : List Nat) :
    Except LiteError (List (Segment Coord Attr)) :=
  ids.mapM (storage.loadSegment name)

/-- The versions of a coordinate in the tiles of a prefix at or before a time, newest tile
first (`iter_tile_versions` and `extract_cell_bytes`). -/
def segmentCellVersions (hilbertPrefix : Nat) (systemAsOf : Int) (coord : Coord)
    (tiles : Segment Coord Attr) : List (Version Attr) :=
  ((tiles.filter (fun e =>
      e.1.hilbertPrefix = hilbertPrefix ∧ e.1.systemFromMs ≤ systemAsOf)).reverse).filterMap
    (fun e => (e.2.get coord).map (fun cell => (e.1, cell)))

/-- Append the rows of a tile to the versions of their coordinates. -/
def collectTileIntoMap (acc : SortedMap Coord (List (Version Attr))) (id : TileId)
    (tile : Tile Coord Attr) : SortedMap Coord (List (Version Attr)) :=
  tile.entries.foldl (fun acc row =>
    acc.insert row.1 (((acc.get row.1).getD []) ++ [(id, row.2)])) acc

def collectTiles (acc : SortedMap Coord (List (Version Attr))) (tiles : Segment Coord Attr) :
    SortedMap Coord (List (Version Attr)) :=
  tiles.foldl (fun acc e => collectTileIntoMap acc e.1 e.2) acc

namespace ArrayDb

/-- The versions `read_coord` resolves over, memtable first. -/
def coordVersions (db : ArrayDb Coord Attr) (name : String) (coord : Coord) (systemAsOf : Int) :
    Except LiteError (List (Version Attr)) :=
  match db.arrays.get name with
  | none => .error (notFound name)
  | some st =>
    match tileIdForCell st.schema coord systemAsOf with
    | .error e => .error e
    | .ok id =>
      (loadSegments db.storage name st.manifest.segments).map (fun segments =>
        st.memtable.iterCellVersions id.hilbertPrefix systemAsOf coord ++
          segments.flatMap (segmentCellVersions id.hilbertPrefix systemAsOf coord))

def readCoord (env : ArrayEnv Coord Attr) (db : ArrayDb Coord Attr) (name : String)
    (coord : Coord) (systemAsOf : Int) : Except LiteError (Option (CellPayload Attr)) :=
  (db.coordVersions name coord systemAsOf).map (fun versions =>
    (ceilingResolveCell (env.sortUnstable.newest versions)).payload)

/-- The versions `slice` gathers, by coordinate: segments in order, each from its last tile to
its first, then the memtable. -/
def sliceVersions (db : ArrayDb Coord Attr) (name : String) (systemAsOf : Int) :
    Except LiteError (SortedMap Coord (List (Version Attr))) :=
  match db.arrays.get name with
  | none => .error (notFound name)
  | some st =>
    (loadSegments db.storage name st.manifest.segments).map (fun segments =>
      collectTiles
        (segments.foldl (fun acc tiles => collectTiles acc
          (tiles.reverse.filter (fun e => e.1.systemFromMs ≤ systemAsOf))) .empty)
        (st.memtable.drainAllTilesReadOnly systemAsOf))

/-- `slice` with its ranges as the test they put on a coordinate. -/
def slice (db : ArrayDb Coord Attr) (name : String) (inSlice : Coord → Bool)
    (systemAsOf : Int) : Except LiteError (List (CellPayload Attr)) :=
  (db.sliceVersions name systemAsOf).map (fun versions =>
    versions.entries.filterMap (fun e =>
      match ceilingResolveCell ((NewestSort.stable Version.stamp).newest e.2) with
      | .live payload => if inSlice e.1 then some payload else none
      | _ => none))

/-- Reopen from storage: empty memtables, the stored manifests and bindings. -/
def openStorage (storage : Storage Coord Attr) : ArrayDb Coord Attr where
  arrays := storage.catalog.mapValues (fun name entry =>
    { schema := entry.schema
      manifest := storage.loadManifest name
      memtable := .new
      auditRetainMs := entry.auditRetainMs
      bindings := ⟨SortedMap.ofList (storage.bindings.entries.filterMap (fun e =>
        if (ofLex e.1).1 = name then some ((ofLex e.1).2, e.2) else none)), []⟩ })
  flushThreshold := defaultFlushThreshold
  nextSurrogate := (storage.bindings.entries.map (·.2 + 1)).foldl max
    (max (storage.hwm.getD firstSurrogate) firstSurrogate)
  storage

end ArrayDb

end NodedbLite.Arrays
