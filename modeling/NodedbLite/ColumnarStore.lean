import NodedbLite.Results
import NodedbLite.SortedMap
import NodedbLite.CallBudget

/-! The columnar engine (`engine/columnar/store`). Rows go to the memtable of the shared
mutation engine, a flush moves them to a segment of the storage, deletes are recorded in
bitmaps, and `restore` rebuilds the collections from what the storage holds. -/
namespace NodedbLite.Columnar

/-- An error of the mutation engine, with its text. -/
inductive ColumnarError
  | primaryKeyNotFound (text : String)
  | other (text : String)
  deriving DecidableEq, Repr

def columnarErrToLite : ColumnarError → LiteError
  | .primaryKeyNotFound text => .badRequest text
  | .other text => .badRequest text

/-- Where the mutation engine has a row: in the memtable or in a flushed segment. -/
inductive RowLocation
  | memtable (rowIndex : Nat)
  | segment (segmentId rowIndex : Nat)
  deriving DecidableEq, Repr

/-- Where a memtable row is once the memtable has become segment `segmentId`. -/
def RowLocation.relocate (segmentId : Nat) : RowLocation → RowLocation
  | .memtable rowIndex => .segment segmentId rowIndex
  | .segment id rowIndex => .segment id rowIndex

/-- The operations of the mutation engine (a shared crate) that the columnar engine calls.
`columnPk` is the key that `rebuild_pk_from_column` finds in the first column of a stored
row; it finds none where that column is null or of a kind it skips. -/
structure MutationOps (Schema Row Pk : Type) where
  State : Type
  new : Schema → State
  pkOf : State → Row → Pk
  memtable : State → List Row
  memtableBitmap : State → Finset Nat
  deleteBitmaps : State → SortedMap Nat (Finset Nat)
  location : State → Pk → Option RowLocation
  insert : State → Row → Except ColumnarError State
  delete : State → Pk → Except ColumnarError State
  update : State → Pk → Row → Except ColumnarError State
  drainOptimized : State → State
  onMemtableFlushed : State → Nat → State
  pkIndexUpsert : State → Pk → RowLocation → State
  columnPk : Row → Option Pk

/-- A row is recorded as deleted. -/
def MutationOps.marked {Schema Row Pk : Type} (M : MutationOps Schema Row Pk) (s : M.State) :
    RowLocation → Bool
  | .memtable rowIndex => decide (rowIndex ∈ M.memtableBitmap s)
  | .segment segmentId rowIndex =>
    decide (rowIndex ∈ ((M.deleteBitmaps s).get segmentId).getD ∅)

/-- A mutation engine that records deletes in its bitmaps: rows are appended to the memtable,
a delete marks the place of the key's row, an insert of a key that has a row marks that row,
and a flush moves places and marks from the memtable to the segment. -/
structure MutationEngine (Schema Row Pk : Type) [DecidableEq Pk] extends
    MutationOps Schema Row Pk where
  new_memtable : ∀ schema, memtable (new schema) = []
  new_marked : ∀ schema loc, toMutationOps.marked (new schema) loc = false
  new_location : ∀ schema pk, location (new schema) pk = none
  insert_ok : ∀ {s row s'}, insert s row = .ok s' →
    pkOf s' = pkOf s ∧ memtable s' = memtable s ++ [row] ∧
    (∀ loc, toMutationOps.marked s' loc
      = (toMutationOps.marked s loc || decide (location s (pkOf s row) = some loc))) ∧
    (∀ pk, location s' pk
      = if pk = pkOf s row then some (.memtable (memtable s).length) else location s pk)
  delete_ok : ∀ {s pk s'}, delete s pk = .ok s' →
    pkOf s' = pkOf s ∧ memtable s' = memtable s ∧
    ∃ loc, location s pk = some loc ∧
      (∀ l, toMutationOps.marked s' l = (toMutationOps.marked s l || decide (l = loc))) ∧
      (∀ k, location s' k = if k = pk then none else location s k)
  update_ok : ∀ {s pk row s'}, update s pk row = .ok s' →
    ∃ mid, delete s pk = .ok mid ∧ insert mid row = .ok s'
  drain : ∀ s, pkOf (drainOptimized s) = pkOf s ∧ memtable (drainOptimized s) = [] ∧
    toMutationOps.marked (drainOptimized s) = toMutationOps.marked s ∧
    location (drainOptimized s) = location s
  flushed : ∀ s segmentId, pkOf (onMemtableFlushed s segmentId) = pkOf s ∧
    memtable (onMemtableFlushed s segmentId) = memtable s ∧
    (∀ i, toMutationOps.marked (onMemtableFlushed s segmentId) (.memtable i) = false) ∧
    (∀ id i, toMutationOps.marked (onMemtableFlushed s segmentId) (.segment id i)
      = (toMutationOps.marked s (.segment id i)
        || (decide (id = segmentId) && toMutationOps.marked s (.memtable i)))) ∧
    (∀ pk, location (onMemtableFlushed s segmentId) pk
      = (location s pk).map (RowLocation.relocate segmentId))
  upsert : ∀ s pk loc, memtable (pkIndexUpsert s pk loc) = memtable s ∧
    toMutationOps.marked (pkIndexUpsert s pk loc) = toMutationOps.marked s

inductive ColumnarProfile
  | plain
  | timeseries
  | spatial
  deriving DecidableEq, Repr

structure SegmentMeta where
  segmentId : Nat
  rowCount : Nat
  systemTimeFromMs : Int
  fullyDeletedAtMs : Option Int
  deriving DecidableEq, Repr

structure StoredSchema (Schema : Type) where
  schema : Schema
  profile : ColumnarProfile
  bitemporal : Bool

/-- What the storage holds of the columnar collections; the keys are `{name}:seg:{id}`,
`{name}:meta` and `{name}:del:{id}`, and segments and bitmaps read back as they were
written. -/
structure Storage (Schema Row : Type) where
  names : List String
  schemas : SortedMap String (StoredSchema Schema)
  metas : SortedMap String (List SegmentMeta)
  segments : SortedMap (String ×ₗ Nat) (List Row)
  dels : SortedMap (String ×ₗ Nat) (Finset Nat)

variable {Schema Row Pk : Type} [DecidableEq Pk]

namespace Storage

def empty : Storage Schema Row := ⟨[], .empty, .empty, .empty, .empty⟩

def storeSegmentBytes (collection : String) (segmentId : Nat) (rows : List Row)
    (d : Storage Schema Row) : Storage Schema Row :=
  { d with segments := d.segments.insert (toLex (collection, segmentId)) rows }

def loadSegmentBytes (d : Storage Schema Row) (collection : String) (segmentId : Nat) :
    Option (List Row) :=
  d.segments.get (toLex (collection, segmentId))

def putMeta (collection : String) (segments : List SegmentMeta) (d : Storage Schema Row) :
    Storage Schema Row :=
  { d with metas := d.metas.insert collection segments }

def putDel (collection : String) (segmentId : Nat) (bitmap : Finset Nat)
    (d : Storage Schema Row) : Storage Schema Row :=
  { d with dels := d.dels.insert (toLex (collection, segmentId)) bitmap }

end Storage

structure CollectionState (M : MutationEngine Schema Row Pk) where
  mutation : M.State
  profile : ColumnarProfile
  bitemporal : Bool
  segments : List SegmentMeta
  nextSegmentId : Nat

structure ColumnarEngine (M : MutationEngine Schema Row Pk) where
  storage : Storage Schema Row
  collections : SortedMap String (CollectionState M)

variable {M : MutationEngine Schema Row Pk}

namespace ColumnarEngine

def new (storage : Storage Schema Row) : ColumnarEngine M := ⟨storage, .empty⟩

def lookup (eng : ColumnarEngine M) (name : String) : Except LiteError (CollectionState M) :=
  match eng.collections.get name with
  | some s => .ok s
  | none => .error (.collectionNotFound "columnar" name)

/-- Replace the state of a collection. -/
def withCollection (eng : ColumnarEngine M) (name : String) (s : CollectionState M) :
    ColumnarEngine M :=
  { eng with collections := eng.collections.insert name s }

def createCollection (eng : ColumnarEngine M) (name : String) (schema : Schema)
    (profile : ColumnarProfile) (bitemporal : Bool) : Except LiteError (ColumnarEngine M) :=
  if (eng.collections.get name).isSome then
    .error (.badRequest s!"columnar collection '{name}' already exists")
  else
    .ok
      { storage := { eng.storage with
          names := eng.collections.keys ++ [name]
          schemas := eng.storage.schemas.insert name ⟨schema, profile, bitemporal⟩ }
        collections := eng.collections.insert name
          { mutation := M.new schema, profile, bitemporal, segments := [], nextSegmentId := 1 } }

def insert (eng : ColumnarEngine M) (collection : String) (values : Row) :
    Except LiteError (ColumnarEngine M) := do
  let s ← eng.lookup collection
  match M.insert s.mutation values with
  | .ok mutation => .ok (eng.withCollection collection { s with mutation })
  | .error e => .error (columnarErrToLite e)

/-- A delete or an update through the mutation engine: refused on a timeseries collection,
`false` when the key has no row. -/
def mutateByPk (verb : String) (eng : ColumnarEngine M) (collection : String)
    (mutate : M.State → Except ColumnarError M.State) :
    Except LiteError (Bool × ColumnarEngine M) := do
  let s ← eng.lookup collection
  if s.profile = .timeseries then
    .error (.badRequest
      s!"{verb} not allowed on timeseries collection '{collection}' (append-only)")
  else
    match mutate s.mutation with
    | .ok mutation => .ok (true, eng.withCollection collection { s with mutation })
    | .error (.primaryKeyNotFound _) => .ok (false, eng)
    | .error e => .error (columnarErrToLite e)

def delete (eng : ColumnarEngine M) (collection : String) (pk : Pk) :
    Except LiteError (Bool × ColumnarEngine M) :=
  mutateByPk "DELETE" eng collection (M.delete · pk)

def update (eng : ColumnarEngine M) (collection : String) (oldPk : Pk) (newValues : Row) :
    Except LiteError (Bool × ColumnarEngine M) :=
  mutateByPk "UPDATE" eng collection (M.update · oldPk newValues)

end ColumnarEngine

/-- What a flush writes once the collection's lock is dropped. -/
structure FlushPayload (Row : Type) where
  segmentId : Nat
  segmentRows : List Row
  metas : List SegmentMeta
  delOps : List (Nat × Finset Nat)

/-- The part of a flush under the collection's lock: the memtable is drained, the segment's
metadata is listed and the mutation engine told where the rows went. -/
def CollectionState.drain (s : CollectionState M) (now : Int) :
    FlushPayload Row × CollectionState M :=
  let segmentId := s.nextSegmentId
  let rows := M.memtable s.mutation
  let segments := s.segments ++
    [⟨segmentId, rows.length, if s.bitemporal then now else 0, none⟩]
  let mutation := M.onMemtableFlushed (M.drainOptimized s.mutation) segmentId
  (⟨segmentId, rows, segments,
      (M.deleteBitmaps mutation).entries.filter (fun e => decide (e.2 ≠ ∅))⟩,
    { s with mutation, segments, nextSegmentId := segmentId + 1 })

/-- The storage calls of a flush, in order: the segment, the metadata list, the bitmaps. -/
def FlushPayload.writes (payload : FlushPayload Row) (collection : String) :
    List (Storage Schema Row → Storage Schema Row) :=
  Storage.storeSegmentBytes collection payload.segmentId payload.segmentRows ::
    Storage.putMeta collection payload.metas ::
    payload.delOps.map (fun e => Storage.putDel collection e.1 e.2)

namespace ColumnarEngine

/-- `flush_collection`, with the outcome of its storage calls given by a budget: the state
drained under the lock stays drained when a call fails. -/
def flushCollection (eng : ColumnarEngine M) (now : Int) (budget : CallBudget)
    (collection : String) : Except LiteError Unit × ColumnarEngine M :=
  match eng.lookup collection with
  | .error e => (.error e, eng)
  | .ok s =>
    if M.memtable s.mutation = [] then (.ok (), eng)
    else
      let (payload, drained) := s.drain now
      let (left, storage) := budget.perform (payload.writes collection) eng.storage
      (if left.isSome then .ok () else .error callFailed,
        { eng.withCollection collection drained with storage })

/-- Flush the collections in turn, up to the first that fails. -/
def flushNames (now : Int) : List String → ColumnarEngine M →
    Except LiteError Unit × ColumnarEngine M
  | [], eng => (.ok (), eng)
  | name :: names, eng =>
    match eng.flushCollection now none name with
    | (.ok (), eng') => flushNames now names eng'
    | (.error e, eng') => (.error e, eng')

def flushAll (eng : ColumnarEngine M) (now : Int) : Except LiteError Unit × ColumnarEngine M :=
  flushNames now eng.collections.keys eng

/-- The rows of the segments that are not fully deleted and whose bytes are there. -/
def segmentRows (storage : Storage Schema Row) (collection : String)
    (segments : List SegmentMeta) : List Row :=
  segments.flatMap fun m =>
    if m.fullyDeletedAtMs.isSome then []
    else (storage.loadSegmentBytes collection m.segmentId).getD []

def listRows (eng : ColumnarEngine M) (collection : String) : Except LiteError (List Row) := do
  let s ← eng.lookup collection
  .ok (M.memtable s.mutation ++ segmentRows eng.storage collection s.segments)

def rowCount (eng : ColumnarEngine M) (collection : String) : Nat :=
  match eng.collections.get collection with
  | none => 0
  | some s =>
    ((s.segments.filter (fun m => m.fullyDeletedAtMs.isNone)).map (·.rowCount)).sum
      + (M.memtable s.mutation).length

end ColumnarEngine

/-- Upsert the keys of a segment's rows, by index. -/
def rebuildPkFromColumn (segmentId : Nat) : Nat → List Row → M.State → M.State
  | _, [], mutation => mutation
  | rowIdx, row :: rows, mutation =>
    rebuildPkFromColumn segmentId (rowIdx + 1) rows
      (match M.columnPk row with
        | some pk => M.pkIndexUpsert mutation pk (.segment segmentId rowIdx)
        | none => mutation)

/-- A collection as `restore` rebuilds it. The source also reads each segment's bitmap and
walks over its rows, but does nothing with them. -/
def restoreCollection (M : MutationEngine Schema Row Pk) (storage : Storage Schema Row)
    (name : String) (stored : StoredSchema Schema) : CollectionState M :=
  let segments := (storage.metas.get name).getD []
  let rebuild := fun (mutation : M.State) (m : SegmentMeta) =>
    if m.fullyDeletedAtMs.isSome then mutation
    else match storage.loadSegmentBytes name m.segmentId with
      | some rows => rebuildPkFromColumn m.segmentId 0 rows mutation
      | none => mutation
  { mutation := segments.foldl rebuild (M.new stored.schema)
    profile := stored.profile
    bitemporal := stored.bitemporal
    segments
    nextSegmentId := ((segments.map (·.segmentId + 1)).max?).getD 1 }

/-- Restore the collections from the storage. -/
def ColumnarEngine.restore (storage : Storage Schema Row) : ColumnarEngine M where
  storage
  collections := storage.names.foldl (fun loaded name =>
    match storage.schemas.get name with
    | some stored => loaded.insert name (restoreCollection M storage name stored)
    | none => loaded) .empty

end NodedbLite.Columnar
