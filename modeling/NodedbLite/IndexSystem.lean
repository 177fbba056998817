import NodedbLite.GuardedRun
import NodedbLite.IndexCatalog

/-! The index catalog with the rows it covers and the storage it is persisted in. Documents live
in the CRDT store, with a history of live versions for bitemporal collections; strict and key-value
rows are written straight to storage, with their entries in the same batch. -/
namespace NodedbLite.Index

open Query (Value)

/-- One row a write changes: its contents after the write, none when it is removed. -/
structure RowImage where
  collection : String
  docId : String
  row : Option Value

/-- Entry changes planned for one row: collection, document id, changes. -/
abbrev RowEntryOps := String × String × List IndexWriteOp

abbrev CollectionRowImages := String × List (String × Option Value)

def pushImage (groups : List CollectionRowImages) (image : RowImage) : List CollectionRowImages :=
  if groups.any (fun g => g.1 = image.collection) then
    groups.map fun g =>
      if g.1 = image.collection then (g.1, g.2 ++ [(image.docId, image.row)]) else g
  else groups ++ [(image.collection, [(image.docId, image.row)])]

/-- Images by collection, in order of first appearance. -/
def groupImages (images : List RowImage) : List CollectionRowImages := images.foldl pushImage []

variable {Predicate : Type} (A : IndexApi Predicate)

def afterOps (keys : SortedSet Bytes) (ops : List IndexWriteOp) : SortedSet Bytes :=
  ops.foldl (fun keys op => match op with
    | .put k => keys.add k
    | .delete k => keys.remove k) keys

/-- The entries each row of the batch holds after the images planned so far. -/
abbrev Held := String × String → Option (SortedSet Bytes)

def planImage (s : IndexState Predicate) (engine : IndexEngine) (acc : Held × List RowEntryOps)
    (image : RowImage) : Held × List RowEntryOps :=
  let defs := s.defsOn image.collection engine
  if defs.isEmpty then acc
  else
    let doc := (image.collection, image.docId)
    let old := (acc.1 doc).getD (s.postings doc)
    let planned := planIndexOps A defs image.docId old image.row
    (Function.update acc.1 doc (some (afterOps old planned)),
      acc.2 ++ [(image.collection, image.docId, planned)])

/-- A row can appear twice in one write, so each plans from the entries the previous image left. -/
def planImages (s : IndexState Predicate) (engine : IndexEngine) (images : List RowImage) :
    List RowEntryOps :=
  (images.foldl (planImage A s engine) (fun _ => none, [])).2

def batchCandidates (s : IndexState Predicate) (engine : IndexEngine) (images : List RowImage) :
    Except LiteError (List (UniqueCandidate Predicate)) :=
  (groupImages images).foldlM
    (fun found g => (uniqueCandidates A s g.1 engine g.2).map (found ++ ·)) []

/-- The entry changes `images` imply, after refusing any a unique index forbids. -/
def planChecked (s : IndexState Predicate) (engine : IndexEngine) (images : List RowImage)
    (readRow : String → String → Option Value) : Except LiteError (List RowEntryOps) :=
  (batchCandidates A s engine images).bind fun candidates =>
    (confirm A candidates (fun c => readRow c.index.collection c.other)).map fun _ =>
      planImages A s engine images

/-- The changes a commit of row writes makes to the entries: none are planned when no written
collection is indexed. -/
def commitChanges (s : IndexState Predicate) (engine : IndexEngine) (images : List RowImage)
    (readRow : String → String → Option Value) : Except LiteError (List RowEntryOps) :=
  if images.any (fun image => s.hasDefs image.collection engine) then
    planChecked A s engine images readRow
  else .ok []

def entryWrites (changes : List RowEntryOps) : List WriteOp :=
  changes.flatMap fun c => c.2.2.map IndexWriteOp.toWrite

def IndexState.applyChanges (s : IndexState Predicate) (changes : List RowEntryOps) :
    IndexState Predicate :=
  changes.foldl (fun s c => s.apply c.1 c.2.1 c.2.2) s

/-- A flush between staging its marks and acknowledging them. -/
inductive Flight
  | staged (marks : List (Bytes × Dirty Bytes))
  | committed (marks : List (Bytes × Dirty Bytes))

structure IndexSys (Predicate : Type) where
  catalog : IndexState Predicate
  store : SortedMap Bytes Bytes
  crdt : String → SortedMap String Value
  history : String → SortedMap String Value
  rows : IndexEngine → String → SortedMap Bytes Value
  /-- Which collections keep a history; set when a collection is created. -/
  bitemporal : String → Bool
  flight : Option Flight

/-- A strict or key-value row write. -/
structure RowWrite where
  collection : String
  key : Bytes
  row : Option Value

def RowWrite.image (w : RowWrite) : RowImage := ⟨w.collection, docIdOfKey w.key, w.row⟩

def setRow {K : Type*} [LinearOrder K] (rows : SortedMap K Value) (k : K) :
    Option Value → SortedMap K Value
  | some row => rows.insert k row
  | none => rows.erase k

namespace IndexSys

/-- Every current row an index over `engine` rows of `collection` is built from. -/
def liveRows (s : IndexSys Predicate) (engine : IndexEngine) (collection : String) :
    List (String × Value) :=
  match engine with
  | .document =>
    if s.bitemporal collection then (s.history collection).entries else (s.crdt collection).entries
  | engine => (s.rows engine collection).entries.map fun e => (docIdOfKey e.1, e.2)

/-- The stored row an index entry names. -/
def readRow (s : IndexSys Predicate) (engine : IndexEngine) (collection id : String) :
    Option Value :=
  (keyOfDocId id).bind (s.rows engine collection).get

def documentPut (s : IndexSys Predicate) (collection id : String) (row : Value) :
    IndexSys Predicate :=
  let revived := s.catalog.revive collection id
  match revived.checkUnique A collection [(id, some row)] (s.crdt collection).get with
  | .error _ => { s with catalog := revived }
  | .ok _ =>
    let rows := (s.crdt collection).insert id row
    { s with
      crdt := Function.update s.crdt collection rows
      catalog := revived.resync A collection [id] rows.get
      history := if s.bitemporal collection then
          Function.update s.history collection ((s.history collection).insert id row)
        else s.history }

/-- Rows of the CRDT store change: an import, a merge, a list edit, a rolled-back rejection. -/
def crdtChange (s : IndexSys Predicate) (collection : String)
    (changes : List (String × Option Value)) : IndexSys Predicate :=
  let rows := changes.foldl (fun rows c => setRow rows c.1 c.2) (s.crdt collection)
  { s with
    crdt := Function.update s.crdt collection rows
    catalog := s.catalog.resync A collection (changes.map Prod.fst) rows.get }

/-- A bitemporal delete ends the live version and leaves the CRDT copy. -/
def documentDelete (s : IndexSys Predicate) (collection id : String) : IndexSys Predicate :=
  if s.bitemporal collection then
    { s with
      history := Function.update s.history collection ((s.history collection).erase id)
      catalog := s.catalog.tombstone A collection [id] }
  else s.crdtChange A collection [(id, none)]

def clearCollection (s : IndexSys Predicate) (collection : String) : IndexSys Predicate :=
  { s with
    crdt := Function.update s.crdt collection SortedMap.empty
    catalog := s.catalog.clearDocumentEntries collection }

def writeRow (engine : IndexEngine) (rows : IndexEngine → String → SortedMap Bytes Value)
    (w : RowWrite) : IndexEngine → String → SortedMap Bytes Value :=
  Function.update rows engine
    (Function.update (rows engine) w.collection (setRow (rows engine w.collection) w.key w.row))

/-- Commit row writes of `engine` with the entries they imply as one storage batch; memory follows
once it is stored. -/
def commitRows (s : IndexSys Predicate) (engine : IndexEngine) (writes : List RowWrite)
    (stored : Bool) : Except LiteError (IndexSys Predicate) :=
  (commitChanges A s.catalog engine (writes.map RowWrite.image) (s.readRow engine)).bind
    fun changes =>
      if stored then
        .ok { s with
          rows := writes.foldl (writeRow engine) s.rows
          store := s.store.writeAll (entryWrites changes)
          catalog := (s.catalog.collecting true (·.applyChanges changes)).1 }
      else .error callFailed

/-- Install `d` from the current rows of its collection. -/
def buildIndex (s : IndexSys Predicate) (d : IndexDef Predicate) (stored : Bool) :
    IndexSys Predicate :=
  let fresh := (s.catalog.defs.get d.name).isNone
  match s.catalog.install A d (s.liveRows d.engine d.collection) with
  | .error _ => s
  | .ok out =>
    if d.durable then
      if stored then { s with catalog := out.state, store := s.store.writeAll out.ops }
      else if fresh then { s with catalog := out.state.forget d.name }
      else { s with catalog := out.state }
    else if s.bitemporal d.collection then
      let deleted := (s.crdt d.collection).keys.filter
        (fun id => ((s.history d.collection).get id).isNone)
      { s with catalog := out.state.tombstone A d.collection deleted }
    else { s with catalog := out.state }

/-- `CREATE INDEX`: refused when the name or the field is taken. -/
def createIndex (s : IndexSys Predicate) (d : IndexDef Predicate) (stored : Bool) :
    IndexSys Predicate :=
  if (s.catalog.defs.get d.name).isSome then s
  else if (s.catalog.defsOf d.collection).any (fun e => e.fieldSpec = d.fieldSpec) then s
  else s.buildIndex A d stored

def reindex (s : IndexSys Predicate) (name : String) (stored : Bool) : IndexSys Predicate :=
  match s.catalog.defs.get name with
  | none => s
  | some d => s.buildIndex A d stored

/-- A change of definitions: run on a scratch copy to learn its writes, and on the catalog once
they are stored. -/
def applyDdl (s : IndexSys Predicate) (defs : List (IndexDef Predicate))
    (change : IndexState.Change Predicate) : IndexSys Predicate :=
  { s with
    store := s.store.writeAll (change (s.catalog.scratch defs) defs).2
    catalog := (change s.catalog defs).1 }

def dropIndex (s : IndexSys Predicate) (name : String) : IndexSys Predicate :=
  s.applyDdl (s.catalog.defs.get name).toList IndexState.dropChange

def clearRows (s : IndexSys Predicate) (engine : IndexEngine) (collection : String) :
    IndexSys Predicate :=
  { s with
    rows := Function.update s.rows engine
      (Function.update (s.rows engine) collection SortedMap.empty) }

/-- Every index on a collection goes with its rows of one engine. -/
def dropCollectionWith (s : IndexSys Predicate) (engine : IndexEngine) (collection : String) :
    IndexSys Predicate :=
  (s.clearRows engine collection).applyDdl (s.catalog.defsOf collection)
    (IndexState.dropCollectionChange collection)

def moveCollection (s : IndexSys Predicate) (collection : String) (engine : IndexEngine) :
    IndexSys Predicate :=
  s.applyDdl (s.catalog.defsOf collection) (IndexState.moveChange A engine)

end IndexSys

/-- The calls of the system; `stored` says whether a call's storage batch succeeds. -/
inductive IndexLabel (Predicate : Type)
  | documentPut (collection id : String) (row : Value)
  | documentDelete (collection id : String)
  | crdtChange (collection : String) (changes : List (String × Option Value))
  | clearCollection (collection : String)
  | commitRows (engine : IndexEngine) (writes : List RowWrite) (stored : Bool)
  /-- The deadline of a key-value row passes. -/
  | expireRow (collection : String) (key : Bytes)
  | createIndex (d : IndexDef Predicate) (stored : Bool)
  | reindex (name : String) (stored : Bool)
  | dropIndex (name : String) (stored : Bool)
  | dropStrict (collection : String) (stored : Bool)
  | dropDocument (collection : String) (stored : Bool)
  | moveCollection (collection : String) (engine : IndexEngine) (stored : Bool)
  | stageFlush
  | commitFlush (stored : Bool)
  | markFlushed

/-- One call. Strict and key-value rows only are committed with `commitRows`, and one flush runs
at a time. -/
def indexStep (s : IndexSys Predicate) : IndexLabel Predicate → Option (IndexSys Predicate)
  | .documentPut collection id row => some (s.documentPut A collection id row)
  | .documentDelete collection id => some (s.documentDelete A collection id)
  | .crdtChange collection changes => some (s.crdtChange A collection changes)
  | .clearCollection collection => some (s.clearCollection collection)
  | .commitRows engine writes stored =>
    if engine = .document then none
    else match s.commitRows A engine writes stored with
      | .ok t => some t
      | .error _ => some s
  -- no read and no rebuild sees the row from now on, and no call is made for its entries
  | .expireRow collection key =>
    some { s with rows := IndexSys.writeRow .keyValue s.rows ⟨collection, key, none⟩ }
  | .createIndex d stored => some (s.createIndex A d stored)
  | .reindex name stored => some (s.reindex A name stored)
  | .dropIndex name stored => some (if stored then s.dropIndex name else s)
  | .dropStrict collection stored =>
    some (if stored then s.dropCollectionWith .strict collection else s)
  | .dropDocument collection stored =>
    let cleared := s.clearCollection collection
    some (if stored then cleared.dropCollectionWith .keyValue collection else cleared)
  | .moveCollection collection engine stored =>
    some (if stored then s.moveCollection A collection engine else s)
  | .stageFlush =>
    match s.flight with
    | none => some { s with flight := some (.staged s.catalog.pending.stage) }
    | some _ => none
  | .commitFlush stored =>
    match s.flight with
    | some (.staged marks) =>
      some (if stored then
          { s with
            store := s.store.writeAll (WriteBehind.stagedWrites marks)
            flight := some (.committed marks) }
        else { s with flight := none })
    | _ => none
  | .markFlushed =>
    match s.flight with
    | some (.committed marks) =>
      some { s with
        catalog := { s.catalog with pending := s.catalog.pending.acknowledge marks }
        flight := none }
    | _ => none

def formatBytes : Bytes := Bytes.ofNatBE 4 formatVersion

/-- A database that was just created: nothing indexed, and the entry format on record. -/
def IndexSys.opened (bitemporal : String → Bool) : IndexSys Predicate :=
  { catalog := IndexState.empty
    store := SortedMap.empty.insert formatKey formatBytes
    crdt := fun _ => SortedMap.empty
    history := fun _ => SortedMap.empty
    rows := fun _ _ => SortedMap.empty
    bitemporal
    flight := none }

section TextApi

def IndexEngine.toByte : IndexEngine → UInt8
  | .document => 0
  | .strict => 1
  | .keyValue => 2

/-- A stored form of definitions without a predicate: flags, names, path. -/
def encodeDefText (d : IndexDef Empty) : Bytes :=
  d.unique.toUInt8 :: d.caseInsensitive.toUInt8 :: d.isArray.toUInt8 :: d.engine.toByte ::
    (pushComponent d.name ++ (pushComponent d.collection ++ Bytes.ofString d.path))

/-- Shared functions for collections whose indexed fields are texts. -/
def textApi : IndexApi Empty where
  eqCoerced a b := match a, b with
    | .string a, .string b => a = b
    | _, _ => false
  matchesRow p _ := nomatch p
  toLowercase := String.toLower
  parseF64 _ := none
  decimalText _ _ := ""
  intToF64 i := i.toUInt64
  parseDateTime _ := none
  msgpack _ := none
  debug _ := "value"
  encodeDef := encodeDefText

end TextApi

end NodedbLite.Index
