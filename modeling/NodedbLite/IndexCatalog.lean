import NodedbLite.Results
import NodedbLite.IndexKey
import NodedbLite.WriteBehind

/-! The index catalog: definitions and entries held in memory. A change is either marked for the
next flush or, while a sink is set, collected as a storage write for the caller to commit. -/
namespace NodedbLite.Index

open Query (Value)

abbrev WriteOp := SortedMap.Write Bytes Bytes

/-- The catalog state. A missing posting is an empty one. -/
structure IndexState (Predicate : Type) where
  defs : SortedMap String (IndexDef Predicate)
  entries : SortedSet Bytes
  postings : String × String → SortedSet Bytes
  tombstoned : String × String → Bool
  pending : WriteBehind Bytes Bytes
  sink : Option (List WriteOp)

/-- One change to the stored entries. -/
inductive IndexWriteOp
  | put (entry : Bytes)
  | delete (entry : Bytes)
  deriving DecidableEq, Repr

def IndexWriteOp.toWrite : IndexWriteOp → WriteOp
  | .put entry => .put entry []
  | .delete entry => .delete entry

variable {Predicate : Type} (A : IndexApi Predicate)

namespace IndexState

def empty : IndexState Predicate :=
  ⟨SortedMap.empty, SortedMap.empty, fun _ => SortedMap.empty, fun _ => false,
    WriteBehind.empty, none⟩

def defList (s : IndexState Predicate) : List (IndexDef Predicate) := s.defs.entries.map Prod.snd

/-- The definitions on `collection`, whatever engine they cover. -/
def defsOf (s : IndexState Predicate) (collection : String) : List (IndexDef Predicate) :=
  s.defList.filter (fun d => d.collection = collection)

/-- The definitions on `collection` that cover `engine` rows. -/
def defsOn (s : IndexState Predicate) (collection : String) (engine : IndexEngine) :
    List (IndexDef Predicate) :=
  s.defList.filter (fun d => d.collection = collection ∧ d.engine = engine)

def hasDefs (s : IndexState Predicate) (collection : String) (engine : IndexEngine) : Bool :=
  !(s.defsOn collection engine).isEmpty

def mark (s : IndexState Predicate) (key : Bytes) (value : Option Bytes) : IndexState Predicate :=
  match s.sink with
  | some ops => { s with sink := some (ops ++ [WriteBehind.toWrite key value]) }
  | none => { s with pending := s.pending.mark key value }

/-- Run a change and hand over the storage writes it needs when `durable`; otherwise leave them
for the flush. -/
def collecting (durable : Bool) (f : IndexState Predicate → IndexState Predicate)
    (s : IndexState Predicate) : IndexState Predicate × List WriteOp :=
  if durable then
    let t := f { s with sink := some [] }
    ({ t with sink := s.sink }, t.sink.getD [])
  else (f s, [])

def postingAdd (s : IndexState Predicate) (doc : String × String) (entry : Bytes) :
    String × String → SortedSet Bytes :=
  Function.update s.postings doc ((s.postings doc).add entry)

def postingRemove (s : IndexState Predicate) (doc : String × String) (entry : Bytes) :
    String × String → SortedSet Bytes :=
  Function.update s.postings doc ((s.postings doc).remove entry)

def applyOne (doc : String × String) (s : IndexState Predicate) :
    IndexWriteOp → IndexState Predicate
  | .put entry =>
    { s with postings := s.postingAdd doc entry, entries := s.entries.add entry }.mark entry (some [])
  | .delete entry =>
    { s with postings := s.postingRemove doc entry, entries := s.entries.remove entry }.mark
      entry none

/-- Apply entry changes for one row of `collection`. -/
def apply (s : IndexState Predicate) (collection docId : String) (ops : List IndexWriteOp) :
    IndexState Predicate :=
  ops.foldl (applyOne (collection, docId)) s

def clearOne (s : IndexState Predicate) (entry : Bytes) : IndexState Predicate :=
  let postings := match parseEntry entry with
    | some parsed => s.postingRemove (parsed.collection, parsed.docId) entry
    | none => s.postings
  { s with postings, entries := s.entries.remove entry }.mark entry none

/-- Remove every entry whose key starts with `head`. -/
def clearPrefix (s : IndexState Predicate) (head : Bytes) : IndexState Predicate :=
  (s.entries.under head).foldl clearOne s

def putDef (s : IndexState Predicate) (d : IndexDef Predicate) : IndexState Predicate :=
  { s.mark d.key (some (A.encodeDef d)) with defs := s.defs.insert d.name d }

/-- Remove a definition and every entry it owns. -/
def removeDef (s : IndexState Predicate) (name : String) : IndexState Predicate :=
  match s.defs.get name with
  | none => s
  | some d => ({ s with defs := s.defs.erase name }.clearPrefix d.entryPrefix).mark d.key none

/-- File an entry under the document it parses to. -/
def scratchEntry (t : IndexState Predicate) (entry : Bytes) : IndexState Predicate :=
  let postings := match parseEntry entry with
    | some parsed => t.postingAdd (parsed.collection, parsed.docId) entry
    | none => t.postings
  { t with postings, entries := t.entries.add entry }

/-- One definition of a scratch copy, with its entries. -/
def scratchDef (s t : IndexState Predicate) (d : IndexDef Predicate) : IndexState Predicate :=
  (s.entries.under d.entryPrefix).foldl scratchEntry { t with defs := t.defs.insert d.name d }

/-- A state holding only `defs` and their entries, on which a change of definitions is run first
to learn its storage writes. -/
def scratch (s : IndexState Predicate) (defs : List (IndexDef Predicate)) : IndexState Predicate :=
  defs.foldl (scratchDef s) empty

end IndexState

/-- The entry keys of a row under several definitions, none for a removed row. -/
def newKeys (defs : List (IndexDef Predicate)) (docId : String) : Option Value → SortedSet Bytes
  | some row => SortedSet.ofKeys (defs.flatMap fun d => (entryKeys A d docId row).toList)
  | none => SortedMap.empty

/-- The entry changes that move a document from the entries it holds now to what `new` holds. -/
def planIndexOps (defs : List (IndexDef Predicate)) (docId : String) (oldKeys : SortedSet Bytes)
    (new : Option Value) : List IndexWriteOp :=
  (oldKeys.diff (newKeys A defs docId new)).toList.map .delete ++
    ((newKeys A defs docId new).diff oldKeys).toList.map .put

/-- Document ids of the entries under `head`, in key order. -/
def idsUnder (s : IndexState Predicate) (indexHead head : Bytes) : List String :=
  (s.entries.under head).filterMap (entryDocId · indexHead)

/-- A stored document whose entry shares a key with a value a write gives a unique index. -/
structure UniqueCandidate (Predicate : Type) where
  index : IndexDef Predicate
  value : Value
  other : String

def displayValue : Value → String
  | .string s => s
  | value => A.debug value

def uniqueViolation (d : IndexDef Predicate) (value : Value) (other : String) : LiteError :=
  .uniqueViolation d.collection ("index '" ++ d.name ++ "': key (" ++ d.fieldSpec ++ ")=(" ++
    displayValue A value ++ ") already exists in document '" ++ other ++ "'")

namespace UniqueCandidate

def heldBy (c : UniqueCandidate Predicate) (stored : Value) : Bool :=
  (indexValues A c.index stored).any (fun held => A.eqCoerced held c.value)

def violation (c : UniqueCandidate Predicate) : LiteError :=
  uniqueViolation A c.index c.value c.other

end UniqueCandidate

/-- Values the rows of a write hold so far in one index, and the candidates found. -/
abbrev Claims (Predicate : Type) := List (String × Value) × List (UniqueCandidate Predicate)

section Candidates

variable (s : IndexState Predicate) (collection : String) (written : List String)
  (d : IndexDef Predicate)

def claimValue (id : String) (acc : Claims Predicate) (value : Value) :
    Except LiteError (Claims Predicate) :=
  match acc.1.find? (fun c => c.1 ≠ id && A.eqCoerced c.2 value) with
  | some (other, _) => .error (uniqueViolation A d value other)
  | none =>
    let found := (encodeCoercible A value).flatMap fun enc =>
      (idsUnder s d.entryPrefix (d.entryPrefix ++ enc)).filter fun other =>
        !(written.contains other || s.tombstoned (collection, other))
    .ok (acc.1 ++ [(id, value)], acc.2 ++ found.map (⟨d, value, ·⟩))

/-- A later write of the same row replaces what it claimed. -/
def claimRow (acc : Claims Predicate) (row : String × Option Value) :
    Except LiteError (Claims Predicate) :=
  let claimed := acc.1.filter (fun c => c.1 ≠ row.1)
  match row.2 with
  | none => .ok (claimed, acc.2)
  | some contents =>
    (indexValues A d contents).foldlM (claimValue A s collection written d row.1) (claimed, acc.2)

def claimIndex (rows : List (String × Option Value)) (found : List (UniqueCandidate Predicate)) :
    Except LiteError (List (UniqueCandidate Predicate)) :=
  (rows.foldlM (claimRow A s collection written d) ([], found)).map Prod.snd

end Candidates

/-- The stored documents that may already hold a value `rows` give a unique index. Conflicts among
the rows themselves are refused here. -/
def uniqueCandidates (s : IndexState Predicate) (collection : String) (engine : IndexEngine)
    (rows : List (String × Option Value)) : Except LiteError (List (UniqueCandidate Predicate)) :=
  ((s.defsOn collection engine).filter (·.unique)).foldlM
    (fun found d => claimIndex A s collection (rows.map Prod.fst) d rows found) []

/-- The first candidate whose current row holds the value refuses the write. -/
def confirm (candidates : List (UniqueCandidate Predicate))
    (readRow : UniqueCandidate Predicate → Option Value) : Except LiteError Unit :=
  match candidates.find? (fun c => (readRow c).any (c.heldBy A)) with
  | some c => .error (c.violation A)
  | none => .ok ()

namespace IndexState

def checkUnique (s : IndexState Predicate) (collection : String)
    (rows : List (String × Option Value)) (readRow : String → Option Value) :
    Except LiteError Unit :=
  (uniqueCandidates A s collection .document rows).bind fun candidates =>
    confirm A candidates (fun c => readRow c.other)

def resyncOne (collection : String) (defs : List (IndexDef Predicate))
    (readRow : String → Option Value) (s : IndexState Predicate) (id : String) :
    IndexState Predicate :=
  let row := if s.tombstoned (collection, id) then none else readRow id
  s.apply collection id (planIndexOps A defs id (s.postings (collection, id)) row)

/-- Bring the entries of `ids` in line with their current rows. -/
def resync (s : IndexState Predicate) (collection : String) (ids : List String)
    (readRow : String → Option Value) : IndexState Predicate :=
  let defs := s.defsOn collection .document
  if defs.isEmpty then s else ids.foldl (resyncOne A collection defs readRow) s

/-- Record `ids` as deleted while their CRDT copy stays, and remove their entries. -/
def tombstone (s : IndexState Predicate) (collection : String) (ids : List String) :
    IndexState Predicate :=
  { s with tombstoned := fun doc =>
      s.tombstoned doc || (doc.1 = collection && ids.contains doc.2) }.resync A collection ids
    (fun _ => none)

def revive (s : IndexState Predicate) (collection id : String) : IndexState Predicate :=
  { s with tombstoned := Function.update s.tombstoned (collection, id) false }

/-- The unique check of an install, among the rows it is built from. -/
def seenValue (d : IndexDef Predicate) (id : String) (seen : List (String × Value))
    (value : Value) : Except LiteError (List (String × Value)) :=
  match seen.find? (fun c => c.1 ≠ id && A.eqCoerced c.2 value) with
  | some (other, _) => .error (uniqueViolation A d value other)
  | none => .ok (seen ++ [(id, value)])

def checkInstall (d : IndexDef Predicate) (rows : List (String × Value)) :
    Except LiteError (List (String × Value)) :=
  if d.unique then
    rows.foldlM (fun seen row => (indexValues A d row.2).foldlM (seenValue A d row.1) seen) []
  else .ok []

def installRow (d : IndexDef Predicate) (s : IndexState Predicate) (row : String × Value) :
    IndexState Predicate :=
  s.apply d.collection row.1 ((entryKeys A d row.1 row.2).toList.map .put)

def build (d : IndexDef Predicate) (rows : List (String × Value)) (s : IndexState Predicate) :
    IndexState Predicate :=
  let s := match s.defs.get d.name with
    | some existing => s.clearPrefix existing.entryPrefix
    | none => s
  rows.foldl (installRow A d) ((s.clearPrefix d.entryPrefix).putDef A d)

end IndexState

def IndexDef.durable (d : IndexDef Predicate) : Bool := d.engine ≠ .document

def IndexDef.withEngine (d : IndexDef Predicate) (engine : IndexEngine) : IndexDef Predicate :=
  { d with engine }

/-- What an install answers: the number of entries built and the writes left to commit. -/
structure Installed (Predicate : Type) where
  state : IndexState Predicate
  built : Nat
  ops : List WriteOp

namespace IndexState

/-- Install `d` with entries built from `rows`, replacing any index of the same name. A unique
index whose rows share a value is refused and nothing changes. -/
def install (s : IndexState Predicate) (d : IndexDef Predicate) (rows : List (String × Value)) :
    Except LiteError (Installed Predicate) :=
  (checkInstall A d rows).map fun _ =>
    let (t, ops) := s.collecting d.durable (build A d rows)
    ⟨t, (rows.map fun row => (entryKeys A d row.1 row.2).toList.length).sum, ops⟩

/-- Remove an index from memory only. -/
def forget (s : IndexState Predicate) (name : String) : IndexState Predicate :=
  (s.collecting true (·.removeDef name)).1

/-- Remove every entry of every document index on `collection`, keeping the definitions. -/
def clearDocumentEntries (s : IndexState Predicate) (collection : String) : IndexState Predicate :=
  (s.defsOn collection .document).foldl (fun s d => s.clearPrefix d.entryPrefix) s

/-- A change of definitions, and the storage writes of its strict and key-value indexes. -/
abbrev Change (Predicate : Type) :=
  IndexState Predicate → List (IndexDef Predicate) → IndexState Predicate × List WriteOp

def dropOne (acc : IndexState Predicate × List WriteOp) (d : IndexDef Predicate) :
    IndexState Predicate × List WriteOp :=
  let (t, written) := acc.1.collecting d.durable (·.removeDef d.name)
  (t, acc.2 ++ written)

def dropChange : Change Predicate := fun s defs => defs.foldl dropOne (s, [])

/-- Dropping a collection also forgets its tombstones. -/
def dropCollectionChange (collection : String) : Change Predicate := fun s defs =>
  let (t, ops) := dropChange s defs
  ({ t with tombstoned := fun doc => t.tombstoned doc && doc.1 ≠ collection }, ops)

def moveOne (engine : IndexEngine) (acc : IndexState Predicate × List WriteOp)
    (d : IndexDef Predicate) : IndexState Predicate × List WriteOp :=
  let (t, cleared) := acc.1.collecting d.durable (·.clearPrefix d.entryPrefix)
  let next := d.withEngine engine
  let (u, declared) := t.collecting next.durable (putDef A · next)
  (u, acc.2 ++ cleared ++ declared)

/-- Re-declare indexes as covering `engine` rows and remove their entries. -/
def moveChange (engine : IndexEngine) : Change Predicate := fun s defs =>
  defs.foldl (moveOne A engine) (s, [])

end IndexState

end NodedbLite.Index
