import NodedbLite.Results
import NodedbLite.StorageRows

/-! Strict collections: rows are tuples of a declared schema, stored under the collection's name, a
colon and the bytes of the primary key. A bitemporal collection also keeps versions in a history
namespace. The tuple format and the catalog of secondary indexes are parameters. -/
namespace NodedbLite.Strict

open Storage

section Values

/-- Values as keys see them. A decimal is the number whose bytes it is serialised to; a value of a
type without an encoding of its own is its debug text. -/
inductive Value
  | null
  | integer (v : Int64)
  | string (s : String)
  | uuid (s : String)
  | decimal (d : Fin (256 ^ 16))
  | other (debug : String)
  deriving DecidableEq

structure ColumnDef (T : Type) where
  name : String
  columnType : T
  nullable : Bool
  primaryKey : Bool

structure StrictSchema (T : Type) where
  columns : List (ColumnDef T)
  version : Nat
  bitemporal : Bool

variable {T : Type}

def StrictSchema.columnIndex (schema : StrictSchema T) (name : String) : Option Nat :=
  schema.columns.findIdx? (fun c => c.name = name)

/-- The columns of the primary key. -/
def StrictSchema.pkIndices (schema : StrictSchema T) : List Nat :=
  (schema.columns.zipIdx.filter (fun c => c.1.primaryKey)).map Prod.snd

def colon : UInt8 := 58

/-- The bytes of a key value: integers sort as their sign-flipped big-endian bytes. -/
def encodePkComponent : Value → Bytes
  | .integer v => Bytes.ofNatBE 8 (v.toUInt64 ^^^ ((1 : UInt64) <<< 63)).toNat
  | .string s => Bytes.ofString s
  | .uuid s => Bytes.ofString s
  | .decimal d => Bytes.ofNatLE 16 d
  | .null => Bytes.ofString "Null"
  | .other debug => Bytes.ofString debug

end Values

/-- What a row write changes in the secondary indexes: entries of the metadata namespace. -/
inductive EntryWrite
  | put (key : Bytes)
  | delete (key : Bytes)

/-- The tuple format, the namespaces and the index catalog an engine works with. -/
structure StrictEnv (T : Type) where
  strict : Namespace
  strictHistory : Namespace
  metadata : Namespace
  strict_ne : strict ≠ strictHistory
  metadata_ne : metadata ≠ strict
  metadata_ne_history : metadata ≠ strictHistory
  accepts : T → Value → Bool
  encode : StrictSchema T → List Value → Except String Bytes
  extractAll : StrictSchema T → Bytes → Except String (List Value)
  schemaVersion : Bytes → Except String Nat
  /-- The index entries a batch of row writes implies, or the refusal of a unique index. -/
  entries : Tree → String → List WriteOp → Except LiteError (List EntryWrite)

def strictErrToLite (e : String) : LiteError := .badRequest e

section State

variable {T : Type}

/-- `version as u16`. -/
def asU16 (version : Nat) : Nat := version % 2 ^ 16

structure CollectionState (T : Type) where
  schema : StrictSchema T
  /-- The column counts of the schema versions known since the collection was opened. -/
  versionColumnCounts : SortedMap Nat Nat

namespace CollectionState

def new (schema : StrictSchema T) : CollectionState T :=
  ⟨schema, SortedMap.empty.insert (asU16 schema.version) schema.columns.length⟩

def storageKey (st : CollectionState T) (collection : String) (values : List Value) : Bytes :=
  Bytes.ofString collection ++ colon ::
    st.schema.pkIndices.flatMap (fun i => encodePkComponent (values.getD i .null))

/-- The key of a single key value, whatever the schema. -/
def storageKeyFromPk (collection : String) (pk : Value) : Bytes :=
  Bytes.ofString collection ++ colon :: encodePkComponent pk

end CollectionState

/-- The schema a tuple of an older version is read with. -/
def CollectionState.oldSchema (st : CollectionState T) (tupleVersion : Nat) : StrictSchema T :=
  let oldColCount := (st.versionColumnCounts.get (asU16 tupleVersion)).getD
    st.schema.columns.length
  ⟨st.schema.columns.take oldColCount, tupleVersion, st.schema.bitemporal⟩

/-- Cut or padded with nulls to a length. -/
def resize (values : List Value) (n : Nat) : List Value :=
  values.take n ++ List.replicate (n - values.length) .null

def decodeTuple (env : StrictEnv T) (st : CollectionState T) (bytes : Bytes) :
    Except LiteError (List Value) := do
  let tupleVersion ← (env.schemaVersion bytes).mapError strictErrToLite
  if st.schema.version ≤ tupleVersion then (env.extractAll st.schema bytes).mapError strictErrToLite
  else do
    let values ← (env.extractAll (st.oldSchema tupleVersion) bytes).mapError strictErrToLite
    .ok (resize values st.schema.columns.length)

/-- The engine: the storage, the schemas and the list of names it keeps in the metadata namespace, and
the collections in memory. -/
structure StrictEngine (T : Type) where
  tree : Tree
  schemas : SortedMap String (StrictSchema T)
  names : List String
  collections : SortedMap String (CollectionState T)

def StrictEngine.getState (e : StrictEngine T) (collection : String) :
    Except LiteError (CollectionState T) :=
  match e.collections.get collection with
  | some st => .ok st
  | none => .error (.collectionNotFound "strict" collection)

end State

section History

/-- `i64::MAX`. -/
def i64Max : Int := 2 ^ 63 - 1

/-- `ms as u64`, big-endian. -/
def msBytes (ms : Int) : Bytes := Bytes.ofIntBE 8 ms

def historyKey (collection : String) (systemFromMs : Int) (pkBytes : Bytes) : Bytes :=
  Bytes.ofString collection ++ colon :: (msBytes systemFromMs ++ colon :: pkBytes)

def historyValue (tuple : Bytes) (systemToMs : Int) : Bytes := tuple ++ msBytes systemToMs

/-- The part of a row's key behind the collection's name and the colon. -/
def keySuffix (collection : String) (key : Bytes) : Bytes :=
  key.drop ((Bytes.ofString collection).length + 1)

/-- The start of a stored version is not read from its tuple. -/
def extractSystemFromMs (_tuple : Bytes) : Int := 0

def extractSystemFromValues (values : List Value) : Int :=
  match values.head? with
  | some (.integer ms) => ms.toInt
  | _ => 0

variable {T : Type} (env : StrictEnv T)

def recordHistorySupersession (t : Tree) (collection : String) (pkBytes oldTuple : Bytes)
    (systemToMs : Int) : Tree :=
  putRows t env.strictHistory (historyKey collection (extractSystemFromMs oldTuple) pkBytes)
    (historyValue oldTuple systemToMs)

/-- The entry a version gets when it is written. -/
def recordBirth (t : Tree) (collection : String) (key tuple : Bytes) (systemFromMs : Int) : Tree :=
  putRows t env.strictHistory (historyKey collection systemFromMs (keySuffix collection key))
    (historyValue tuple i64Max)

end History

end NodedbLite.Strict
