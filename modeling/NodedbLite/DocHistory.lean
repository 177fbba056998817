import NodedbLite.Results
import NodedbLite.StorageRows
import NodedbLite.Digits

/-! Versioned documents. Every write adds a row to the document's history, keyed by its system
time, and moves a pointer to the current version. Keys are text: `collection:id`, and behind a NUL
the time with twenty digits. -/
namespace NodedbLite.Document

open Storage

/-- The namespaces of the history rows and of the pointers. -/
structure DocSpaces where
  documentHistory : Namespace
  latestVersion : Namespace
  ne : documentHistory ≠ latestVersion

section Keys

def colon : UInt8 := 58

def formatSysFrom (systemFromMs : Int) : Bytes := Digits.encodeSigned 20 systemFromMs

def docPrefix (collection docId : String) : Bytes :=
  Bytes.ofString collection ++ colon :: Bytes.ofString docId ++ [0]

def versionedDocKey (collection docId : String) (systemFromMs : Int) : Except LiteError Bytes :=
  if (0 : UInt8) ∈ Bytes.ofString docId then
    .error (.badRequest "document id may not contain NUL byte")
  else .ok (docPrefix collection docId ++ formatSysFrom systemFromMs)

def collPrefix (collection : String) : Bytes := Bytes.ofString collection ++ [colon]

def latestVersionKey (collection docId : String) : Bytes :=
  Bytes.ofString collection ++ colon :: Bytes.ofString docId

/-- The part behind the last NUL. -/
def afterLastNul (key : Bytes) : Option Bytes :=
  if (0 : UInt8) ∈ key then some (key.reverse.takeWhile (· ≠ 0)).reverse else none

def parseSysFrom (key : Bytes) : Option Int :=
  (afterLastNul key).bind (Digits.decodeSigned 64)

end Keys

section Values

inductive VersionTag
  | live
  | tombstone
  | gdprErased
  deriving DecidableEq, Repr

namespace VersionTag

def toU8 : VersionTag → UInt8
  | .live => 0x00
  | .tombstone => 0xFF
  | .gdprErased => 0xFE

def fromU8 (v : UInt8) : Option VersionTag :=
  if v = 0x00 then some .live
  else if v = 0xFF then some .tombstone
  else if v = 0xFE then some .gdprErased
  else none

@[simp] lemma fromU8_toU8 (tag : VersionTag) : fromU8 tag.toU8 = some tag := by
  cases tag <;> decide

end VersionTag

structure DecodedVersion where
  tag : VersionTag
  validFromMs : Int
  validUntilMs : Int
  body : Bytes
  deriving DecidableEq

def DecodedVersion.isLive (v : DecodedVersion) : Bool := v.tag = .live

/-- `i64::to_le_bytes`. -/
def i64ToBytes (n : Int) : Bytes := Bytes.ofNatLE 8 (n % 2 ^ 64).toNat

/-- `i64::from_le_bytes`. -/
def i64OfBytes (bs : Bytes) : Int := (Bytes.toNatLE bs : Int).bmod (2 ^ 64)

def headerLen : Nat := 17

/-- A byte as two upper-case hexadecimal digits. -/
def upperHex (b : UInt8) : String :=
  String.ofList ([b.toNat / 16, b.toNat % 16].map (fun d => (Nat.digitChar d).toUpper))

def encodeValue (v : DecodedVersion) : Bytes :=
  v.tag.toU8 :: i64ToBytes v.validFromMs ++ i64ToBytes v.validUntilMs ++ v.body

def decodeValue (bytes : Bytes) : Except LiteError DecodedVersion :=
  if bytes.length < headerLen then
    .error (.serialization ("versioned document value too short: " ++ toString bytes.length
      ++ " bytes (need at least 17)"))
  else
    match VersionTag.fromU8 (bytes.headD 0) with
    | none => .error (.serialization ("unknown version tag byte: 0x" ++ upperHex (bytes.headD 0)))
    | some tag =>
      .ok ⟨tag, i64OfBytes ((bytes.drop 1).take 8), i64OfBytes ((bytes.drop 9).take 8),
        bytes.drop 17⟩

end Values

def i64Max : Int := 2 ^ 63 - 1

section Writes

variable (sp : DocSpaces)

def versionedPut (t : Tree) (collection docId : String) (body : Bytes) (systemFromMs : Int)
    (validFromMs validUntilMs : Option Int) : Except LiteError Tree := do
  let historyKey ← versionedDocKey collection docId systemFromMs
  .ok (batchWriteRows t
    [.put sp.documentHistory historyKey (encodeValue
      ⟨.live, validFromMs.getD systemFromMs, validUntilMs.getD i64Max, body⟩),
     .put sp.latestVersion (latestVersionKey collection docId) (formatSysFrom systemFromMs)])

def versionedTombstone (t : Tree) (collection docId : String) (systemFromMs : Int)
    (validFromMs : Option Int) : Except LiteError Tree := do
  let historyKey ← versionedDocKey collection docId systemFromMs
  .ok (batchWriteRows t
    [.put sp.documentHistory historyKey (encodeValue
      ⟨.tombstone, validFromMs.getD systemFromMs, i64Max, []⟩),
     .delete sp.latestVersion (latestVersionKey collection docId)])

end Writes

section Reads

variable (sp : DocSpaces)

/-- The characters of the Unicode property `White_Space`. -/
def whiteSpace : List Nat :=
  [9, 10, 11, 12, 13, 0x20, 0x85, 0xA0, 0x1680, 0x2028, 0x2029, 0x202F, 0x205F, 0x3000] ++
    List.range' 0x2000 11

def isWhitespace (c : Char) : Bool := c.toNat ∈ whiteSpace

def trim (text : String) : String :=
  String.ofList ((text.toList.dropWhile isWhitespace).reverse.dropWhile isWhitespace).reverse

def versionedGetCurrent (t : Tree) (collection docId : String) :
    Except LiteError (Option DecodedVersion) :=
  match getRows t sp.latestVersion (latestVersionKey collection docId) with
  | none => .ok none
  | some pointer =>
    match Bytes.toString? pointer with
    | none => .error (.serialization "LatestVersion pointer is not valid UTF-8")
    | some sysFromStr =>
      match Digits.decodeSigned 64 (Bytes.ofString (trim sysFromStr)) with
      | none => .error (.serialization
          ("LatestVersion pointer is not a valid i64 decimal: " ++ sysFromStr.quote))
      | some sysFromMs => do
        let historyKey ← versionedDocKey collection docId sysFromMs
        match getRows t sp.documentHistory historyKey with
        | none => .error (.serialization ("LatestVersion pointer for " ++ collection ++ "/" ++ docId
            ++ " points to system_from_ms=" ++ toString sysFromMs
            ++ " but no DocumentHistory row exists"))
        | some history => do
          let decoded ← decodeValue history
          .ok (if decoded.isLive then some decoded else none)

/-- The walk over the rows, newest first. -/
def visibleAt (systemAsOfMs : Int) (validTimeMs : Option Int) :
    List KvPair → Except LiteError (Option DecodedVersion)
  | [] => .ok none
  | (key, value) :: rest => do
    let decoded ← decodeValue value
    match parseSysFrom key with
    | none => .error (.serialization "document history key missing NUL separator")
    | some sysFrom =>
      if systemAsOfMs < sysFrom then visibleAt systemAsOfMs validTimeMs rest
      else if decoded.tag ≠ .live then .ok none
      else if validTimeMs.any (fun vt => vt < decoded.validFromMs || decoded.validUntilMs ≤ vt) then
        .ok none
      else .ok (some decoded)

def versionedGetAsOf (t : Tree) (collection docId : String) (systemAsOfMs : Int)
    (validTimeMs : Option Int) : Except LiteError (Option DecodedVersion) :=
  visibleAt systemAsOfMs validTimeMs
    (scanPrefixRows t sp.documentHistory (docPrefix collection docId)).reverse

/-- The document id in a history key, behind the collection's prefix. -/
def idOfKey (pfx key : Bytes) : Option String :=
  let afterPrefix := key.drop pfx.length
  if (0 : UInt8) ∈ afterPrefix then Bytes.toString? (afterPrefix.takeWhile (· ≠ 0)) else none

/-- What a row says about the latest version of its document; rows that do not decode are
passed over. -/
def liveEntry (pfx : Bytes) (row : KvPair) : Option (String × VersionTag × Bytes) :=
  (idOfKey pfx row.1).bind (fun id =>
    (decodeValue row.2).toOption.map (fun decoded => (id, decoded.tag, decoded.body)))

def scanLiveDocuments (t : Tree) (collection : String) : List (String × Bytes) :=
  let latest := ((scanPrefixRows t sp.documentHistory (collPrefix collection)).filterMap
    (liveEntry (collPrefix collection))).foldl
      (fun m e => m.insert e.1 e.2) (SortedMap.empty : SortedMap String (VersionTag × Bytes))
  (latest.entries.filter (fun e => e.2.1 = .live)).map (fun e => (e.1, e.2.2))

end Reads

section Backfill

variable (sp : DocSpaces)

structure BackfillState where
  tree : Tree
  cursor : Option Bytes
  latest : Option (String × Int × VersionTag)
  operations : List WriteOp
  operationBytes : Nat

/-- The write of a document's pointer. -/
def pointerOp (collection : String) (previous : String × Int × VersionTag) : WriteOp :=
  if previous.2.2 = .live then
    .put sp.latestVersion (latestVersionKey collection previous.1) (formatSysFrom previous.2.1)
  else .delete sp.latestVersion (latestVersionKey collection previous.1)

def pointerCost (collection : String) (previous : String × Int × VersionTag) : Nat :=
  saturatingAdd (latestVersionKey collection previous.1).length
    (if previous.2.2 = .live then (formatSysFrom previous.2.1).length else 0)

def queuePointer (collection : String) (previous : String × Int × VersionTag)
    (maxRecords maxBytes : Nat) (s : BackfillState) : Except LiteError BackfillState :=
  let cost := pointerCost collection previous
  if maxBytes < cost then
    .error (.backpressure ("history pointer '" ++ collection ++ ":" ++ previous.1 ++ "' exceeds "
      ++ toString maxBytes ++ " bytes. Shorten the document ID or increase the source page budget"))
  else
    let s :=
      if s.operations ≠ [] ∧
          (maxRecords ≤ s.operations.length ∨ maxBytes - s.operationBytes < cost) then
        { s with tree := batchWriteRows s.tree s.operations, operations := [], operationBytes := 0 }
      else s
    .ok { s with
      operations := s.operations ++ [pointerOp sp collection previous]
      operationBytes := s.operationBytes + cost }

/-- What a row says about the latest version, with its time. -/
def pointerEntry (pfx : Bytes) (row : KvPair) : Option (String × Int × VersionTag) :=
  (idOfKey pfx row.1).bind (fun id => (decodeValue row.2).toOption.bind (fun decoded =>
    (parseSysFrom row.1).map (fun timestamp => (id, timestamp, decoded.tag))))

/-- A row of the document in hand, or the first of the next document. -/
def BackfillState.note (s : BackfillState) (e : String × Int × VersionTag) : BackfillState :=
  { s with
    latest := match s.latest with
      | some (id, previous, tag) => if previous ≤ e.2.1 then some (id, e.2) else some (id, previous, tag)
      | none => some e }

def backfillRow (collection : String) (maxRecords maxBytes : Nat) (s : BackfillState)
    (row : KvPair) : Except LiteError BackfillState :=
  let s := { s with cursor := some row.1 }
  match pointerEntry (collPrefix collection) row with
  | none => .ok s
  | some e =>
    match s.latest with
    | some previous =>
      if previous.1 ≠ e.1 then do
        let s ← queuePointer sp collection previous maxRecords maxBytes { s with latest := none }
        .ok (s.note e)
      else .ok (s.note e)
    | none => .ok (s.note e)

/-- The writes left when all pages are read. -/
def backfillFinish (collection : String) (maxRecords maxBytes : Nat) (s : BackfillState) :
    Except LiteError Tree := do
  let s ← match s.latest with
    | some previous => queuePointer sp collection previous maxRecords maxBytes s
    | none => .ok s
  .ok (if s.operations = [] then s.tree else batchWriteRows s.tree s.operations)

/-- The loop over the pages, with a bound on their number. -/
def backfillLoop (collection : String) (maxRecords maxBytes : Nat) :
    Nat → BackfillState → Option (Except LiteError Tree)
  | 0, _ => none
  | fuel + 1, s =>
    match scanBudgeted s.tree sp.documentHistory (collPrefix collection) s.cursor maxRecords
        maxBytes true with
    | .error e => some (.error (.scan e))
    | .ok page =>
      if page.entries = [] then some (backfillFinish sp collection maxRecords maxBytes s)
      else
        match page.entries.foldlM (backfillRow sp collection maxRecords maxBytes) s with
        | .error e => some (.error e)
        | .ok s => backfillLoop collection maxRecords maxBytes fuel s

def backfillPages (t : Tree) (collection : String) (maxRecords maxBytes fuel : Nat) :
    Option (Except LiteError Tree) :=
  backfillLoop sp collection maxRecords maxBytes fuel ⟨t, none, none, [], 0⟩

def backfillLatestVersion (t : Tree) (collection : String) (fuel : Nat) :
    Option (Except LiteError Tree) :=
  backfillPages sp t collection 128 (8 * 1024 * 1024) fuel

end Backfill

end NodedbLite.Document
