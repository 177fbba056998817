import NodedbLite.KvTransfer

/-! The SQL key-value operations. Each reads stored entries on its own, answers, and names the
writes it commits as one batch. -/
namespace NodedbLite.Kv

variable {Patch CounterShape : Type} (W : Shared Patch CounterShape)

def saturatingAdd (a b : UInt64) : UInt64 :=
  if a.toNat + b.toNat < 2 ^ 64 then a + b else UInt64.ofNat (2 ^ 64 - 1)

/-- The deadline of a write with a time to live, where zero means none. -/
def freshDeadline (now ttlMs old : UInt64) : UInt64 :=
  if 0 < ttlMs then saturatingAdd now ttlMs else old

def kvGetRow (store : Store) (now : UInt64) (collection : String) (key : Bytes) : QueryResult :=
  match visible now (store.get (kvKey collection key)) with
  | none => .empty
  | some body => ⟨["key", "value"], [[.bytes key, .bytes body]], 0, none⟩

/-- The remaining time to live: `-2` for no key, `-1` for no deadline. -/
def kvGetTtl (store : Store) (now : UInt64) (collection : String) (key : Bytes) : QueryResult :=
  let ttlMs : Int64 := match (store.get (kvKey collection key)).bind decodeValue with
    | none => -2
    | some (deadline, _) =>
      if deadline = 0 then -1
      else if deadline ≤ now then -2
      else (deadline - now).toInt64
  ⟨["ttl_ms"], [[.integer ttlMs]], 0, none⟩

def kvBatchGet (store : Store) (now : UInt64) (collection : String) (keys : List Bytes) :
    QueryResult :=
  ⟨["key", "value"], keys.map (fun key => [.bytes key,
    (visible now (store.get (kvKey collection key))).elim .null .bytes]), 0, none⟩

def kvFieldGet (store : Store) (now : UInt64) (collection : String) (key : Bytes)
    (fields : List String) : Planned := do
  let some (_, body) ← readLive store now (kvKey collection key) "corrupt KV entry: too short"
    | return (.empty, [])
  let some map ← decodeKvMap W body
    | throw (.typeMismatch collection "key holds a bare value, not a hash")
  return (⟨fields, [fields.map (fun f => (map.get f).getD .null)], 0, none⟩, [])

/-- `kv_scan`: the rows of the first `count` stored entries from the cursor that are live and
match. -/
def kvScan (store : Store) (now : UInt64) (collection : String) (cursor : Bytes) (count : Nat)
    (matchPattern : Bytes → Bool) : QueryResult :=
  let entries := scanRangeBounded store (kvKey collection cursor)
    (some (Bytes.ofString collection ++ [1])) (some count)
  let out := scanLoop now collection none matchPattern entries ⟨[], []⟩
  ⟨["key", "value"], out.pairs.map (fun p => [.bytes p.1, .bytes p.2]), 0, none⟩

def kvPut (now : UInt64) (collection : String) (key value : Bytes) (ttlMs : UInt64)
    (command : String) : QueryResult × List WriteOp :=
  (.affected 1 (some command),
    [.put (kvKey collection key) (encodeValue (freshDeadline now ttlMs 0) value)])

def kvInsert (store : Store) (now : UInt64) (collection : String) (key value : Bytes)
    (ttlMs : UInt64) : Planned :=
  if (visible now (store.get (kvKey collection key))).isSome then
    .error (.badRequest s!"unique_violation: key already exists in collection '{collection}'")
  else .ok (kvPut now collection key value ttlMs "INSERT")

def kvInsertIfAbsent (store : Store) (now : UInt64) (collection : String) (key value : Bytes)
    (ttlMs : UInt64) : Planned :=
  if (visible now (store.get (kvKey collection key))).isSome then
    .ok (.affected 0 (some "INSERT"), [])
  else .ok (kvPut now collection key value ttlMs "INSERT")

/-- `apply_patch`: the resolved assignments over the stored row. -/
def applyPatch (row : Row) (patch : List (String × Patch)) (excluded : Row) :
    Except LiteError Row :=
  if patch.isEmpty then .ok row
  else (W.resolveUpdates patch row excluded).map fun resolved =>
    resolved.foldl (fun r e => r.insert e.1 e.2) row

/-- The decoded entry a reader at `now` takes as present; a too short one counts as absent. -/
def liveDecoded (store : Store) (now : UInt64) (rkey : Bytes) : Option (UInt64 × Bytes) :=
  ((store.get rkey).bind decodeValue).filter (fun d => !isExpired now d.1)

def kvInsertOnConflictUpdate (store : Store) (now : UInt64) (collection : String)
    (key value : Bytes) (ttlMs : UInt64) (updates : List (String × Patch)) : Planned := do
  let rkey := kvKey collection key
  let some (oldDeadline, oldBody) := liveDecoded store now rkey
    | return kvPut now collection key value ttlMs "INSERT"
  let (map, shape) ← kvBodyColumns W oldBody
  let (excluded, _) ← kvBodyColumns W value
  let merged ← applyPatch W map updates excluded
  let newBody ← encodeKvBody W merged shape
  return (.affected 1 (some "UPDATE"),
    [.put rkey (encodeValue (freshDeadline now ttlMs oldDeadline) newBody)])

/-- `kv_delete` counts the keys it was given, present or not. -/
def kvDeleteKeys (collection : String) (keys : List Bytes) : QueryResult × List WriteOp :=
  (.affected keys.length (some "DELETE"), keys.map (fun k => .delete (kvKey collection k)))

def atomicError (collection : String) : AtomicComputeError → LiteError
  | .typeMismatch detail => .typeMismatch collection detail
  | .counter fault => .counterFault collection fault
  | .encode detail => .serialization detail

/-- The current body and deadline an atomic starts from. -/
def readCurrent (store : Store) (now : UInt64) (rkey : Bytes) :
    Except LiteError (Option Bytes × UInt64) :=
  (readLive store now rkey "corrupt KV entry").map fun live =>
    (live.map Prod.snd, live.elim 0 Prod.fst)

def kvIncr (store : Store) (now : UInt64) (collection : String) (key : Bytes) (delta : Int64)
    (ttlMs : UInt64) (shape : CounterShape) : Planned := do
  let rkey := kvKey collection key
  let (current, oldDeadline) ← readCurrent store now rkey
  let (value, written) ← (W.incr current delta shape).mapError (atomicError collection)
  return (⟨["value"], [[.integer value]], 1, none⟩,
    [.put rkey (encodeValue (freshDeadline now ttlMs oldDeadline) written)])

def kvIncrFloat (store : Store) (now : UInt64) (collection : String) (key : Bytes)
    (delta : String) (shape : CounterShape) : Planned := do
  let rkey := kvKey collection key
  let (current, oldDeadline) ← readCurrent store now rkey
  let (value, written) ← (W.incrFloat current delta shape).mapError (atomicError collection)
  return (⟨["value"], [[.float value]], 1, none⟩, [.put rkey (encodeValue oldDeadline written)])

def kvCas (store : Store) (now : UInt64) (collection : String) (key expected newValue : Bytes) :
    Planned := do
  let rkey := kvKey collection key
  let (current, oldDeadline) ← readCurrent store now rkey
  let (success, written) ← (W.cas current expected newValue).mapError (atomicError collection)
  return (⟨["success", "current_value"], [[.bool success, .bytes (current.getD [])]],
      if success then 1 else 0, none⟩,
    if success then [.put rkey (encodeValue oldDeadline written)] else [])

def kvGetSet (store : Store) (now : UInt64) (collection : String) (key newValue : Bytes) :
    Planned := do
  let rkey := kvKey collection key
  let (old, oldDeadline) ← readCurrent store now rkey
  let written ← (W.getset old newValue).mapError (atomicError collection)
  return (⟨["old_value"], [[old.elim .null .bytes]], 1, none⟩,
    [.put rkey (encodeValue oldDeadline written)])

/-- One field of a field set: empty bytes set `NULL`. -/
def fieldValue (field : String) (bytes : Bytes) : Except LiteError Value :=
  if bytes.isEmpty then .ok .null
  else (W.fieldFromMsgpack bytes).mapError fun e =>
    .serialization s!"field set '{field}': msgpack decode: {e}"

/-- `merge_field_updates`: an absent key starts from no columns. -/
def mergeFieldUpdates (collection : String) (current : Option Bytes)
    (updates : List (String × Bytes)) : Except LiteError Bytes := do
  let row ← match current with
    | none => pure .empty
    | some body => typedColumns W collection body "key"
  let merged ← updates.foldlM (fun (r : Row) u => do
    return r.insert u.1 (← fieldValue W u.1 u.2)) row
  encodeKvMap W merged

def kvFieldSet (store : Store) (now : UInt64) (collection : String) (key : Bytes)
    (updates : List (String × Bytes)) (ifPresent : Bool) : Planned := do
  let rkey := kvKey collection key
  let live ← readLive store now rkey "corrupt KV entry"
  if ifPresent && live.isNone then return (.affected 0 (some "UPDATE"), [])
  let newBody ← mergeFieldUpdates W collection (live.map Prod.snd) updates
  return (.affected 1 (some "UPDATE"), [.put rkey (encodeValue (live.elim 0 Prod.fst) newBody)])

/-- The shared body of `kv_expire` and `kv_persist`: rewrite a stored entry with a new
deadline. Neither looks at the deadline it replaces. -/
def rewriteDeadline (store : Store) (collection : String) (key : Bytes) (deadline : UInt64) :
    Planned :=
  let rkey := kvKey collection key
  match store.get rkey with
  | none => .ok (.affected 0 none, [])
  | some raw =>
    match decodeValue raw with
    | none => .error (.storage "corrupt KV entry")
    | some (_, body) => .ok (.affected 1 none, [.put rkey (encodeValue deadline body)])

def kvExpire (store : Store) (now : UInt64) (collection : String) (key : Bytes) (ttlMs : UInt64) :
    Planned :=
  rewriteDeadline store collection key (saturatingAdd now ttlMs)

def kvPersist (store : Store) (collection : String) (key : Bytes) : Planned :=
  rewriteDeadline store collection key 0

end NodedbLite.Kv
