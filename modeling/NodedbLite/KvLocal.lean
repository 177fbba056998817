import NodedbLite.KvScan

/-! The key-value state in front of storage: the write buffer with its read overlay and the
read cache, and the public operations that run over them one after another. -/

/-- A bounded least-recently-used cache as the list of its entries, most recent first. -/
structure LruCache (K V : Type*) where
  capacity : Nat
  entries : List (K × V)
  deriving DecidableEq, Repr

namespace LruCache

variable {K V : Type*} [DecidableEq K]

def peek (c : LruCache K V) (k : K) : Option V := c.entries.lookup k

/-- A hit moves the entry to the front. -/
def touch (c : LruCache K V) (k : K) : LruCache K V :=
  match c.peek k with
  | none => c
  | some v => { c with entries := (k, v) :: c.entries.filter (fun e => e.1 ≠ k) }

def put (c : LruCache K V) (k : K) (v : V) : LruCache K V :=
  { c with entries := ((k, v) :: c.entries.filter (fun e => e.1 ≠ k)).take c.capacity }

def pop (c : LruCache K V) (k : K) : LruCache K V :=
  { c with entries := c.entries.filter (fun e => e.1 ≠ k) }

end LruCache

namespace NodedbLite.Kv

def kvFlushThreshold : Nat := 1024

structure KvWriteBuffer where
  ops : List WriteOp
  overlay : SortedMap Bytes (Option Bytes)

/-- Storage's key-value namespace together with `KvLocalState`. -/
structure KvDb where
  storage : Store
  buf : KvWriteBuffer
  cache : LruCache Bytes Bytes

/-- One buffered write: overlay, pending operation and cache eviction. -/
def KvDb.bufferWrite (db : KvDb) (w : WriteOp) : KvDb :=
  { db with
    buf := { ops := db.buf.ops ++ [w], overlay := db.buf.overlay.insert w.key w.value }
    cache := db.cache.pop w.key }

/-- `flush_to`: take the buffered writes, clear the overlay, commit them as one batch. -/
def KvDb.flushTo (db : KvDb) : KvDb :=
  if db.buf.ops.isEmpty then db
  else { db with storage := db.storage.writeAll db.buf.ops, buf := ⟨[], .empty⟩ }

def KvDb.flushIfFull (db : KvDb) : KvDb :=
  if kvFlushThreshold ≤ db.buf.ops.length then db.flushTo else db

def kvBufferPut (db : KvDb) (collection : String) (key value : Bytes) (deadlineMs : UInt64) :
    KvDb :=
  (db.bufferWrite (.put (kvKey collection key) (encodeValue deadlineMs value))).flushIfFull

def kvLazyDelete (db : KvDb) (rkey : Bytes) : KvDb :=
  (db.bufferWrite (.delete rkey)).flushIfFull

/-- `kv_get`: the overlay, then the cache, then storage, with lazy expiry. -/
def kvGet (db : KvDb) (now : UInt64) (collection : String) (key : Bytes) :
    KvDb × Option Bytes :=
  let rkey := kvKey collection key
  match db.buf.overlay.get rkey with
  | some entry => (db, visible now entry)
  | none =>
    match (db.cache.peek rkey).bind (fun raw => visible now (some raw)) with
    | some body => ({ db with cache := db.cache.touch rkey }, some body)
    | none =>
      let db := { db with cache := db.cache.pop rkey }
      match db.storage.get rkey with
      | none => (db, none)
      | some raw =>
        match decodeValue raw with
        | none => (db, none)
        | some (deadline, body) =>
          if isExpired now deadline then (kvLazyDelete db rkey, none)
          else ({ db with cache := db.cache.put rkey raw }, some body)

end NodedbLite.Kv
