import NodedbLite.QueryValue
import NodedbLite.StreamSeq

/-! A durable outbound queue: numbered entries in storage. -/
namespace NodedbLite.Outbound

open Sync

inductive PendingKvOp
  | put (row : Bytes) (expireAtMs : Nat)
  | delete

/-- What an entry carries besides its collection; vector components are `f32` bit patterns. -/
inductive Body
  | columnarRows (rows : List (List Query.Value)) (schemaBytes : Bytes)
  | vectorInsert (id : String) (vector : List UInt32) (dim : Nat) (fieldName : String)
  | vectorDelete (id : String) (fieldName : String)
  | ftsIndex (docId : String) (fields : List (String × String))
  | ftsDelete (docId : String)
  | spatialInsert (field docId : String) (geometryBytes : Bytes)
  | spatialDelete (field docId : String)
  | timeseriesRows (columnNames : List String) (rows : List (List Query.Value))
  | kvWrite (key : Bytes) (op : PendingKvOp)

/-- A queued entry; `seq` is 0 until the first drain assigns one. The batch id of a KV write is
its key read as a number, which is what the field holds there. -/
structure Pending where
  batchId : Nat
  collection : String
  body : Body
  seq : Nat

structure DurableQueue where
  store : SortedMap Bytes Pending
  nextId : Nat

namespace DurableQueue

def keyOf (id : Nat) : Bytes := Bytes.ofNatBE 8 id

/-- One more than the last key, 1 for an empty queue. -/
def recoverNextId (store : SortedMap Bytes Pending) : Option Nat :=
  match store.entries.getLast? with
  | none => some 1
  | some (key, _) =>
    if key.length = 8 then
      if Bytes.toNatBE key + 1 < 2 ^ 64 then some (Bytes.toNatBE key + 1) else none
    else some 1

def reserveKey (q : DurableQueue) : Option (Bytes × DurableQueue) :=
  if q.nextId + 1 < 2 ^ 64 then some (keyOf q.nextId, { q with nextId := q.nextId + 1 }) else none

def hasRoom (q : DurableQueue) (cap : Nat) : Bool := q.store.entries.length + 1 ≤ cap

def drainBatch (q : DurableQueue) (limit : Nat) : List (Bytes × Pending) :=
  q.store.entries.take limit

def ackKey (q : DurableQueue) (key : Bytes) : DurableQueue := { q with store := q.store.erase key }

def updateEntry (q : DurableQueue) (key : Bytes) (e : Pending) : DurableQueue :=
  { q with store := q.store.insert key e }

lemma keyOf_inj {a b : Nat} (ha : a < 2 ^ 64) (hb : b < 2 ^ 64)
    (h : keyOf a = keyOf b) : a = b := by
  have hpow : (256 : Nat) ^ 8 = 2 ^ 64 := by norm_num
  have hnum := congrArg Bytes.toNatBE h
  rw [keyOf, keyOf, Bytes.toNatBE_ofNatBE, Bytes.toNatBE_ofNatBE, hpow,
    Nat.mod_eq_of_lt ha, Nat.mod_eq_of_lt hb] at hnum
  exact hnum

lemma toNatBE_keyOf {n : Nat} (h : n < 2 ^ 64) : Bytes.toNatBE (keyOf n) = n := by
  have hpow : (256 : Nat) ^ 8 = 2 ^ 64 := by norm_num
  rw [keyOf, Bytes.toNatBE_ofNatBE, hpow, Nat.mod_eq_of_lt h]

lemma keyOf_lt_keyOf {a b : Nat} (hab : a < b) (hb : b < 2 ^ 64) :
    keyOf a < keyOf b :=
  Bytes.ofNatBE_lt_ofNatBE hab (hb.trans_eq (by norm_num))

lemma reserveKey_eq_some {q reserved : DurableQueue} {key : Bytes}
    (h : q.reserveKey = some (key, reserved)) :
    q.nextId + 1 < 2 ^ 64 ∧ key = keyOf q.nextId ∧
      reserved = ⟨q.store, q.nextId + 1⟩ := by
  obtain ⟨hroom, heq⟩ := Option.ite_none_right_eq_some.mp h
  obtain ⟨rfl, rfl⟩ := Prod.mk.inj (Option.some.inj heq)
  exact ⟨hroom, rfl, rfl⟩

lemma get_foldl_ackKey (keys : List Bytes) (queue : DurableQueue) (key : Bytes) :
    (keys.foldl ackKey queue).store.get key =
      if key ∈ keys then none else queue.store.get key := by
  induction keys generalizing queue with
  | nil => rfl
  | cons k keys ih =>
    rw [List.foldl_cons, ih, ackKey, SortedMap.get_erase]
    by_cases hk : key = k
    · simp [hk]
    · simp [hk]

lemma nextId_foldl_ackKey (keys : List Bytes) (queue : DurableQueue) :
    (keys.foldl ackKey queue).nextId = queue.nextId := by
  induction keys generalizing queue with
  | nil => rfl
  | cons k keys ih => exact ih _

end DurableQueue

end NodedbLite.Outbound
