import NodedbLite.KvLocal

/-! A flush of the write buffer around its await. The buffered writes leave the buffer and the overlay
before storage is asked to commit them, and nothing puts them back when it fails. -/
namespace NodedbLite.Kv

open SortedMap

def KvDb.bufferAll (db : KvDb) (ops : List WriteOp) : KvDb := ops.foldl KvDb.bufferWrite db

/-- `flush_to` with the writes that other tasks buffer while it awaits the commit, and whether the
commit reached storage. -/
def KvDb.flushAwait (db : KvDb) (meanwhile : List WriteOp) (committed : Bool) : KvDb :=
  if db.buf.ops.isEmpty then db.bufferAll meanwhile
  else
    let taken := ({ db with buf := ⟨[], .empty⟩ } : KvDb).bufferAll meanwhile
    if committed then { taken with storage := taken.storage.writeAll db.buf.ops } else taken

section Buffer

variable (db : KvDb) (ops : List WriteOp)

lemma bufferAll_ops : (db.bufferAll ops).buf.ops = db.buf.ops ++ ops := by
  induction ops generalizing db with
  | nil => simp [KvDb.bufferAll]
  | cons w ops ih =>
    rw [KvDb.bufferAll, List.foldl_cons, ← KvDb.bufferAll, ih, KvDb.bufferWrite, List.append_assoc]
    rfl

lemma bufferAll_storage : (db.bufferAll ops).storage = db.storage := by
  induction ops generalizing db with
  | nil => rfl
  | cons w ops ih =>
    rw [KvDb.bufferAll, List.foldl_cons, ← KvDb.bufferAll, ih]
    rfl

lemma flushTo_storage : db.flushTo.storage = db.storage.writeAll db.buf.ops := by
  rw [KvDb.flushTo]
  split_ifs with hempty
  · rw [List.isEmpty_iff.mp hempty]
    rfl
  · rfl

end Buffer

/-- After a failed flush the buffered writes and the overlay are those before it and the writes made
meanwhile, reads see them, and the next flush stores them. -/
structure LosesNothing (db : KvDb) (meanwhile : List WriteOp) (after : KvDb) : Prop where
  buffered : after.buf = (db.bufferAll meanwhile).buf
  reads : ∀ now collection key,
    (kvGet after now collection key).2 = (kvGet (db.bufferAll meanwhile) now collection key).2
  stored : after.flushTo.storage = db.storage.writeAll (db.buf.ops ++ meanwhile)

/-- A failed flush loses nothing exactly if there was nothing to flush. -/
theorem failed_flush_keeps_writes_iff (db : KvDb) (meanwhile : List WriteOp) :
    LosesNothing db meanwhile (db.flushAwait meanwhile false) ↔ db.buf.ops = [] := by
  constructor
  · intro h
    by_contra hne
    have hops := congrArg KvWriteBuffer.ops h.buffered
    rw [KvDb.flushAwait, if_neg fun hempty => hne (List.isEmpty_iff.mp hempty),
      if_neg Bool.false_ne_true, bufferAll_ops, bufferAll_ops] at hops
    exact hne (List.self_eq_append_left.mp hops)
  · intro hops
    have hsame : db.flushAwait meanwhile false = db.bufferAll meanwhile :=
      if_pos (List.isEmpty_iff.mpr hops)
    rw [hsame]
    refine ⟨rfl, fun _ _ _ => rfl, ?_⟩
    rw [flushTo_storage, bufferAll_ops, bufferAll_storage]

/-- One put is buffered in an empty database. -/
def oneBuffered : KvDb :=
  kvBufferPut ⟨.empty, ⟨[], .empty⟩, ⟨8, []⟩⟩ "c" [1] [7] 0

theorem failed_flush_drops_put :
    (kvGet oneBuffered 0 "c" [1]).2 = some [7] ∧
      (kvGet (oneBuffered.flushAwait [] false) 0 "c" [1]).2 = none ∧
      ¬LosesNothing oneBuffered [] (oneBuffered.flushAwait [] false) := by
  refine ⟨by decide +kernel, by decide +kernel, fun h => ?_⟩
  have hops := congrArg (fun buf => buf.ops.length) h.buffered
  exact absurd hops (by decide +kernel)

end NodedbLite.Kv
