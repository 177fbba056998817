import NodedbLite.ArrayFlush

/-! Array ops between replicas (`sync/array`): how a received op is applied to the engine. The shared
crate's `apply_op` drives the replica through a few methods; it is a parameter with laws. -/
namespace NodedbLite.Arrays

/-- Physical milliseconds, logical counter and replica, ordered in this order. -/
abbrev Hlc := Nat ×ₗ Nat ×ₗ Nat

instance : DecidableEq Hlc := inferInstance

namespace Hlc

def mk (physicalMs logical replicaId : Nat) : Hlc := toLex (physicalMs, toLex (logical, replicaId))

def zero : Hlc := mk 0 0 0

end Hlc

inductive ArrayOpKind
  | put
  | delete
  | erase
  deriving DecidableEq, Repr

structure ArrayOp (Coord Attr : Type) where
  array : String
  hlc : Hlc
  schemaHlc : Hlc
  validFromMs : Int
  validUntilMs : Int
  systemFromMs : Int
  kind : ArrayOpKind
  coord : Coord
  attrs : Option (List Attr)
  deriving DecidableEq

inductive ApplyRejection
  | arrayUnknown
  | schemaTooNew
  deriving DecidableEq, Repr

inductive ApplyOutcome
  | applied
  | idempotent
  | rejected (reason : ApplyRejection)
  deriving DecidableEq, Repr

/-- A replica: its engine, the schema registry's HLCs, the op log, and the highest HLC applied by
array. -/
structure Replica (Coord Attr : Type) [LinearOrder Coord] where
  db : ArrayDb Coord Attr
  schemas : SortedMap String Hlc
  opLog : List (ArrayOp Coord Attr)
  lastApplied : SortedMap String Hlc

variable {Coord Attr : Type} [LinearOrder Coord]

def ArrayOp.cellWrite (op : ArrayOp Coord Attr) : CellWrite Coord Attr :=
  ⟨op.coord, op.attrs.getD [], op.systemFromMs, op.validFromMs, op.validUntilMs⟩

/-- The engine call an op stands for. -/
def ArrayDb.applyKind (env : ArrayEnv Coord Attr) (nowMs : Int) (db : ArrayDb Coord Attr)
    (op : ArrayOp Coord Attr) : Except LiteError Unit × ArrayDb Coord Attr :=
  match op.kind with
  | .put => db.putCell env nowMs op.array op.cellWrite
  | .delete => db.deleteCell op.array op.coord op.systemFromMs
  | .erase => db.gdprEraseCell env nowMs op.array op.coord op.systemFromMs

namespace Replica

/-- A scan of the op log from this HLC to it. -/
def alreadySeen (r : Replica Coord Attr) (array : String) (hlc : Hlc) : Bool :=
  r.opLog.any (fun op => op.array = array ∧ op.hlc = hlc)

/-- Advances, never steps back. -/
def recordAppliedHlc (r : Replica Coord Attr) (array : String) (hlc : Hlc) : Replica Coord Attr :=
  if (r.lastApplied.get array).getD Hlc.zero < hlc then
    { r with lastApplied := r.lastApplied.insert array hlc }
  else r

/-- The array is known, under a schema that is not older than the op's. -/
def knows (r : Replica Coord Attr) (op : ArrayOp Coord Attr) : Bool :=
  match r.schemas.get op.array with
  | none => false
  | some schemaHlc => op.schemaHlc ≤ schemaHlc

/-- `apply_put`, `apply_delete` and `apply_erase`: the engine call, and the op is logged when it
succeeds. `apply_delete` takes the engine's lock by `blocking_lock`, which panics in the runtime that
runs it; there is no result. -/
def applyMethod (env : ArrayEnv Coord Attr) (nowMs : Int) (r : Replica Coord Attr)
    (op : ArrayOp Coord Attr) : Option (Except LiteError Unit × Replica Coord Attr) :=
  if op.kind = .delete then none
  else
    match r.db.applyKind env nowMs op with
    | (.error e, db) => some (.error e, { r with db })
    | (.ok (), db) =>
      some (.ok (), { r with db, opLog := r.opLog ++ [op] }.recordAppliedHlc op.array op.hlc)

/-- A replica on an empty storage that has created one array without a retention policy. -/
def withNewArray (flushThreshold : Nat) (name : String) (schema : ArraySchema Coord)
    (schemaHlc : Hlc) : Replica Coord Attr where
  db := match (ArrayDb.init flushThreshold).createArray name schema none with
    | .ok db => db
    | .error _ => .init flushThreshold
  schemas := SortedMap.empty.insert name schemaHlc
  opLog := []
  lastApplied := .empty

@[simp] lemma recordAppliedHlc_db (r : Replica Coord Attr) (array : String) (hlc : Hlc) :
    (r.recordAppliedHlc array hlc).db = r.db := by
  unfold recordAppliedHlc
  split <;> rfl

@[simp] lemma recordAppliedHlc_opLog (r : Replica Coord Attr) (array : String) (hlc : Hlc) :
    (r.recordAppliedHlc array hlc).opLog = r.opLog := by
  unfold recordAppliedHlc
  split <;> rfl

lemma alreadySeen_iff {r : Replica Coord Attr} {array : String} {hlc : Hlc} :
    r.alreadySeen array hlc = true ↔ ∃ op ∈ r.opLog, op.array = array ∧ op.hlc = hlc := by
  unfold alreadySeen
  simp

lemma applyMethod_ok {env : ArrayEnv Coord Attr} {nowMs : Int} {r r' : Replica Coord Attr}
    {op : ArrayOp Coord Attr} (h : r.applyMethod env nowMs op = some (.ok (), r')) :
    (r.db.applyKind env nowMs op).1 = .ok () ∧ r'.db = (r.db.applyKind env nowMs op).2 ∧
      r'.opLog = r.opLog ++ [op] := by
  unfold applyMethod at h
  split at h
  next => cases h
  next =>
    cases happly : r.db.applyKind env nowMs op with
    | mk result db =>
      rw [happly] at h
      cases result with
      | error e => cases h
      | ok u =>
        obtain rfl := (Prod.ext_iff.mp (Option.some.inj h)).2
        exact ⟨rfl, recordAppliedHlc_db .., recordAppliedHlc_opLog ..⟩

end Replica

/-- The shared crate's `apply_op` on a replica; no result is a panic. An op of an unknown array, or
written under a newer schema than the replica has, is rejected, one that was seen before is left alone,
and any other goes to the method of its kind. -/
structure ApplyOp (Coord Attr : Type) [LinearOrder Coord] where
  run : ArrayEnv Coord Attr → Int → Replica Coord Attr → ArrayOp Coord Attr →
    Option (Except LiteError ApplyOutcome × Replica Coord Attr)
  rejects : ∀ env nowMs r op, r.knows op = false →
    ∃ reason, run env nowMs r op = some (.ok (.rejected reason), r)
  repeats : ∀ env nowMs r op, r.knows op = true → r.alreadySeen op.array op.hlc = true →
    run env nowMs r op = some (.ok .idempotent, r)
  applies : ∀ env nowMs r op, r.knows op = true → r.alreadySeen op.array op.hlc = false →
    run env nowMs r op = (r.applyMethod env nowMs op).map
      fun out => (out.1.map fun _ => .applied, out.2)

/-- A delivered op is applied, or was before; the replica's clock shows the time given. -/
def Replica.receive (A : ApplyOp Coord Attr) (env : ArrayEnv Coord Attr) (r : Replica Coord Attr)
    (delivery : Int × ArrayOp Coord Attr) : Option (Replica Coord Attr) :=
  match A.run env delivery.1 r delivery.2 with
  | some (.ok .applied, r') | some (.ok .idempotent, r') => some r'
  | _ => none

lemma Replica.receive_cases {A : ApplyOp Coord Attr} {env : ArrayEnv Coord Attr}
    {r r' : Replica Coord Attr} {nowMs : Int} {op : ArrayOp Coord Attr}
    (h : r.receive A env (nowMs, op) = some r') :
    (r' = r ∧ ∃ o ∈ r.opLog, o.hlc = op.hlc) ∨
    ((∀ o ∈ r.opLog, o.array = op.array → o.hlc ≠ op.hlc) ∧
      (r.db.applyKind env nowMs op).1 = .ok () ∧ r'.db = (r.db.applyKind env nowMs op).2 ∧
      r'.opLog = r.opLog ++ [op]) := by
  unfold receive at h
  dsimp only at h
  cases hknows : r.knows op with
  | false =>
    obtain ⟨reason, heq⟩ := A.rejects env nowMs r op hknows
    rw [heq] at h
    cases h
  | true =>
    cases hseen : r.alreadySeen op.array op.hlc with
    | true =>
      rw [A.repeats env nowMs r op hknows hseen] at h
      obtain ⟨o, ho, -, hhlc⟩ := alreadySeen_iff.mp hseen
      exact .inl ⟨(Option.some.inj h).symm, o, ho, hhlc⟩
    | false =>
      rw [A.applies env nowMs r op hknows hseen] at h
      cases hmethod : r.applyMethod env nowMs op with
      | none => simp [hmethod] at h
      | some out =>
        obtain ⟨result, after⟩ := out
        rw [hmethod] at h
        cases result with
        | error e => cases h
        | ok u =>
          obtain rfl := Option.some.inj h
          refine .inr ⟨fun o ho harray hhlc => ?_, applyMethod_ok hmethod⟩
          rw [alreadySeen_iff.mpr ⟨o, ho, harray, hhlc⟩] at hseen
          cases hseen

end NodedbLite.Arrays
