import NodedbLite.CappedOutput
import NodedbLite.GuardedRun
import NodedbLite.OutboundFifo

/-! The outbound queue of KV writes (`sync/outbound/kv.rs`): a durable queue, with the batch ids that
were sent and are not acknowledged yet. A drain passes over these. -/
namespace NodedbLite.Outbound

open GuardedRun Fifo

/-- The batch id of an entry is its key read as a number. -/
def kvBatchId (key : Bytes) : Option Nat :=
  if key.length = 8 then some (Bytes.toNatBE key) else none

/-- The loop of `drain`; a key that is no id is an error. -/
def skipInFlight (inFlight : List Nat) : List (Bytes × Pending) → Option (List (Bytes × Pending))
  | [] => some []
  | (key, e) :: pairs =>
    match kvBatchId key, skipInFlight inFlight pairs with
    | some id, some out => some (if id ∈ inFlight then out else (key, e) :: out)
    | _, _ => none

structure KvOutbound where
  durable : State
  inFlight : List Nat

inductive KvLabel
  /-- A call of the queue below. -/
  | queue (label : Label)
  | markInFlight (id : Nat)
  /-- The entry is forgotten, and its deletion succeeds or fails. -/
  | retire (id : Nat) (ok : Bool)
  | clearInFlight

namespace KvOutbound

variable (q : KvOutbound)

def opened : KvOutbound := ⟨State.opened, []⟩

/-- The limit is on the entries read, in flight or not. -/
def drain (limit : Nat) : Option (List (Bytes × Pending)) :=
  skipInFlight q.inFlight (q.durable.queue.drainBatch limit)

def markInFlight (id : Nat) : KvOutbound := { q with inFlight := q.inFlight.insert id }

def retire (id : Nat) (ok : Bool) : KvOutbound where
  durable := if ok then q.durable.ackKeys [id] else q.durable
  inFlight := q.inFlight.filter (· ≠ id)

def clearInFlight : KvOutbound := { q with inFlight := [] }

/-- What is in flight is not stored, so a reopening forgets it. -/
def inFlightAfter : Label → List Nat
  | .reopen => []
  | _ => q.inFlight

def next (cap : Nat) : KvLabel → Option KvOutbound
  | .queue label =>
    (q.durable.next cap label).map (fun durable => ⟨durable, q.inFlightAfter label⟩)
  | .markInFlight id => some (q.markInFlight id)
  | .retire id ok => if id < 2 ^ 64 then some (q.retire id ok) else none
  | .clearInFlight => some q.clearInFlight

/-- A reopening finds the entry of the last id assigned still stored. -/
def KeepsCounter : KvLabel → Prop
  | .queue label => q.durable.KeepsCounter label
  | _ => True

/-- The entries that are stored and not acknowledged, oldest first. -/
def pending : List Record := q.durable.log.filter Record.live

/-- Those of them that are not in flight. -/
def waiting : List Record := q.pending.filter (fun r => r.id ∉ q.inFlight)

variable {q} {cap : Nat}

lemma next_queue {label : Label} {t : KvOutbound} (ht : q.next cap (.queue label) = some t) :
    q.durable.next cap label = some t.durable := by
  obtain ⟨durable, hnext, rfl⟩ := Option.map_eq_some_iff.mp ht
  exact hnext

lemma inv_next (h : q.durable.Inv cap) {label : KvLabel} (hgood : q.KeepsCounter label)
    {t : KvOutbound} (ht : q.next cap label = some t) : t.durable.Inv cap := by
  cases label with
  | queue label => exact h.next hgood (next_queue ht)
  | markInFlight id =>
    obtain rfl := Option.some.inj ht
    exact h
  | retire id ok =>
    obtain ⟨hid, ht⟩ := Option.ite_none_right_eq_some.mp ht
    obtain rfl := Option.some.inj ht
    cases ok with
    | false => exact h
    | true => exact h.ackKeys (by simpa using hid)
  | clearInFlight =>
    obtain rfl := Option.some.inj ht
    exact h

lemma kvBatchId_keyOf {id : Nat} (h : id < 2 ^ 64) : kvBatchId (DurableQueue.keyOf id) = some id := by
  have hlen : (DurableQueue.keyOf id).length = 8 := Bytes.length_ofNatBE 8 id
  rw [kvBatchId, if_pos hlen, DurableQueue.toNatBE_keyOf h]

lemma skipInFlight_map {records : List Record} (h : ∀ r ∈ records, r.id < 2 ^ 64)
    (inFlight : List Nat) : skipInFlight inFlight (records.map Record.pair) =
      some ((records.filter (fun r => r.id ∉ inFlight)).map Record.pair) := by
  induction records with
  | nil => rfl
  | cons r records ih =>
    rw [List.forall_mem_cons] at h
    simp only [List.map_cons, Record.pair, skipInFlight, kvBatchId_keyOf h.1, ih h.2]
    by_cases hmem : r.id ∈ inFlight <;> simp [hmem, Record.pair]

lemma drain_eq (h : q.durable.Inv cap) (limit : Nat) : q.drain limit =
    some (((q.pending.take limit).filter (fun r => r.id ∉ q.inFlight)).map Record.pair) := by
  rw [drain, DurableQueue.drainBatch, h.entries_eq, ← List.map_take]
  refine skipInFlight_map (fun r hr => ?_) _
  exact (h.id_lt (List.mem_of_mem_filter (List.mem_of_mem_take hr))).trans h.counter

lemma map_pair_inj (h : q.durable.Inv cap) {a b : List Record} (ha : ∀ r ∈ a, r ∈ q.durable.log)
    (hb : ∀ r ∈ b, r ∈ q.durable.log) (heq : a.map Record.pair = b.map Record.pair) : a = b := by
  induction a generalizing b with
  | nil => exact (List.map_eq_nil_iff.mp heq.symm).symm
  | cons r a ih =>
    cases b with
    | nil => cases heq
    | cons r' b =>
      obtain ⟨hpair, hrest⟩ := List.cons.inj heq
      rw [List.forall_mem_cons] at ha hb
      have hid := DurableQueue.keyOf_inj ((h.id_lt ha.1).trans h.counter)
        ((h.id_lt hb.1).trans h.counter) (congrArg Prod.fst hpair)
      rw [h.eq_of_id ha.1 hb.1 hid, ih ha.2 hb.2 hrest]

/-- A drain gives the first entries that wait exactly if nothing it reads is in flight, or everything
behind what it reads is. -/
lemma drain_eq_waiting_iff (h : q.durable.Inv cap) (limit : Nat) :
    q.drain limit = some ((q.waiting.take limit).map Record.pair) ↔
      (∀ r ∈ q.pending.take limit, r.id ∉ q.inFlight) ∨
        ∀ r ∈ q.pending.drop limit, r.id ∈ q.inFlight := by
  have hlists : ((q.pending.take limit).filter (fun r => r.id ∉ q.inFlight)).map Record.pair =
      (q.waiting.take limit).map Record.pair ↔
      (q.pending.take limit).filter (fun r => r.id ∉ q.inFlight) = q.waiting.take limit := by
    refine ⟨map_pair_inj h (fun r hr => ?_) (fun r hr => ?_), congrArg _⟩
    · exact List.mem_of_mem_filter (List.mem_of_mem_take (List.mem_of_mem_filter hr))
    · exact List.mem_of_mem_filter (List.mem_of_mem_filter (List.mem_of_mem_take hr))
  rw [drain_eq h, Option.some.injEq, hlists, waiting, CappedOutput.filter_take_eq_iff]
  simp

end KvOutbound

open KvOutbound

/-- In every run in which a reopening finds the entry of the last id still stored, the queue is a FIFO
within its cap whose ids are assigned once; any other reopening would assign an old id next. A drain of
KV writes is a drain of the queue without what is in flight. -/
theorem outbound_queue_is_fifo (cap : Nat) {q : KvOutbound}
    (h : Reaches (fun q label => q.next cap label) KvOutbound.KeepsCounter opened q) :
    q.durable.IsFifo cap ∧
    (∀ limit, q.drain limit =
      some (((q.pending.take limit).filter (fun r => r.id ∉ q.inFlight)).map Record.pair)) ∧
    (∀ limit, q.drain limit = some ((q.waiting.take limit).map Record.pair) ↔
      (∀ r ∈ q.pending.take limit, r.id ∉ q.inFlight) ∨
        ∀ r ∈ q.pending.drop limit, r.id ∈ q.inFlight) ∧
    ∀ t, q.next cap (.queue .reopen) = some t → ¬q.KeepsCounter (.queue .reopen) →
      t.durable.queue.nextId ∈ q.durable.log.map Record.id := by
  have hq : q.durable.Inv cap := @Reaches.invariant _ _ _ _ _
    (fun q : KvOutbound => q.durable.Inv cap) (State.inv_opened cap)
    (fun _ _ _ hinv hgood hnext => inv_next hinv hgood hnext) q h
  refine ⟨hq.isFifo, drain_eq hq, drain_eq_waiting_iff hq, fun t ht hgood => ?_⟩
  obtain ⟨nextId, hnext, hstate⟩ := Option.map_eq_some_iff.mp (next_queue ht)
  rw [← hstate]
  refine hq.recovered_assigned hnext (fun heq => hgood ?_)
  exact hnext.trans (congrArg some heq)

def someEntry : Pending := ⟨1, "notes", .kvWrite [1] .delete, 0⟩

/-- Three entries. The oldest is sent and acknowledged before the reopening, the second sent after it. -/
def olderAcked : List KvLabel :=
  [.queue (.enqueue someEntry true), .queue (.enqueue someEntry true), .markInFlight 1,
    .retire 1 true, .queue .reopen, .queue (.enqueue someEntry true), .markInFlight 2]

theorem outbound_queue_is_fifo_older_acked :
    ∃ q, runAll (fun q label => KvOutbound.next q 2 label) opened olderAcked = some q ∧
      q.durable.log.map Record.id = [1, 2, 3] ∧ q.durable.IsFifo 2 ∧
      q.drain 2 = some (q.waiting.map Record.pair) ∧ q.waiting.map Record.id = [3] := by
  have hgood : GoodAll (fun q label => KvOutbound.next q 2 label) KvOutbound.KeepsCounter opened
      olderAcked := by
    refine ⟨trivial, ?_⟩
    rintro t ⟨⟩
    refine ⟨trivial, ?_⟩
    rintro t ⟨⟩
    refine ⟨trivial, ?_⟩
    rintro t ⟨⟩
    refine ⟨trivial, ?_⟩
    rintro t ⟨⟩
    refine ⟨rfl, ?_⟩
    rintro t ⟨⟩
    refine ⟨trivial, ?_⟩
    rintro t ⟨⟩
    exact ⟨trivial, fun _ _ => trivial⟩
  obtain ⟨hfifo, -, hdrain, -⟩ := outbound_queue_is_fifo 2 (.of_runAll hgood rfl)
  refine ⟨_, rfl, rfl, hfifo, (hdrain 2).mpr (.inr ?_), rfl⟩
  decide

/-- With the newest entry acknowledged before a reopening, the next one gets its id. With the first of
two entries in flight, a drain of one gives nothing, and the second waits. -/
theorem acked_id_assigned_again :
    (∃ q, runAll (fun q label => KvOutbound.next q 2 label) opened
        [.queue (.enqueue someEntry true), .queue (.ackKeys [1]), .queue .reopen,
          .queue (.enqueue someEntry true)] = some q ∧
      ¬q.durable.IsFifo 2) ∧
    ∃ q, runAll (fun q label => KvOutbound.next q 2 label) opened
        [.queue (.enqueue someEntry true), .queue (.enqueue someEntry true),
          .markInFlight 1] = some q ∧
      q.drain 1 = some [] ∧ q.waiting.map Record.id = [2] := by
  refine ⟨⟨_, rfl, fun h => ?_⟩, _, rfl, rfl, rfl⟩
  have hids := h.ids
  revert hids
  decide

end NodedbLite.Outbound
