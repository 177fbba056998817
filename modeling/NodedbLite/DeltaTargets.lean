import NodedbLite.SortedMap

/-! The targets of the deltas in flight, which a rejection is reported against: a rejection itself only
carries the mutation id. -/
namespace NodedbLite.DeltaTargets

structure PendingDelta where
  mutationId : Nat
  collection : String
  documentId : String
  deltaBytes : List UInt8

def PendingDelta.target (delta : PendingDelta) : String × String :=
  (delta.collection, delta.documentId)

structure DeltaPushMsg where
  collection : String
  documentId : String
  delta : List UInt8
  peerId : Nat
  mutationId : Nat

inductive AckStatus
  | applied
  | duplicate
  | accepted
  | fenced
  | gap (expected : Nat)
  | rejected (reason : String)

/-- The statuses after which the delta leaves the queue. -/
def AckStatus.isTerminal : AckStatus → Bool
  | .applied | .duplicate | .rejected _ => true
  | .accepted | .fenced | .gap _ => false

structure CompensationEvent (Hint : Type*) where
  mutationId : Nat
  collection : String
  documentId : String
  hint : Hint

/-- What the sync task does and hears, with the batch size of the flow control at each push. -/
inductive Label (Hint : Type*)
  | push (batchLimit : Nat) (pending : List PendingDelta) (peerId : Nat)
  | deltaAck (mutationId : Nat) (status : AckStatus)
  | deltaReject (mutationId : Nat) (compensation : Option Hint)

/-- The calls of the dispatcher into the engine. -/
inductive DelegateCall (Hint : Type*)
  | acknowledge (mutationId : Nat)
  | rotatePeerId
  | rejectWithPolicy (mutationId : Nat) (hint : Hint)
  | reject (mutationId : Nat)

structure SyncClient where
  deltaTargets : SortedMap Nat (String × String)
  fenced : Bool

namespace SyncClient

variable {Hint : Type*}

def new : SyncClient := ⟨SortedMap.empty, false⟩

def buildDeltaPushes (c : SyncClient) (batchLimit : Nat) (pending : List PendingDelta) (peerId : Nat) :
    List DeltaPushMsg × SyncClient :=
  if batchLimit = 0 then ([], c)
  else
    let batch := pending.take batchLimit
    let deltaTargets := batch.foldl (fun targets delta => targets.insert delta.mutationId delta.target)
      c.deltaTargets
    (batch.map (fun delta =>
      ⟨delta.collection, delta.documentId, delta.deltaBytes, peerId, delta.mutationId⟩),
      { c with deltaTargets })

/-- The status is not looked at: the target goes with every acknowledgement. -/
def handleDeltaAck (c : SyncClient) (mutationId : Nat) : SyncClient :=
  { c with deltaTargets := c.deltaTargets.erase mutationId }

def handleDeltaReject (c : SyncClient) (mutationId : Nat) (compensation : Option Hint) :
    Option (CompensationEvent Hint) × SyncClient :=
  let (collection, documentId) := (c.deltaTargets.get mutationId).getD ("", "")
  (compensation.map (fun hint => ⟨mutationId, collection, documentId, hint⟩),
    { c with deltaTargets := c.deltaTargets.erase mutationId })

/-- One step with its engine calls and the event dispatched, as in the dispatcher. -/
def step (isPeerIdCollision : Hint → Bool) (c : SyncClient) :
    Label Hint → List (DelegateCall Hint) × Option (CompensationEvent Hint) × SyncClient
  | .push batchLimit pending peerId => ([], none, (c.buildDeltaPushes batchLimit pending peerId).2)
  | .deltaAck mutationId status =>
    let c := c.handleDeltaAck mutationId
    match status with
    | .applied | .duplicate | .rejected _ => ([.acknowledge mutationId], none, c)
    | .accepted | .gap _ => ([], none, c)
    | .fenced => ([], none, { c with fenced := true })
  | .deltaReject mutationId compensation =>
    let calls := match compensation with
      | some hint =>
        if isPeerIdCollision hint then [.rotatePeerId] else [.rejectWithPolicy mutationId hint]
      | none => [.reject mutationId]
    (calls, c.handleDeltaReject mutationId compensation)

/-- The client after a history, whose newest step comes first. -/
def after (isPeerIdCollision : Hint → Bool) (history : List (Label Hint)) : SyncClient :=
  history.foldr (fun label c => (c.step isPeerIdCollision label).2.2) new

end SyncClient

section Histories

variable {Hint : Type*} (batchLimit : Nat) (pending : List PendingDelta) (mutationId : Nat)

/-- The row a push sends a mutation for. -/
def pushedRow : Option (String × String) :=
  ((pending.take batchLimit).reverse.find? (fun delta => delta.mutationId = mutationId)).map
    PendingDelta.target

/-- The row of a mutation that was pushed and since then neither acknowledged with a terminal status
nor rejected. -/
def outstandingRow : List (Label Hint) → Option (String × String)
  | [] => none
  | .push batchLimit pending _ :: history =>
    (pushedRow batchLimit pending mutationId).or (outstandingRow history)
  | .deltaAck acked status :: history =>
    if acked = mutationId ∧ status.isTerminal then none else outstandingRow history
  | .deltaReject rejected _ :: history => if rejected = mutationId then none else outstandingRow history

/-- The last push of the mutation was answered by an acknowledgement that does not end it. -/
def answeredProvisionally : List (Label Hint) → Bool
  | [] => false
  | .push batchLimit pending _ :: history =>
    (pushedRow batchLimit pending mutationId).isNone && answeredProvisionally history
  | .deltaAck acked status :: history =>
    if acked = mutationId then !status.isTerminal else answeredProvisionally history
  | .deltaReject rejected _ :: history => rejected ≠ mutationId && answeredProvisionally history

end Histories

namespace SyncClient

variable {Hint : Type*} {isPeerIdCollision : Hint → Bool} {mutationId : Nat}

lemma get_foldl_insert_target (batch : List PendingDelta) (targets : SortedMap Nat (String × String)) :
    (batch.foldl (fun targets delta => targets.insert delta.mutationId delta.target) targets).get
        mutationId =
      ((batch.reverse.find? (fun delta => delta.mutationId = mutationId)).map
        PendingDelta.target).or (targets.get mutationId) := by
  induction batch using List.reverseRecOn with
  | nil => rfl
  | append_singleton batch delta ih =>
    rw [List.foldl_append, List.foldl_cons, List.foldl_nil, SortedMap.get_insert, ih,
      List.reverse_append, List.reverse_singleton, List.singleton_append, List.find?_cons]
    by_cases hid : delta.mutationId = mutationId
    · rw [if_pos hid.symm, decide_eq_true hid]
      rfl
    · rw [if_neg (Ne.symm hid), decide_eq_false hid]

lemma get_buildDeltaPushes (c : SyncClient) (batchLimit : Nat) (pending : List PendingDelta)
    (peerId : Nat) :
    (c.buildDeltaPushes batchLimit pending peerId).2.deltaTargets.get mutationId =
      (pushedRow batchLimit pending mutationId).or (c.deltaTargets.get mutationId) := by
  rw [buildDeltaPushes]
  split_ifs with hlimit
  · rw [pushedRow, hlimit]
    rfl
  · exact get_foldl_insert_target _ _

lemma step_deltaAck_targets (c : SyncClient) (acked : Nat) (status : AckStatus) :
    (c.step isPeerIdCollision (.deltaAck acked status)).2.2.deltaTargets =
      c.deltaTargets.erase acked := by
  cases status <;> rfl

/-- The map holds the outstanding rows, except those answered provisionally. -/
lemma get_deltaTargets_after (isPeerIdCollision : Hint → Bool) (mutationId : Nat)
    (history : List (Label Hint)) :
    (after isPeerIdCollision history).deltaTargets.get mutationId =
      if answeredProvisionally mutationId history then none
      else outstandingRow mutationId history := by
  induction history with
  | nil => rfl
  | cons label history ih =>
    cases label with
    | push batchLimit pending peerId =>
      refine (get_buildDeltaPushes _ batchLimit pending peerId).trans ?_
      change (pushedRow batchLimit pending mutationId).or
        ((after isPeerIdCollision history).deltaTargets.get mutationId) = _
      rw [ih, answeredProvisionally, outstandingRow]
      cases pushedRow batchLimit pending mutationId <;> rfl
    | deltaAck acked status =>
      change ((after isPeerIdCollision history).step isPeerIdCollision
        (.deltaAck acked status)).2.2.deltaTargets.get mutationId = _
      rw [step_deltaAck_targets, SortedMap.get_erase, ih, answeredProvisionally, outstandingRow]
      by_cases hid : acked = mutationId
      · rw [if_pos hid.symm, if_pos hid]
        cases status.isTerminal <;> simp [hid]
      · have hnot : ¬ (acked = mutationId ∧ status.isTerminal = true) := fun hand => hid hand.1
        rw [if_neg (Ne.symm hid), if_neg hid, if_neg hnot]
    | deltaReject rejected compensation =>
      change ((after isPeerIdCollision history).deltaTargets.erase rejected).get mutationId = _
      rw [SortedMap.get_erase, ih, answeredProvisionally, outstandingRow]
      by_cases hid : rejected = mutationId
      · simp [hid]
      · simp [hid, Ne.symm hid]

/-- A rejection of an outstanding mutation is reported with the mutation's row unless its last push was
answered provisionally. -/
theorem rejection_names_row_iff (history : List (Label Hint)) {row : String × String}
    (hrow : outstandingRow mutationId history = some row) (hint : Hint) :
    (∃ event, ((after isPeerIdCollision history).step isPeerIdCollision
        (.deltaReject mutationId (some hint))).2.1 = some event ∧ event.mutationId = mutationId ∧
        event.hint = hint ∧ (event.collection, event.documentId) = row) ↔
      answeredProvisionally mutationId history = false ∨ row = ("", "") := by
  have htarget := get_deltaTargets_after isPeerIdCollision mutationId history
  have hevent : ((after isPeerIdCollision history).step isPeerIdCollision
      (.deltaReject mutationId (some hint))).2.1 = some ⟨mutationId,
        (((after isPeerIdCollision history).deltaTargets.get mutationId).getD ("", "")).1,
        (((after isPeerIdCollision history).deltaTargets.get mutationId).getD ("", "")).2, hint⟩ := rfl
  rw [hevent, htarget, hrow]
  constructor
  · rintro ⟨event, hsome, -, -, hnames⟩
    obtain rfl := Option.some.inj hsome
    cases hprov : answeredProvisionally mutationId history with
    | false => exact .inl rfl
    | true =>
      rw [hprov] at hnames
      exact .inr hnames.symm
  · intro hcond
    refine ⟨_, rfl, rfl, rfl, ?_⟩
    rcases hcond with hprov | rfl
    · rw [hprov]
      rfl
    · split_ifs <;> rfl

def someDelta : PendingDelta := ⟨7, "notes", "a", []⟩

theorem rejection_names_row_repushed :
    ∃ event, ((after (fun _ : String => false)
        [.push 1 [someDelta] 1, .deltaAck 7 (.gap 3), .push 1 [someDelta] 1]).step (fun _ => false)
        (.deltaReject 7 (some "unique"))).2.1 = some event ∧ event.mutationId = 7 ∧
        event.hint = "unique" ∧ (event.collection, event.documentId) = ("notes", "a") :=
  (rejection_names_row_iff _ rfl "unique").mpr (.inl rfl)

/-- After the provisional acknowledgement the rejection names no row. -/
theorem accepted_then_rejected_names_no_row :
    outstandingRow 7 ([.deltaAck 7 .accepted, .push 1 [someDelta] 1] : List (Label String)) =
        some ("notes", "a") ∧
      ((after (fun _ : String => false) [.deltaAck 7 .accepted, .push 1 [someDelta] 1]).step
        (fun _ => false) (.deltaReject 7 (some "unique"))).2.1 = some ⟨7, "", "", "unique"⟩ :=
  ⟨rfl, rfl⟩

end SyncClient

end NodedbLite.DeltaTargets
