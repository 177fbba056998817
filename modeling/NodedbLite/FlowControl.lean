import NodedbLite.GuardedRun
import NodedbLite.SortedMap

/-! Flow control of the delta push: a window of unacknowledged mutations and a batch size that grows
with acknowledgements and halves with losses. Times are nanoseconds, sizes are `usize`. -/
namespace NodedbLite.Flow

open GuardedRun

structure FlowControlConfig where
  maxInFlight : Nat
  minBatchSize : Nat
  maxBatchSize : Nat
  initialBatchSize : Nat

/-- The floating-point arithmetic of the round-trip average, in milliseconds. -/
structure RttApi (Rtt : Type) where
  zero : Rtt
  isZero : Rtt → Bool
  ofMillis : Nat → Rtt
  toMillis : Rtt → Nat
  /-- Seven eighths of the average and one of the sample. -/
  smooth : Rtt → Rtt → Rtt

structure FlowController (Rtt : Type) where
  config : FlowControlConfig
  inFlight : SortedMap Nat Nat
  emaRttMs : Rtt
  currentBatchSize : Nat
  consecutiveAcks : Nat

namespace FlowController

variable {Rtt : Type} (A : RttApi Rtt) (f : FlowController Rtt)

def new (config : FlowControlConfig) : FlowController Rtt :=
  ⟨config, SortedMap.empty, A.zero, config.initialBatchSize, 0⟩

def inFlightCount : Nat := f.inFlight.entries.length

def nextBatchSize : Nat := min f.currentBatchSize (f.config.maxInFlight - f.inFlightCount)

def recordPush (mutationIds : List Nat) (now : Nat) : FlowController Rtt :=
  { f with inFlight := mutationIds.foldl (fun m mutationId => m.insert mutationId now) f.inFlight }

/-- The additive increase, after every eighth acknowledgement. -/
def countAck : FlowController Rtt :=
  if 8 ≤ f.consecutiveAcks + 1 then
    { f with
      consecutiveAcks := 0
      currentBatchSize := min ((f.currentBatchSize + 1) % 2 ^ 64) f.config.maxBatchSize }
  else { f with consecutiveAcks := f.consecutiveAcks + 1 }

/-- Only the acknowledgement of a mutation in flight counts. -/
def recordAck (mutationId now : Nat) : Option Nat × FlowController Rtt :=
  match f.inFlight.get mutationId with
  | none => (none, f)
  | some sentAt =>
    let rttMs := A.ofMillis ((now - sentAt) / 10 ^ 6)
    (some (A.toMillis rttMs), countAck
      { f with
        inFlight := f.inFlight.erase mutationId
        emaRttMs := if A.isZero f.emaRttMs then rttMs else A.smooth f.emaRttMs rttMs })

/-- The multiplicative decrease. -/
def decrease : FlowController Rtt :=
  { f with
    consecutiveAcks := 0
    currentBatchSize := max (f.currentBatchSize / 2) f.config.minBatchSize }

/-- The decrease does not ask whether the mutation was in flight. -/
def recordReject (mutationId : Nat) : FlowController Rtt :=
  decrease { f with inFlight := f.inFlight.erase mutationId }

def cleanupStale (now timeout : Nat) : Nat × FlowController Rtt :=
  let kept := f.inFlight.filter (fun _ sentAt => now - sentAt < timeout)
  let cleaned := f.inFlightCount - kept.entries.length
  (cleaned, if 0 < cleaned then decrease { f with inFlight := kept } else { f with inFlight := kept })

def reset : FlowController Rtt :=
  { f with
    inFlight := SortedMap.empty
    consecutiveAcks := 0 }

end FlowController

/-- The controller with the limit of the push under way: `build_delta_pushes` reads it, the frames go
out, `record_push` follows. -/
structure PushState (Rtt : Type) where
  flow : FlowController Rtt
  limit : Option Nat

inductive Label
  | build
  | record (mutationIds : List Nat) (now : Nat)
  | ack (mutationId now : Nat)
  | reject (mutationId : Nat)
  | cleanupStale (now timeout : Nat)
  | reset

namespace PushState

variable {Rtt : Type} (A : RttApi Rtt) (s : PushState Rtt)

def new (config : FlowControlConfig) : PushState Rtt := ⟨.new A config, none⟩

/-- At most as many mutations are recorded as the push was built for; anything may happen between. -/
def step : Label → Option (PushState Rtt)
  | .build => some { s with limit := some s.flow.nextBatchSize }
  | .record mutationIds now =>
    match s.limit with
    | some limit =>
      if mutationIds.length ≤ limit then some ⟨s.flow.recordPush mutationIds now, none⟩ else none
    | none => none
  | .ack mutationId now => some { s with flow := (s.flow.recordAck A mutationId now).2 }
  | .reject mutationId => some { s with flow := s.flow.recordReject mutationId }
  | .cleanupStale now timeout => some { s with flow := (s.flow.cleanupStale now timeout).2 }
  | .reset => some { s with flow := s.flow.reset }

end PushState

section Window

variable {Rtt : Type} {A : RttApi Rtt} {f : FlowController Rtt} {config : FlowControlConfig}

lemma length_foldl_insert_le (mutationIds : List Nat) (now : Nat) (m : SortedMap Nat Nat) :
    (mutationIds.foldl (fun m mutationId => m.insert mutationId now) m).entries.length ≤
      m.entries.length + mutationIds.length := by
  induction mutationIds generalizing m with
  | nil => rfl
  | cons mutationId mutationIds ih =>
    have hperm := (m.entries_insert_perm mutationId now).length_eq
    have herase : (m.erase mutationId).entries.length ≤ m.entries.length := List.length_filter_le ..
    have hrest := ih (m.insert mutationId now)
    rw [List.length_cons] at hperm
    rw [List.foldl_cons, List.length_cons]
    omega

/-- The batch size lies between its bounds. -/
structure BatchOk (config : FlowControlConfig) (f : FlowController Rtt) : Prop where
  config_eq : f.config = config
  min_le : config.minBatchSize ≤ f.currentBatchSize
  le_max : f.currentBatchSize ≤ config.maxBatchSize

lemma BatchOk.countAck (h : BatchOk config f)
    (hgrows : 7 ≤ f.consecutiveAcks → f.currentBatchSize + 1 < 2 ^ 64) : BatchOk config f.countAck := by
  have hmin := h.min_le
  have hmax := h.le_max
  rw [FlowController.countAck]
  split_ifs with height
  · refine ⟨h.config_eq, ?_, ?_⟩
    · rw [h.config_eq, Nat.mod_eq_of_lt (hgrows (by omega))]
      exact le_min (by omega) (by omega)
    · rw [h.config_eq]
      exact min_le_right ..
  · exact ⟨h.config_eq, hmin, hmax⟩

lemma BatchOk.decrease (h : BatchOk config f) : BatchOk config f.decrease := by
  have hmin := h.min_le
  have hmax := h.le_max
  refine ⟨h.config_eq, ?_, ?_⟩
  · change config.minBatchSize ≤ max (f.currentBatchSize / 2) f.config.minBatchSize
    rw [h.config_eq]
    exact le_max_right ..
  · change max (f.currentBatchSize / 2) f.config.minBatchSize ≤ config.maxBatchSize
    rw [h.config_eq]
    exact max_le (by omega) (by omega)

lemma BatchOk.with_inFlight (h : BatchOk config f) (inFlight : SortedMap Nat Nat) :
    BatchOk config { f with inFlight } := ⟨h.config_eq, h.min_le, h.le_max⟩

lemma recordAck_ok (h : BatchOk config f) {mutationId now : Nat}
    (hgrows : (f.inFlight.get mutationId).isSome → 7 ≤ f.consecutiveAcks →
      f.currentBatchSize + 1 < 2 ^ 64) :
    BatchOk config (f.recordAck A mutationId now).2 ∧
      (f.recordAck A mutationId now).2.inFlightCount ≤ f.inFlightCount := by
  rw [FlowController.recordAck]
  cases hget : f.inFlight.get mutationId with
  | none => exact ⟨h, le_rfl⟩
  | some sentAt =>
    refine ⟨BatchOk.countAck ⟨h.config_eq, h.min_le, h.le_max⟩ (hgrows (by rw [hget]; rfl)), ?_⟩
    have herase : (f.inFlight.erase mutationId).entries.length ≤ f.inFlight.entries.length :=
      List.length_filter_le ..
    dsimp only
    rw [FlowController.countAck]
    split_ifs <;> exact herase

lemma cleanupStale_ok (h : BatchOk config f) (now timeout : Nat) :
    BatchOk config (f.cleanupStale now timeout).2 ∧
      (f.cleanupStale now timeout).2.inFlightCount ≤ f.inFlightCount := by
  have hkept : (f.inFlight.filter (fun _ sentAt => now - sentAt < timeout)).entries.length ≤
      f.inFlight.entries.length := List.length_filter_le ..
  rw [FlowController.cleanupStale]
  dsimp only
  split_ifs
  · exact ⟨(h.with_inFlight _).decrease, hkept⟩
  · exact ⟨h.with_inFlight _, hkept⟩

/-- The window, with room for the push under way. -/
structure WindowOk (config : FlowControlConfig) (s : PushState Rtt) : Prop where
  batch : BatchOk config s.flow
  window : s.flow.inFlightCount ≤ config.maxInFlight
  room : ∀ limit, s.limit = some limit → s.flow.inFlightCount + limit ≤ config.maxInFlight

variable {s t : PushState Rtt}

lemma WindowOk.shrink (h : WindowOk config s)
    (hf : BatchOk config f ∧ f.inFlightCount ≤ s.flow.inFlightCount) :
    WindowOk config { s with flow := f } :=
  ⟨hf.1, hf.2.trans h.window, fun limit hlimit =>
    (Nat.add_le_add_right hf.2 limit).trans (h.room limit hlimit)⟩

lemma WindowOk.build (h : WindowOk config s) :
    WindowOk config { s with limit := some s.flow.nextBatchSize } := by
  have hwindow := h.window
  refine ⟨h.batch, hwindow, fun limit hlimit => ?_⟩
  obtain rfl := Option.some.inj hlimit
  have hle : s.flow.nextBatchSize ≤ config.maxInFlight - s.flow.inFlightCount := by
    rw [FlowController.nextBatchSize, h.batch.config_eq]
    exact min_le_right ..
  dsimp only
  omega

lemma WindowOk.record (h : WindowOk config s) {limit : Nat} (hlimit : s.limit = some limit)
    {mutationIds : List Nat} (hlength : mutationIds.length ≤ limit) (now : Nat) :
    WindowOk config ⟨s.flow.recordPush mutationIds now, none⟩ := by
  have hcount := length_foldl_insert_le mutationIds now s.flow.inFlight
  have hroom : s.flow.inFlight.entries.length + limit ≤ config.maxInFlight := h.room limit hlimit
  refine ⟨h.batch.with_inFlight _, ?_, fun _ hnone => (nomatch hnone)⟩
  exact hcount.trans (by omega)

/-- The eighth acknowledgement in a row does not overflow the batch size. -/
def PushState.Counts (s : PushState Rtt) : Label → Prop
  | .ack mutationId _ => (s.flow.inFlight.get mutationId).isSome → 7 ≤ s.flow.consecutiveAcks →
    s.flow.currentBatchSize + 1 < 2 ^ 64
  | _ => True

lemma WindowOk.step (h : WindowOk config s) {label : Label} (hgood : s.Counts label)
    (hstep : s.step A label = some t) : WindowOk config t := by
  cases label with
  | build =>
    obtain rfl := Option.some.inj hstep
    exact h.build
  | record mutationIds now =>
    cases hlimit : s.limit with
    | none => simp [PushState.step, hlimit] at hstep
    | some limit =>
      simp only [PushState.step, hlimit] at hstep
      split_ifs at hstep with hlength
      obtain rfl := Option.some.inj hstep
      exact h.record hlimit hlength now
  | ack mutationId now =>
    obtain rfl := Option.some.inj hstep
    exact h.shrink (recordAck_ok h.batch hgood)
  | reject mutationId =>
    obtain rfl := Option.some.inj hstep
    exact h.shrink ⟨(h.batch.with_inFlight _).decrease, List.length_filter_le ..⟩
  | cleanupStale now timeout =>
    obtain rfl := Option.some.inj hstep
    exact h.shrink (cleanupStale_ok h.batch now timeout)
  | reset =>
    obtain rfl := Option.some.inj hstep
    exact h.shrink ⟨⟨h.batch.config_eq, h.batch.min_le, h.batch.le_max⟩, Nat.zero_le _⟩

/-- A rejection of a mutation that is not in flight is a decrease all the same. -/
lemma recordReject_eq_self_iff (h : BatchOk config f) {mutationId : Nat}
    (hnone : f.inFlight.get mutationId = none) : f.recordReject mutationId = f ↔
      f.consecutiveAcks = 0 ∧ f.currentBatchSize = config.minBatchSize := by
  have hmin := h.min_le
  have hconfig := h.config_eq
  rw [FlowController.recordReject, SortedMap.erase_of_get_eq_none hnone]
  constructor
  · intro hsame
    have hacks : 0 = f.consecutiveAcks := congrArg FlowController.consecutiveAcks hsame
    have hbatch : max (f.currentBatchSize / 2) f.config.minBatchSize = f.currentBatchSize :=
      congrArg FlowController.currentBatchSize hsame
    rw [hconfig] at hbatch
    omega
  · rintro ⟨hacks, hbatch⟩
    have hmax : max (f.currentBatchSize / 2) f.config.minBatchSize = f.currentBatchSize := by
      rw [hconfig]
      omega
    rw [FlowController.decrease, hmax, ← hacks]

/-- In every run without an overflow the window and the batch size keep their bounds and the
acknowledgement of a mutation that is not in flight changes nothing; its rejection changes nothing only
when no acknowledgement is counted and the batch size is at its minimum. -/
theorem flow_window_respected (hmin : config.minBatchSize ≤ config.initialBatchSize)
    (hmax : config.initialBatchSize ≤ config.maxBatchSize)
    (h : Reaches (PushState.step A) PushState.Counts (.new A config) s) :
    s.flow.inFlightCount ≤ config.maxInFlight ∧
      config.minBatchSize ≤ s.flow.currentBatchSize ∧
      s.flow.currentBatchSize ≤ config.maxBatchSize ∧
      ∀ mutationId, s.flow.inFlight.get mutationId = none →
        (∀ now, s.flow.recordAck A mutationId now = (none, s.flow)) ∧
        (s.flow.recordReject mutationId = s.flow ↔
          s.flow.consecutiveAcks = 0 ∧ s.flow.currentBatchSize = config.minBatchSize) := by
  have hnew : WindowOk config (.new A config) :=
    ⟨⟨rfl, hmin, hmax⟩, Nat.zero_le _, fun _ hnone => (nomatch hnone)⟩
  have hs := h.invariant hnew (fun _ _ _ hinv hgood hstep => hinv.step hgood hstep)
  refine ⟨hs.window, hs.batch.min_le, hs.batch.le_max, fun mutationId hnone => ⟨fun now => ?_,
    recordReject_eq_self_iff hs.batch hnone⟩⟩
  rw [FlowController.recordAck, hnone]

/-- Averages in whole milliseconds. -/
def wholeMillis : RttApi Nat where
  zero := 0
  isZero := (· == 0)
  ofMillis := id
  toMillis := id
  smooth average sample := (7 * average + sample) / 8

/-- The default configuration. -/
def defaultConfig : FlowControlConfig := ⟨64, 10, 500, 50⟩

/-- Two pushes of one mutation, its acknowledgement twice and a rejection of another one. -/
def repeatedIds : List Label :=
  [.build, .record [7, 8] 0, .build, .ack 8 1, .record [7] 2, .ack 7 3, .ack 7 4, .reject 9]

theorem flow_window_respected_repeated :
    ∃ s, runAll (PushState.step wholeMillis) (.new wholeMillis defaultConfig) repeatedIds = some s ∧
      s.flow.inFlightCount ≤ 64 ∧ s.flow.recordAck wholeMillis 7 5 = (none, s.flow) := by
  have hgood : GoodAll (PushState.step wholeMillis) PushState.Counts
      (.new wholeMillis defaultConfig) repeatedIds := by
    refine ⟨trivial, ?_⟩
    rintro t ⟨⟩
    refine ⟨trivial, ?_⟩
    rintro t ⟨⟩
    refine ⟨trivial, ?_⟩
    rintro t ⟨⟩
    refine ⟨fun _ _ => by decide, ?_⟩
    rintro t ⟨⟩
    refine ⟨trivial, ?_⟩
    rintro t ⟨⟩
    refine ⟨fun _ _ => by decide, ?_⟩
    rintro t ⟨⟩
    refine ⟨fun _ _ => by decide, ?_⟩
    rintro t ⟨⟩
    exact ⟨trivial, fun _ _ => trivial⟩
  refine ⟨_, rfl, ?_⟩
  obtain ⟨hwindow, -, -, hunknown⟩ := flow_window_respected
    (show defaultConfig.minBatchSize ≤ defaultConfig.initialBatchSize by decide) (by decide)
    (.of_runAll hgood rfl)
  exact ⟨hwindow, (hunknown 7 rfl).1 5⟩

/-- The rejection of a mutation never pushed halves the batch size. -/
theorem unknown_rejection_halves_batch :
    ((FlowController.new wholeMillis defaultConfig).inFlight.get 7 = none ∧
      (FlowController.new wholeMillis defaultConfig).currentBatchSize = 50) ∧
      ((FlowController.new wholeMillis defaultConfig).recordReject 7).currentBatchSize = 25 := by
  decide

end Window

end NodedbLite.Flow
