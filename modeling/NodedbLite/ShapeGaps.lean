import NodedbLite.GuardedRun
import NodedbLite.SortedMap

/-! Gap detection in the delta streams of shapes. All shapes of a connection share one gate and one
slot for a pending re-sync request. -/
namespace NodedbLite.ShapeGaps

open GuardedRun

structure ResyncRequestMsg where
  expected : Nat
  received : Nat
  fromMutationId : Nat
  collection : String
  shapeId : String
  deriving DecidableEq

/-- What has come in of a shape's stream since its last snapshot, or since its first delta: its highest
LSN, the LSN before the first one skipped, and whether a re-sync request for it was sent. -/
structure Stream where
  snapshotted : Bool
  top : Nat
  gap : Option Nat
  requested : Bool

namespace Stream

variable {st : Stream} {lsn k : Nat}

/-- A delta skips an LSN if it lies beyond the next after the highest one. -/
def receive (st : Stream) (lsn : Nat) : Stream :=
  { st with
    top := max st.top lsn
    gap := if st.top + 1 < lsn then st.gap.or (some st.top) else st.gap }

lemma receive_gap_of_some (hgap : st.gap = some k) : (st.receive lsn).gap = some k := by
  rw [receive, hgap]
  exact ite_self _

lemma receive_gap_of_le (hle : lsn ≤ st.top + 1) : (st.receive lsn).gap = st.gap :=
  if_neg (not_lt.mpr hle)

lemma receive_gap_of_lt (hgap : st.gap = none) (hlt : st.top + 1 < lsn) :
    (st.receive lsn).gap = some st.top := by
  rw [receive, hgap]
  exact if_pos hlt

lemma gap_eq_none_of_receive (hgap : (st.receive lsn).gap = none) :
    st.gap = none ∧ lsn ≤ st.top + 1 := by
  cases hold : st.gap with
  | some k =>
    rw [receive_gap_of_some hold] at hgap
    exact absurd hgap (Option.some_ne_none k)
  | none =>
    refine ⟨rfl, not_lt.mp (fun hlt => ?_)⟩
    rw [receive_gap_of_lt hold hlt] at hgap
    exact absurd hgap (Option.some_ne_none st.top)

lemma receive_gap_ne_none (hgap : st.gap ≠ none) : (st.receive lsn).gap ≠ none := by
  obtain ⟨k, hk⟩ := Option.ne_none_iff_exists'.mp hgap
  rw [receive_gap_of_some hk]
  exact Option.some_ne_none k

end Stream

/-- The client's tracker, gate and slot. `streams` and `sent` are what came in and went out. -/
structure SyncClient where
  lastSeenLsn : SortedMap String Nat
  resyncRequested : Bool
  pendingResync : Option ResyncRequestMsg
  streams : SortedMap String Stream
  sent : List ResyncRequestMsg

inductive Label
  | snapshot (shapeId : String) (lsn : Nat)
  | delta (shapeId : String) (lsn : Nat)
  /-- A push tick, which sends nothing while the push is paused for authentication. -/
  | pushTick (paused : Bool)

namespace SyncClient

variable (c : SyncClient)

/-- The state after `reset_sequence_tracking`, at the start of a connection. -/
def connected : SyncClient := ⟨SortedMap.empty, false, none, SortedMap.empty, []⟩

def handleShapeSnapshot (shapeId : String) (lsn : Nat) : SyncClient :=
  { c with
    lastSeenLsn := c.lastSeenLsn.insert shapeId lsn
    resyncRequested := false
    pendingResync := none }

/-- The check of an incoming delta; LSNs are `u64`. -/
def checkSequenceGap (shapeId : String) (lsn : Nat) : Option ResyncRequestMsg × SyncClient :=
  if c.resyncRequested then (none, c)
  else
    let tracked := { c with lastSeenLsn := c.lastSeenLsn.insert shapeId lsn }
    match c.lastSeenLsn.get shapeId with
    | none => (none, tracked)
    | some last =>
      let expected := (last + 1) % 2 ^ 64
      if expected < lsn then
        (some ⟨expected, lsn, expected, "", shapeId⟩, { tracked with resyncRequested := true })
      else (none, tracked)

def setPendingResync (msg : ResyncRequestMsg) : SyncClient := { c with pendingResync := some msg }

/-- The gap check of the dispatcher's delta branch. -/
def dispatchDelta (shapeId : String) (lsn : Nat) : SyncClient :=
  match c.checkSequenceGap shapeId lsn with
  | (some msg, c) => c.setPendingResync msg
  | (none, c) => c

/-- The stream of a shape with one more delta. -/
def receive (shapeId : String) (lsn : Nat) : SortedMap String Stream :=
  c.streams.insert shapeId (match c.streams.get shapeId with
    | some st => st.receive lsn
    | none => ⟨false, lsn, none, false⟩)

def pushTick : SyncClient :=
  match c.pendingResync with
  | none => c
  | some msg =>
    { c with
      pendingResync := none
      streams := match c.streams.get msg.shapeId with
        | some st => c.streams.insert msg.shapeId { st with requested := true }
        | none => c.streams
      sent := c.sent ++ [msg] }

def step : Label → SyncClient
  | .snapshot shapeId lsn =>
    { c.handleShapeSnapshot shapeId lsn with
      streams := c.streams.insert shapeId ⟨true, lsn, none, false⟩ }
  | .delta shapeId lsn => { c.dispatchDelta shapeId lsn with streams := c.receive shapeId lsn }
  | .pushTick paused => if paused then c else c.pushTick

/-- A request that names the shape waits for the push loop. -/
def Pends (shapeId : String) : Prop := ∃ msg, c.pendingResync = some msg ∧ msg.shapeId = shapeId

/-- Every gap after a snapshot is remembered, and every request is for a stream with a gap. -/
structure Remembers : Prop where
  gaps : ∀ shapeId st k, c.streams.get shapeId = some st → st.snapshotted = true → st.gap = some k →
    st.requested = true ∨ c.Pends shapeId ∨ c.lastSeenLsn.get shapeId = some k
  pending : ∀ shapeId, c.Pends shapeId → ∃ st, c.streams.get shapeId = some st ∧ st.gap ≠ none
  requested : ∀ shapeId st, c.streams.get shapeId = some st → st.requested = true → st.gap ≠ none

/-- A snapshot finds no request pending for another shape. The first LSN skipped does not come in
late. While no re-sync is asked for, no LSN below the tracked one comes in again; while one is, a stream
without a gap does not go on. -/
def Undisturbed : Label → Prop
  | .snapshot shapeId lsn => lsn + 1 < 2 ^ 64 ∧
    ∀ msg, c.pendingResync = some msg → msg.shapeId = shapeId
  | .delta shapeId lsn => lsn + 1 < 2 ^ 64 ∧ ∀ st, c.streams.get shapeId = some st →
    (∀ k, st.gap = some k → lsn ≠ k + 1) ∧
    (c.resyncRequested = false → (c.lastSeenLsn.get shapeId).getD st.top ≤ lsn) ∧
    (c.resyncRequested = true → st.gap = none → lsn ≠ st.top + 1)
  | .pushTick _ => True

/-- What holds of one stream: without a gap the tracker is at its highest LSN. -/
structure StreamOk (shapeId : String) (st : Stream) : Prop where
  level : st.gap = none → c.lastSeenLsn.get shapeId = some st.top ∨
    (st.snapshotted = false ∧ c.lastSeenLsn.get shapeId = none)
  tracked : st.snapshotted = true → (c.lastSeenLsn.get shapeId).isSome
  kept : ∀ k, st.snapshotted = true → st.gap = some k →
    st.requested = true ∨ c.Pends shapeId ∨ c.lastSeenLsn.get shapeId = some k
  requested : st.requested = true → st.gap ≠ none

structure Inv : Prop where
  streams : ∀ shapeId st, c.streams.get shapeId = some st → c.StreamOk shapeId st
  small : ∀ shapeId last, c.lastSeenLsn.get shapeId = some last → last + 1 < 2 ^ 64
  known : ∀ shapeId, (c.lastSeenLsn.get shapeId).isSome → (c.streams.get shapeId).isSome
  gate : c.pendingResync ≠ none → c.resyncRequested = true
  pending : ∀ shapeId, c.Pends shapeId → ∃ st, c.streams.get shapeId = some st ∧ st.gap ≠ none

variable {c}

lemma Inv.remembers (h : c.Inv) : c.Remembers where
  gaps := fun shapeId st k hst => (h.streams shapeId st hst).kept k
  pending := h.pending
  requested := fun shapeId st hst => (h.streams shapeId st hst).requested

lemma inv_connected : connected.Inv where
  streams := fun _ _ hst => nomatch hst
  small := fun _ _ hlast => nomatch hlast
  known := fun _ hsome => nomatch hsome
  gate := fun hne => absurd rfl hne
  pending := fun _ ⟨_, hmsg, _⟩ => nomatch hmsg

/-- A stream's facts only read the tracker at its shape and whether a request for it pends. -/
lemma StreamOk.congr {c' : SyncClient} {shapeId : String} {st : Stream} (h : c.StreamOk shapeId st)
    (htracker : c'.lastSeenLsn.get shapeId = c.lastSeenLsn.get shapeId)
    (hpends : c.Pends shapeId → c'.Pends shapeId) : c'.StreamOk shapeId st := by
  refine { h with level := ?_, tracked := ?_, kept := ?_ }
  · rw [htracker]
    exact h.level
  · rw [htracker]
    exact h.tracked
  · intro k hsnap hgap
    rw [htracker]
    exact (h.kept k hsnap hgap).imp_right (Or.imp_left hpends)

lemma Inv.frame (h : c.Inv) {c' : SyncClient} (shapeId : String) (st : Stream)
    (hst : c'.streams.get shapeId = some st) (hok : c'.StreamOk shapeId st)
    (hstreams : ∀ other, other ≠ shapeId → c'.streams.get other = c.streams.get other)
    (htracker : ∀ other, other ≠ shapeId → c'.lastSeenLsn.get other = c.lastSeenLsn.get other)
    (hsmall : ∀ last, c'.lastSeenLsn.get shapeId = some last → last + 1 < 2 ^ 64)
    (hgate : c'.pendingResync ≠ none → c'.resyncRequested = true)
    (hothers : ∀ other, other ≠ shapeId → (c.Pends other ↔ c'.Pends other))
    (hpends : c'.Pends shapeId → st.gap ≠ none) : c'.Inv := by
  refine ⟨fun other st' hst' => ?_, fun other last hlast => ?_, fun other hsome => ?_, hgate,
    fun other hpend => ?_⟩ <;> by_cases hsame : other = shapeId
  · subst hsame
    obtain rfl := Option.some.inj (hst.symm.trans hst')
    exact hok
  · rw [hstreams other hsame] at hst'
    exact (h.streams other st' hst').congr (htracker other hsame) (hothers other hsame).mp
  · subst hsame
    exact hsmall last hlast
  · exact h.small other last (htracker other hsame ▸ hlast)
  · rw [hsame, hst]
    rfl
  · rw [hstreams other hsame]
    exact h.known other (htracker other hsame ▸ hsome)
  · subst hsame
    exact ⟨st, hst, hpends hpend⟩
  · rw [hstreams other hsame]
    exact h.pending other ((hothers other hsame).mpr hpend)

lemma Inv.snapshot (h : c.Inv) {shapeId : String} {lsn : Nat}
    (hgood : c.Undisturbed (.snapshot shapeId lsn)) : (c.step (.snapshot shapeId lsn)).Inv := by
  obtain ⟨hsmall, hpending⟩ := hgood
  have htracker : (c.step (.snapshot shapeId lsn)).lastSeenLsn.get shapeId = some lsn := by
    change (c.lastSeenLsn.insert shapeId lsn).get shapeId = some lsn
    rw [SortedMap.get_insert, if_pos rfl]
  have hnone : ∀ other, ¬ (c.step (.snapshot shapeId lsn)).Pends other :=
    fun _ ⟨_, hmsg, _⟩ => nomatch hmsg
  refine h.frame shapeId ⟨true, lsn, none, false⟩ ?_ ?_ (fun other hne => ?_)
    (fun other hne => ?_) (fun last hlast => ?_) (fun hne => absurd rfl hne) (fun other hne => ?_)
    (fun hpend => absurd hpend (hnone shapeId))
  · change (c.streams.insert shapeId _).get shapeId = _
    rw [SortedMap.get_insert, if_pos rfl]
  · exact ⟨fun _ => .inl htracker, fun _ => by rw [htracker]; rfl, fun _ _ hgap => (nomatch hgap),
      fun hreq => (nomatch hreq)⟩
  · change (c.streams.insert shapeId _).get other = _
    rw [SortedMap.get_insert, if_neg hne]
  · change (c.lastSeenLsn.insert shapeId lsn).get other = _
    rw [SortedMap.get_insert, if_neg hne]
  · rw [← Option.some.inj (htracker.symm.trans hlast)]
    exact hsmall
  · refine iff_of_false (fun ⟨msg, hmsg, hshape⟩ => hne ?_) (hnone other)
    rw [← hshape, hpending msg hmsg]

lemma Inv.pushTick (h : c.Inv) : c.pushTick.Inv := by
  rw [SyncClient.pushTick]
  cases hmsg : c.pendingResync with
  | none => exact h
  | some msg =>
    obtain ⟨st, hst, hgap⟩ := h.pending msg.shapeId ⟨msg, hmsg, rfl⟩
    have hok := h.streams _ st hst
    dsimp only
    rw [hst]
    refine h.frame msg.shapeId { st with requested := true } ?_
      { hok with level := hok.level, kept := fun _ _ _ => .inl rfl, requested := fun _ => hgap }
      (fun other hne => ?_) (fun _ _ => rfl) (h.small msg.shapeId) (fun hne => absurd rfl hne)
      (fun other hne => ?_) (fun _ => hgap)
    · exact (SortedMap.get_insert ..).trans (if_pos rfl)
    · exact (SortedMap.get_insert ..).trans (if_neg hne)
    · refine iff_of_false (fun ⟨msg', hmsg', hshape⟩ => hne ?_) (fun ⟨_, hmsg', _⟩ => nomatch hmsg')
      rw [← hshape, Option.some.inj (hmsg.symm.trans hmsg')]

section Deltas

variable {shapeId : String} {lsn : Nat}

lemma dispatchDelta_of_gate (hgate : c.resyncRequested = true) : c.dispatchDelta shapeId lsn = c := by
  rw [dispatchDelta, checkSequenceGap, if_pos hgate]

lemma dispatchDelta_of_first (hgate : c.resyncRequested = false)
    (hnone : c.lastSeenLsn.get shapeId = none) :
    c.dispatchDelta shapeId lsn = { c with lastSeenLsn := c.lastSeenLsn.insert shapeId lsn } := by
  rw [dispatchDelta, checkSequenceGap, if_neg (by rw [hgate]; exact Bool.false_ne_true), hnone]

lemma dispatchDelta_of_next (hgate : c.resyncRequested = false) {last : Nat}
    (hlast : c.lastSeenLsn.get shapeId = some last) (hsmall : last + 1 < 2 ^ 64)
    (hle : lsn ≤ last + 1) :
    c.dispatchDelta shapeId lsn = { c with lastSeenLsn := c.lastSeenLsn.insert shapeId lsn } := by
  rw [dispatchDelta, checkSequenceGap, if_neg (by rw [hgate]; exact Bool.false_ne_true), hlast]
  dsimp only
  rw [Nat.mod_eq_of_lt hsmall, if_neg (not_lt.mpr hle)]

lemma dispatchDelta_of_gap (hgate : c.resyncRequested = false) {last : Nat}
    (hlast : c.lastSeenLsn.get shapeId = some last) (hsmall : last + 1 < 2 ^ 64)
    (hlt : last + 1 < lsn) :
    c.dispatchDelta shapeId lsn = { c with
      lastSeenLsn := c.lastSeenLsn.insert shapeId lsn
      resyncRequested := true
      pendingResync := some ⟨last + 1, lsn, last + 1, "", shapeId⟩ } := by
  rw [dispatchDelta, checkSequenceGap, if_neg (by rw [hgate]; exact Bool.false_ne_true), hlast]
  dsimp only
  rw [Nat.mod_eq_of_lt hsmall, if_pos hlt]
  rfl

lemma receive_get_of_some {st : Stream} (hst : c.streams.get shapeId = some st) :
    (c.receive shapeId lsn).get shapeId = some (st.receive lsn) := by
  rw [receive, SortedMap.get_insert, if_pos rfl, hst]

lemma receive_get_of_none (hst : c.streams.get shapeId = none) :
    (c.receive shapeId lsn).get shapeId = some ⟨false, lsn, none, false⟩ := by
  rw [receive, SortedMap.get_insert, if_pos rfl, hst]

lemma receive_get_other {other : String} (hne : other ≠ shapeId) :
    (c.receive shapeId lsn).get other = c.streams.get other := by
  rw [receive, SortedMap.get_insert, if_neg hne]

/-- While a re-sync is asked for, a delta reaches the stream only. -/
lemma Inv.delta_of_gate (h : c.Inv) (hgate : c.resyncRequested = true) (st : Stream)
    (hst : (c.receive shapeId lsn).get shapeId = some st)
    (hok : StreamOk { c with streams := c.receive shapeId lsn } shapeId st)
    (hpends : c.Pends shapeId → st.gap ≠ none) : (c.step (.delta shapeId lsn)).Inv := by
  rw [step, dispatchDelta_of_gate hgate]
  exact h.frame shapeId st hst hok (fun _ => receive_get_other) (fun _ _ => rfl) (h.small shapeId)
    (fun _ => hgate) (fun _ _ => Iff.rfl) hpends

lemma Inv.delta_of_open (h : c.Inv) (hgate : c.resyncRequested = false) (hsmall : lsn + 1 < 2 ^ 64)
    {c' : SyncClient} (hdispatch : c.dispatchDelta shapeId lsn = c')
    (htracker : c'.lastSeenLsn = c.lastSeenLsn.insert shapeId lsn) (st : Stream)
    (hst : (c.receive shapeId lsn).get shapeId = some st)
    (hok : StreamOk { c' with streams := c.receive shapeId lsn } shapeId st)
    (hpending : ∀ msg, c'.pendingResync = some msg →
      c'.resyncRequested = true ∧ msg.shapeId = shapeId ∧ st.gap ≠ none) :
    (c.step (.delta shapeId lsn)).Inv := by
  have hnone : ∀ other, ¬ c.Pends other := fun other ⟨msg, hmsg, _⟩ => by
    rw [h.gate (by rw [hmsg]; exact Option.some_ne_none msg)] at hgate
    exact Bool.noConfusion hgate
  rw [step, hdispatch]
  refine h.frame shapeId st hst hok (fun _ => receive_get_other) (fun other hne => ?_)
    (fun last hlast => ?_) (fun hne => ?_) (fun other hne => ?_)
    (fun ⟨msg, hmsg, _⟩ => (hpending msg hmsg).2.2)
  · dsimp only
    rw [htracker, SortedMap.get_insert, if_neg hne]
  · dsimp only at hlast
    rw [htracker, SortedMap.get_insert, if_pos rfl] at hlast
    rw [← Option.some.inj hlast]
    exact hsmall
  · obtain ⟨msg, hmsg⟩ := Option.ne_none_iff_exists'.mp hne
    exact (hpending msg hmsg).1
  · refine iff_of_false (hnone other) (fun ⟨msg, hmsg, hshape⟩ => hne ?_)
    rw [← hshape, (hpending msg hmsg).2.1]

lemma StreamOk.receive_of_gate {st : Stream} (h : c.StreamOk shapeId st)
    (hgoes : st.gap = none → lsn ≠ st.top + 1) {c' : SyncClient}
    (htracker : c'.lastSeenLsn.get shapeId = c.lastSeenLsn.get shapeId)
    (hpends : c.Pends shapeId → c'.Pends shapeId) : c'.StreamOk shapeId (st.receive lsn) := by
  refine ⟨fun hgap => ?_, fun hsnap => ?_, fun k hsnap hgap => ?_,
    fun hreq => Stream.receive_gap_ne_none (h.requested hreq)⟩
  · obtain ⟨hold, hle⟩ := Stream.gap_eq_none_of_receive hgap
    have hgoes' := hgoes hold
    have htop : (st.receive lsn).top = st.top := max_eq_left (by omega)
    rw [htracker, htop]
    exact h.level hold
  · rw [htracker]
    exact h.tracked hsnap
  · cases hold : st.gap with
    | some k' =>
      rw [Stream.receive_gap_of_some hold] at hgap
      rw [htracker]
      exact (h.kept k hsnap (hold.trans hgap)).imp_right (Or.imp_left hpends)
    | none =>
      -- the gap opens here, and the tracker is still at the highest LSN before it
      have hlt : st.top + 1 < lsn := not_le.mp (fun hle => by
        rw [Stream.receive_gap_of_le hle, hold] at hgap
        exact nomatch hgap)
      rw [Stream.receive_gap_of_lt hold hlt] at hgap
      rw [htracker, ← hgap]
      refine .inr (.inr ((h.level hold).resolve_right (fun ⟨hfalse, _⟩ => ?_)))
      exact Bool.noConfusion (hsnap.symm.trans hfalse)

lemma StreamOk.receive_of_next {st : Stream} (h : c.StreamOk shapeId st)
    (hpends : ¬ c.Pends shapeId) (hlate : ∀ k, st.gap = some k → lsn ≠ k + 1)
    (hle : (c.lastSeenLsn.get shapeId).getD st.top ≤ lsn)
    (hnext : ∀ last, c.lastSeenLsn.get shapeId = some last → lsn ≤ last + 1) {c' : SyncClient}
    (htracker : c'.lastSeenLsn.get shapeId = some lsn) : c'.StreamOk shapeId (st.receive lsn) := by
  refine ⟨fun hgap => .inl ?_, fun _ => by rw [htracker]; rfl, fun k hsnap hgap => ?_,
    fun hreq => Stream.receive_gap_ne_none (h.requested hreq)⟩
  · obtain ⟨hold, -⟩ := Stream.gap_eq_none_of_receive hgap
    have htop : st.top ≤ lsn := by
      rcases h.level hold with hlast | ⟨-, hlast⟩ <;> rw [hlast] at hle <;> exact hle
    rw [htracker]
    exact congrArg some (max_eq_right htop).symm
  · cases hold : st.gap with
    | some k' =>
      obtain rfl : k' = k := Option.some.inj ((Stream.receive_gap_of_some hold).symm.trans hgap)
      rcases h.kept k' hsnap hold with hreq | hpend | hlast
      · exact .inl hreq
      · exact absurd hpend hpends
      · -- the LSN before the gap came in again
        rw [hlast] at hle
        have hle' : k' ≤ lsn := hle
        have hlate' := hlate k' hold
        have hnext' := hnext k' hlast
        refine .inr (.inr (htracker.trans (congrArg some ?_)))
        omega
    | none =>
      have hlast := (h.level hold).resolve_right
        (fun ⟨hfalse, _⟩ => Bool.noConfusion (hsnap.symm.trans hfalse))
      rw [Stream.receive_gap_of_le (hnext _ hlast), hold] at hgap
      exact nomatch hgap

lemma StreamOk.receive_of_gap {st : Stream} (h : c.StreamOk shapeId st) {last : Nat}
    (hlast : c.lastSeenLsn.get shapeId = some last) (hlt : last + 1 < lsn) {c' : SyncClient}
    (htracker : c'.lastSeenLsn.get shapeId = some lsn) (hpends : c'.Pends shapeId) :
    c'.StreamOk shapeId (st.receive lsn) ∧ (st.receive lsn).gap ≠ none := by
  have hgap : (st.receive lsn).gap ≠ none := fun hgap => by
    obtain ⟨hold, hle⟩ := Stream.gap_eq_none_of_receive hgap
    rcases h.level hold with htop | ⟨-, hnone⟩
    · obtain rfl := Option.some.inj (hlast.symm.trans htop)
      exact absurd hle (not_le.mpr hlt)
    · exact nomatch hnone.symm.trans hlast
  exact ⟨⟨fun hnone => absurd hnone hgap, fun _ => by rw [htracker]; rfl,
    fun _ _ _ => .inr (.inl hpends), fun _ => hgap⟩, hgap⟩

lemma Inv.delta (h : c.Inv) (hgood : c.Undisturbed (.delta shapeId lsn)) :
    (c.step (.delta shapeId lsn)).Inv := by
  obtain ⟨hsmall, hstream⟩ := hgood
  have hinserted : (c.lastSeenLsn.insert shapeId lsn).get shapeId = some lsn :=
    (SortedMap.get_insert ..).trans (if_pos rfl)
  cases hst : c.streams.get shapeId with
  | none =>
    have hnone : c.lastSeenLsn.get shapeId = none := by
      rw [← Option.not_isSome_iff_eq_none]
      intro hsome
      exact Option.isSome_iff_ne_none.mp (h.known shapeId hsome) hst
    have hpends : ¬ c.Pends shapeId := fun hpend => by
      obtain ⟨st, hst', -⟩ := h.pending shapeId hpend
      exact nomatch hst.symm.trans hst'
    cases hgate : c.resyncRequested with
    | true =>
      exact h.delta_of_gate hgate _ (receive_get_of_none hst)
        ⟨fun _ => .inr ⟨rfl, hnone⟩, fun hsnap => (nomatch hsnap), fun _ hsnap => (nomatch hsnap),
          fun hreq => (nomatch hreq)⟩ (fun hpend => absurd hpend hpends)
    | false =>
      refine h.delta_of_open hgate hsmall (dispatchDelta_of_first hgate hnone) rfl _
        (receive_get_of_none hst) ⟨fun _ => .inl hinserted, fun hsnap => (nomatch hsnap),
          fun _ hsnap => (nomatch hsnap), fun hreq => (nomatch hreq)⟩ (fun msg hmsg => ?_)
      rw [h.gate (by rw [hmsg]; exact Option.some_ne_none msg)] at hgate
      exact Bool.noConfusion hgate
  | some st =>
    obtain ⟨hlate, hle, hgoes⟩ := hstream st hst
    have hok := h.streams shapeId st hst
    cases hgate : c.resyncRequested with
    | true =>
      refine h.delta_of_gate hgate _ (receive_get_of_some hst)
        (hok.receive_of_gate (hgoes hgate) rfl id) (fun hpend => ?_)
      obtain ⟨st', hst', hgap⟩ := h.pending shapeId hpend
      obtain rfl := Option.some.inj (hst.symm.trans hst')
      exact Stream.receive_gap_ne_none hgap
    | false =>
      have hnopend : ∀ msg, c.pendingResync ≠ some msg := fun msg hmsg => by
        rw [h.gate (by rw [hmsg]; exact Option.some_ne_none msg)] at hgate
        exact Bool.noConfusion hgate
      have hpends : ¬ c.Pends shapeId := fun ⟨msg, hmsg, _⟩ => hnopend msg hmsg
      cases hlast : c.lastSeenLsn.get shapeId with
      | none =>
        exact h.delta_of_open hgate hsmall (dispatchDelta_of_first hgate hlast) rfl _
          (receive_get_of_some hst) (hok.receive_of_next hpends hlate (hle hgate)
            (fun last hsome => nomatch hlast.symm.trans hsome) hinserted)
          (fun msg hmsg => absurd hmsg (hnopend msg))
      | some last =>
        by_cases hlt : last + 1 < lsn
        · have hasked : Pends { c with
            lastSeenLsn := c.lastSeenLsn.insert shapeId lsn
            resyncRequested := true
            pendingResync := some ⟨last + 1, lsn, last + 1, "", shapeId⟩
            streams := c.receive shapeId lsn } shapeId := ⟨_, rfl, rfl⟩
          obtain ⟨hok', hgap⟩ := hok.receive_of_gap hlast hlt hinserted hasked
          refine h.delta_of_open hgate hsmall
            (dispatchDelta_of_gap hgate hlast (h.small shapeId last hlast) hlt) rfl _
            (receive_get_of_some hst) hok' (fun msg hmsg => ?_)
          obtain rfl := Option.some.inj hmsg
          exact ⟨rfl, rfl, hgap⟩
        · have hnext : lsn ≤ last + 1 := not_lt.mp hlt
          refine h.delta_of_open hgate hsmall
            (dispatchDelta_of_next hgate hlast (h.small shapeId last hlast) hnext) rfl _
            (receive_get_of_some hst) (hok.receive_of_next hpends hlate (hle hgate)
              (fun last' hsome => ?_) hinserted) (fun msg hmsg => absurd hmsg (hnopend msg))
          obtain rfl := Option.some.inj (hlast.symm.trans hsome)
          exact hnext

end Deltas

lemma Inv.step (h : c.Inv) {label : Label} (hgood : c.Undisturbed label) : (c.step label).Inv := by
  cases label with
  | snapshot shapeId lsn => exact h.snapshot hgood
  | delta shapeId lsn => exact h.delta hgood
  | pushTick paused =>
    cases paused with
    | true => exact h
    | false => exact h.pushTick

/-- In every connection whose steps are undisturbed no gap is forgotten, and no request is made for a
stream without one. -/
theorem stream_gaps_remembered
    (h : Reaches (fun c label => some (SyncClient.step c label)) SyncClient.Undisturbed connected c) :
    c.Remembers := by
  refine Inv.remembers (h.invariant inv_connected (fun s label t hinv hgood hstep => ?_))
  obtain rfl := Option.some.inj hstep
  exact hinv.step hgood

/-- Two shapes; the gap of one is asked for, then its snapshot comes. -/
def gapAnswered : List Label :=
  [.snapshot "a" 5, .snapshot "b" 5, .delta "a" 7, .delta "b" 5, .pushTick false, .snapshot "a" 8,
    .delta "a" 9]

theorem stream_gaps_remembered_answered :
    ∃ c, runAll (fun c label => some (SyncClient.step c label)) connected gapAnswered = some c ∧
      c.sent = [⟨6, 7, 6, "", "a"⟩] ∧ c.Remembers := by
  have hgood : GoodAll (fun c label => some (SyncClient.step c label)) SyncClient.Undisturbed connected
      gapAnswered := by
    refine ⟨⟨by decide, fun _ hmsg => nomatch hmsg⟩, ?_⟩
    rintro t ⟨⟩
    refine ⟨⟨by decide, fun _ hmsg => nomatch hmsg⟩, ?_⟩
    rintro t ⟨⟩
    refine ⟨⟨by decide, ?_⟩, ?_⟩
    · rintro st ⟨⟩
      exact ⟨fun _ hgap => (nomatch hgap), fun _ => by decide, fun hgate => (nomatch hgate)⟩
    rintro t ⟨⟩
    refine ⟨⟨by decide, ?_⟩, ?_⟩
    · rintro st ⟨⟩
      exact ⟨fun _ hgap => (nomatch hgap), fun _ => by decide, fun _ _ => by decide⟩
    rintro t ⟨⟩
    refine ⟨trivial, ?_⟩
    rintro t ⟨⟩
    refine ⟨⟨by decide, fun _ hmsg => nomatch hmsg⟩, ?_⟩
    rintro t ⟨⟩
    refine ⟨⟨by decide, ?_⟩, fun _ _ => trivial⟩
    rintro st ⟨⟩
    exact ⟨fun _ hgap => (nomatch hgap), fun _ => by decide, fun hgate => (nomatch hgate)⟩
  exact ⟨_, rfl, rfl, stream_gaps_remembered (.of_runAll hgood rfl)⟩

/-- The snapshot of another shape drops the request that waits, and the tracker is past the gap. -/
theorem other_snapshot_forgets_gap :
    ∃ c, runAll (fun c label => some (SyncClient.step c label)) connected
        [.snapshot "a" 5, .snapshot "b" 5, .delta "a" 7, .snapshot "b" 6] = some c ∧
      c.pendingResync = none ∧ c.sent = [] ∧ ¬c.Remembers := by
  refine ⟨_, rfl, rfl, rfl, fun h => ?_⟩
  rcases h.gaps "a" ⟨true, 7, some 5, false⟩ 5 rfl rfl rfl with hreq | ⟨msg, hmsg, -⟩ | hlast
  · exact nomatch hreq
  · exact nomatch hmsg
  · revert hlast
    decide

end SyncClient

end NodedbLite.ShapeGaps
