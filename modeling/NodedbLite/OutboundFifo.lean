import NodedbLite.OutboundQueue

/-! One durable outbound queue over its whole life, reopenings included: the order in which it drains
its entries, its size, and the ids it assigns. -/
namespace NodedbLite.Outbound.Fifo

/-- An id that was assigned, the entry it was assigned to, and whether that entry is stored and not
acknowledged. -/
structure Record where
  id : Nat
  entry : Pending
  live : Bool

/-- What the queue stores under the id. -/
def Record.value (r : Record) : Option Pending := if r.live then some r.entry else none

/-- The entry with its key in the queue. -/
def Record.pair (r : Record) : Bytes × Pending := (DurableQueue.keyOf r.id, r.entry)

/-- A queue with the ids it has assigned, oldest first, and those reserved in this process whose
entries are not stored yet. -/
structure State where
  queue : DurableQueue
  log : List Record
  reserved : List Nat

inductive Label
  /-- An enqueue, whose put succeeds or fails. -/
  | enqueue (e : Pending) (ok : Bool)
  | reserveKey (e : Pending)
  | persistReserved (id : Nat) (ok : Bool)
  | ackKeys (ids : List Nat)
  /-- The payload of a stored entry is replaced. -/
  | updateEntry (id : Nat) (e : Pending)
  | reopen

namespace State

variable (s : State)

def opened : State := ⟨⟨SortedMap.empty, 1⟩, [], []⟩

/-- Change the record of an id. -/
def change (id : Nat) (f : Record → Record) : List Record :=
  s.log.map (fun r => if r.id = id then f r else r)

def enqueue (cap : Nat) (e : Pending) (ok : Bool) : State :=
  if s.queue.hasRoom cap then
    match s.queue.reserveKey with
    | none => s
    | some (key, queue) =>
      { s with
        queue := if ok then queue.updateEntry key e else queue
        log := s.log ++ [⟨s.queue.nextId, e, ok⟩] }
  else s

def reserveKey (e : Pending) : State :=
  match s.queue.reserveKey with
  | none => s
  | some (_, queue) =>
    { queue
      log := s.log ++ [⟨s.queue.nextId, e, false⟩]
      reserved := s.reserved ++ [s.queue.nextId] }

/-- A stored key is left alone; otherwise the entry is put if there is room. -/
def persistReserved (cap : Nat) (r : Record) (ok : Bool) : State :=
  if (s.queue.store.get (DurableQueue.keyOf r.id)).isSome then
    { s with reserved := s.reserved.filter (· ≠ r.id) }
  else if s.queue.hasRoom cap ∧ ok = true then
    { queue := s.queue.updateEntry (DurableQueue.keyOf r.id) r.entry
      log := s.change r.id (fun r => { r with live := true })
      reserved := s.reserved.filter (· ≠ r.id) }
  else s

def ackKeys (ids : List Nat) : State :=
  { s with
    queue := (ids.map DurableQueue.keyOf).foldl DurableQueue.ackKey s.queue
    log := s.log.map (fun r => if r.id ∈ ids then { r with live := false } else r) }

def updateEntry (id : Nat) (e : Pending) : State :=
  { s with
    queue := s.queue.updateEntry (DurableQueue.keyOf id) e
    log := s.change id (fun r => { r with entry := e }) }

/-- One call; ids are `u64`. -/
def next (cap : Nat) : Label → Option State
  | .enqueue e ok => some (s.enqueue cap e ok)
  | .reserveKey e => some (s.reserveKey e)
  | .persistReserved id ok =>
    if id ∈ s.reserved then
      (s.log.find? (fun r => r.id = id)).map (fun r => s.persistReserved cap r ok)
    else none
  | .ackKeys ids => if ∀ id ∈ ids, id < 2 ^ 64 then some (s.ackKeys ids) else none
  | .updateEntry id e =>
    if id < 2 ^ 64 ∧ (s.queue.store.get (DurableQueue.keyOf id)).isSome then
      some (s.updateEntry id e)
    else none
  | .reopen =>
    (DurableQueue.recoverNextId s.queue.store).map (fun nextId =>
      { s with queue := ⟨s.queue.store, nextId⟩, reserved := [] })

/-- A reopening finds the counter where it was: the entry of the last id assigned is still stored. -/
def KeepsCounter : Label → Prop
  | .reopen => DurableQueue.recoverNextId s.queue.store = some s.queue.nextId
  | _ => True

/-- The queue is a FIFO of the entries that are stored and not acknowledged, within its cap, and no id
was assigned twice. -/
structure IsFifo (cap : Nat) : Prop where
  drain : ∀ limit, s.queue.drainBatch limit =
    ((s.log.filter Record.live).map Record.pair).take limit
  size : s.queue.store.entries.length ≤ cap
  ids : (s.log.map Record.id).Nodup

/-- The ids assigned so far are all below the counter, in order, and the store has what their records
say. -/
structure Inv (cap : Nat) : Prop where
  pos : 1 ≤ s.queue.nextId
  counter : s.queue.nextId < 2 ^ 64
  ids : s.log.map Record.id = List.range' 1 (s.queue.nextId - 1)
  value : ∀ r ∈ s.log, s.queue.store.get (DurableQueue.keyOf r.id) = r.value
  keys : ∀ key e, s.queue.store.get key = some e → ∃ r ∈ s.log, key = DurableQueue.keyOf r.id
  size : s.queue.store.entries.length ≤ cap

variable {s} {cap : Nat}

lemma Inv.mem_ids (h : s.Inv cap) {id : Nat} :
    id ∈ s.log.map Record.id ↔ 1 ≤ id ∧ id < s.queue.nextId := by
  have hpos := h.pos
  rw [h.ids, List.mem_range'_1]
  omega

lemma Inv.id_lt (h : s.Inv cap) {r : Record} (hr : r ∈ s.log) : r.id < s.queue.nextId :=
  (h.mem_ids.mp (List.mem_map_of_mem hr)).2

lemma Inv.keyOf_ne_next (h : s.Inv cap) {r : Record} (hr : r ∈ s.log) :
    DurableQueue.keyOf r.id ≠ DurableQueue.keyOf s.queue.nextId := fun heq =>
  (h.id_lt hr).ne (DurableQueue.keyOf_inj ((h.id_lt hr).trans h.counter) h.counter heq)

lemma Inv.get_next (h : s.Inv cap) :
    s.queue.store.get (DurableQueue.keyOf s.queue.nextId) = none := by
  by_contra hsome
  obtain ⟨e, he⟩ := Option.ne_none_iff_exists'.mp hsome
  obtain ⟨r, hr, hkey⟩ := h.keys _ e he
  exact h.keyOf_ne_next hr hkey.symm

lemma Inv.assign (h : s.Inv cap) (hcounter : s.queue.nextId + 1 < 2 ^ 64) (e : Pending) (live : Bool)
    {store : SortedMap Bytes Pending}
    (hget : ∀ key, store.get key =
      if key = DurableQueue.keyOf s.queue.nextId then if live then some e else none
      else s.queue.store.get key)
    (hsize : store.entries.length ≤ cap) (reserved : List Nat) :
    Inv ⟨⟨store, s.queue.nextId + 1⟩, s.log ++ [⟨s.queue.nextId, e, live⟩], reserved⟩ cap := by
  refine ⟨Nat.le_add_left .., hcounter, ?_, ?_, ?_, hsize⟩
  · have hpos := h.pos
    rw [List.map_append, h.ids, List.map_singleton, Nat.add_sub_cancel]
    conv_rhs => rw [show s.queue.nextId = (s.queue.nextId - 1) + 1 by omega, List.range'_1_concat]
    rw [show 1 + (s.queue.nextId - 1) = s.queue.nextId by omega]
  · intro r hr
    rcases List.mem_append.mp hr with hr | hr
    · rw [hget, if_neg (h.keyOf_ne_next hr)]
      exact h.value r hr
    · rw [List.mem_singleton.mp hr, hget, if_pos rfl]
      rfl
  · intro key e' hkey
    rw [hget] at hkey
    split_ifs at hkey with hnext hlive
    · exact ⟨_, List.mem_append_right _ (.head _), hnext⟩
    · obtain ⟨r, hr, heq⟩ := h.keys key e' hkey
      exact ⟨r, List.mem_append_left _ hr, heq⟩

lemma Inv.rewrite (h : s.Inv cap) {f : Record → Record} (hid : ∀ r, (f r).id = r.id)
    (store : SortedMap Bytes Pending)
    (hvalue : ∀ r ∈ s.log, store.get (DurableQueue.keyOf r.id) = (f r).value)
    (hkeys : ∀ key, (store.get key).isSome → (s.queue.store.get key).isSome ∨
      ∃ r ∈ s.log, key = DurableQueue.keyOf r.id)
    (hsize : store.entries.length ≤ cap) (reserved : List Nat) :
    Inv ⟨⟨store, s.queue.nextId⟩, s.log.map f, reserved⟩ cap := by
  refine ⟨h.pos, h.counter, ?_, ?_, ?_, hsize⟩
  · rw [List.map_map, ← h.ids]
    exact List.map_congr_left (fun r _ => hid r)
  · intro r hr
    obtain ⟨r, hmem, rfl⟩ := List.mem_map.mp hr
    rw [hid]
    exact hvalue r hmem
  · intro key e hkey
    have hrecord : ∃ r ∈ s.log, key = DurableQueue.keyOf r.id := by
      rcases hkeys key (Option.isSome_of_mem hkey) with hold | hnew
      · obtain ⟨e', he'⟩ := Option.isSome_iff_exists.mp hold
        exact h.keys key e' he'
      · exact hnew
    obtain ⟨r, hr, heq⟩ := hrecord
    exact ⟨f r, List.mem_map_of_mem hr, by rw [hid, heq]⟩

lemma get_updateEntry (queue : DurableQueue) (key k : Bytes) (e : Pending) :
    (queue.updateEntry key e).store.get k = if k = key then some e else queue.store.get k := by
  rw [DurableQueue.updateEntry, SortedMap.get_insert]
  congr

lemma length_updateEntry_new {queue : DurableQueue} {key : Bytes} (hnone : queue.store.get key = none)
    (e : Pending) :
    (queue.updateEntry key e).store.entries.length = queue.store.entries.length + 1 := by
  have hlength := (SortedMap.entries_insert_perm queue.store key e).length_eq
  rw [SortedMap.erase_of_get_eq_none hnone] at hlength
  exact hlength

lemma length_updateEntry_stored {queue : DurableQueue} {key : Bytes} {e : Pending}
    (hsome : queue.store.get key = some e) (e' : Pending) :
    (queue.updateEntry key e').store.entries.length = queue.store.entries.length := by
  have hinsert := (SortedMap.entries_insert_perm queue.store key e').length_eq
  have herase := (SortedMap.entries_perm_erase hsome).length_eq
  rw [List.length_cons] at hinsert herase
  exact hinsert.trans herase.symm

lemma Inv.assign_unstored (h : s.Inv cap) (hcounter : s.queue.nextId + 1 < 2 ^ 64) (e : Pending)
    (reserved : List Nat) :
    Inv ⟨⟨s.queue.store, s.queue.nextId + 1⟩, s.log ++ [⟨s.queue.nextId, e, false⟩], reserved⟩ cap := by
  refine h.assign hcounter e false (fun key => ?_) h.size reserved
  by_cases hnext : key = DurableQueue.keyOf s.queue.nextId
  · rw [if_pos hnext, hnext]
    exact h.get_next
  · rw [if_neg hnext]

lemma Inv.enqueue (h : s.Inv cap) (e : Pending) (ok : Bool) : (s.enqueue cap e ok).Inv cap := by
  rw [State.enqueue]
  by_cases hroom : s.queue.hasRoom cap = true
  · rw [if_pos hroom]
    cases hkey : s.queue.reserveKey with
    | none => exact h
    | some reservation =>
      obtain ⟨key, queue⟩ := reservation
      obtain ⟨hcounter, rfl, rfl⟩ := DurableQueue.reserveKey_eq_some hkey
      cases ok with
      | false => exact h.assign_unstored hcounter e s.reserved
      | true =>
        refine h.assign hcounter e true (fun key => get_updateEntry s.queue _ key e) ?_ s.reserved
        exact (length_updateEntry_new h.get_next e).le.trans (of_decide_eq_true hroom)
  · rw [if_neg hroom]
    exact h

lemma Inv.reserveKey (h : s.Inv cap) (e : Pending) : (s.reserveKey e).Inv cap := by
  rw [State.reserveKey]
  cases hkey : s.queue.reserveKey with
  | none => exact h
  | some reservation =>
    obtain ⟨key, queue⟩ := reservation
    obtain ⟨hcounter, rfl, rfl⟩ := DurableQueue.reserveKey_eq_some hkey
    exact h.assign_unstored hcounter e _

lemma Inv.change (h : s.Inv cap) {r : Record} (hr : r ∈ s.log) {f : Record → Record} {e : Pending}
    (hid : ∀ r, (f r).id = r.id)
    (hvalue : ∀ r' ∈ s.log, r'.id = r.id → (f r').value = some e)
    (hsize : (s.queue.updateEntry (DurableQueue.keyOf r.id) e).store.entries.length ≤ cap)
    (reserved : List Nat) :
    Inv ⟨s.queue.updateEntry (DurableQueue.keyOf r.id) e, s.change r.id f, reserved⟩ cap := by
  refine h.rewrite (f := fun r' => if r'.id = r.id then f r' else r') (fun r' => ?_) _
    (fun r' hr' => ?_) (fun key hkey => ?_) hsize reserved
  · split_ifs
    · exact hid r'
    · rfl
  · rw [get_updateEntry]
    by_cases hsame : r'.id = r.id
    · rw [hsame, if_pos rfl, if_pos rfl, hvalue r' hr' hsame]
    · have hne : DurableQueue.keyOf r'.id ≠ DurableQueue.keyOf r.id := fun heq =>
        hsame (DurableQueue.keyOf_inj ((h.id_lt hr').trans h.counter) ((h.id_lt hr).trans h.counter) heq)
      rw [if_neg hne, if_neg hsame]
      exact h.value r' hr'
  · change ((s.queue.updateEntry _ e).store.get key).isSome at hkey
    rw [get_updateEntry] at hkey
    split_ifs at hkey with hself
    · exact .inr ⟨r, hr, hself⟩
    · exact .inl hkey

lemma Inv.eq_of_id (h : s.Inv cap) {r r' : Record} (hr : r ∈ s.log) (hr' : r' ∈ s.log)
    (hid : r.id = r'.id) : r = r' := by
  have hnodup : (s.log.map Record.id).Nodup := by
    rw [h.ids]
    exact List.nodup_range'
  exact List.inj_on_of_nodup_map hnodup hr hr' hid

lemma Inv.persistReserved (h : s.Inv cap) {r : Record} (hr : r ∈ s.log) (ok : Bool) :
    (s.persistReserved cap r ok).Inv cap := by
  rw [State.persistReserved]
  split_ifs with hstored hroom
  · exact { h with }
  · refine h.change hr (f := fun r => { r with live := true }) (fun _ => rfl)
      (fun r' hr' hid => ?_) ?_ _
    · rw [h.eq_of_id hr' hr hid]
      rfl
    · exact (length_updateEntry_new (Option.not_isSome_iff_eq_none.mp hstored) _).le.trans
        (of_decide_eq_true hroom.1)
  · exact h

lemma Inv.updateEntry (h : s.Inv cap) {id : Nat}
    (hstored : (s.queue.store.get (DurableQueue.keyOf id)).isSome) (hid : id < 2 ^ 64) (e : Pending) :
    (s.updateEntry id e).Inv cap := by
  obtain ⟨e', he'⟩ := Option.isSome_iff_exists.mp hstored
  obtain ⟨r, hr, hkey⟩ := h.keys _ e' he'
  obtain rfl := DurableQueue.keyOf_inj hid ((h.id_lt hr).trans h.counter) hkey
  refine h.change hr (f := fun r => { r with entry := e }) (fun _ => rfl)
    (fun r' hr' hsame => ?_) ?_ _
  · have hvalue := h.value r' hr'
    rw [hsame, he', Record.value] at hvalue
    split_ifs at hvalue with hlive
    exact if_pos hlive
  · rw [length_updateEntry_stored he']
    exact h.size

lemma length_foldl_ackKey_le (keys : List Bytes) (queue : DurableQueue) :
    (keys.foldl DurableQueue.ackKey queue).store.entries.length ≤ queue.store.entries.length := by
  induction keys generalizing queue with
  | nil => exact le_rfl
  | cons key keys ih => exact (ih _).trans (List.length_filter_le ..)

lemma Inv.ackKeys (h : s.Inv cap) {ids : List Nat} (hids : ∀ id ∈ ids, id < 2 ^ 64) :
    (s.ackKeys ids).Inv cap := by
  have hget := DurableQueue.get_foldl_ackKey (ids.map DurableQueue.keyOf) s.queue
  have hkey : ∀ r ∈ s.log, DurableQueue.keyOf r.id ∈ ids.map DurableQueue.keyOf ↔ r.id ∈ ids := by
    intro r hr
    refine ⟨fun hmem => ?_, fun hmem => List.mem_map_of_mem hmem⟩
    obtain ⟨id, hid, heq⟩ := List.mem_map.mp hmem
    rw [← DurableQueue.keyOf_inj (hids id hid) ((h.id_lt hr).trans h.counter) heq]
    exact hid
  have hrewrite := h.rewrite (f := fun r => if r.id ∈ ids then { r with live := false } else r)
    (fun r => by split_ifs <;> rfl)
    ((ids.map DurableQueue.keyOf).foldl DurableQueue.ackKey s.queue).store (fun r hr => ?_) (fun key hsome => .inl ?_)
    ((length_foldl_ackKey_le _ _).trans h.size) s.reserved
  · have hnext := DurableQueue.nextId_foldl_ackKey (ids.map DurableQueue.keyOf) s.queue
    rw [← hnext] at hrewrite
    exact hrewrite
  · rw [hget]
    by_cases hmem : r.id ∈ ids
    · rw [if_pos ((hkey r hr).mpr hmem), if_pos hmem]
      rfl
    · rw [if_neg (fun hk => hmem ((hkey r hr).mp hk)), if_neg hmem]
      exact h.value r hr
  · rw [hget] at hsome
    split_ifs at hsome
    · cases hsome
    · exact hsome

lemma Inv.next (h : s.Inv cap) {label : Label} (hgood : s.KeepsCounter label) {t : State}
    (ht : s.next cap label = some t) : t.Inv cap := by
  cases label with
  | enqueue e ok =>
    obtain rfl := Option.some.inj ht
    exact h.enqueue e ok
  | reserveKey e =>
    obtain rfl := Option.some.inj ht
    exact h.reserveKey e
  | persistReserved id ok =>
    obtain ⟨-, ht⟩ := Option.ite_none_right_eq_some.mp ht
    obtain ⟨r, hr, rfl⟩ := Option.map_eq_some_iff.mp ht
    exact h.persistReserved (List.mem_of_find?_eq_some hr) ok
  | ackKeys ids =>
    obtain ⟨hids, ht⟩ := Option.ite_none_right_eq_some.mp ht
    obtain rfl := Option.some.inj ht
    exact h.ackKeys hids
  | updateEntry id e =>
    obtain ⟨⟨hid, hstored⟩, ht⟩ := Option.ite_none_right_eq_some.mp ht
    obtain rfl := Option.some.inj ht
    exact h.updateEntry hstored hid e
  | reopen =>
    obtain ⟨nextId, hnext, rfl⟩ := Option.map_eq_some_iff.mp ht
    obtain rfl := Option.some.inj (hnext.symm.trans hgood)
    exact { h with }

lemma inv_opened (cap : Nat) : opened.Inv cap :=
  ⟨le_rfl, by decide, rfl, fun _ hr => (nomatch hr), fun _ _ hget => (nomatch hget),
    Nat.zero_le _⟩

lemma Inv.entries_eq (h : s.Inv cap) : s.queue.store.entries =
    (s.log.filter Record.live).map Record.pair := by
  have hids : s.log.Pairwise (fun a b => a.id < b.id) := by
    have hrange : (s.log.map Record.id).Pairwise (· < ·) := by
      rw [h.ids]
      exact List.pairwise_lt_range'
    exact List.pairwise_map.mp hrange
  have hsorted : ((s.log.filter Record.live).map Record.pair).Pairwise
      (fun a b => a.1 < b.1) := by
    refine List.pairwise_map.mpr ((hids.filter _).imp_of_mem (fun _ hb hlt => ?_))
    exact DurableQueue.keyOf_lt_keyOf hlt ((h.id_lt (List.mem_of_mem_filter hb)).trans h.counter)
  suffices hmap : s.queue.store = ⟨_, hsorted⟩ from congrArg SortedMap.entries hmap
  refine SortedMap.ext (fun key => Option.ext (fun e => ?_))
  rw [SortedMap.get_eq_some_iff (m := ⟨_, hsorted⟩), List.mem_map]
  constructor
  · intro hget
    obtain ⟨r, hr, rfl⟩ := h.keys key e hget
    have hvalue := (h.value r hr).symm.trans hget
    rw [Record.value] at hvalue
    split_ifs at hvalue with hlive
    exact ⟨r, List.mem_filter.mpr ⟨hr, hlive⟩, by rw [Record.pair, Option.some.inj hvalue]⟩
  · rintro ⟨r, hr, heq⟩
    obtain ⟨hmem, hlive⟩ := List.mem_filter.mp hr
    obtain ⟨rfl, rfl⟩ := Prod.mk.inj heq
    rw [h.value r hmem, Record.value, if_pos hlive]

lemma Inv.isFifo (h : s.Inv cap) : s.IsFifo cap := by
  refine ⟨fun limit => ?_, h.size, ?_⟩
  · rw [DurableQueue.drainBatch, h.entries_eq]
  · rw [h.ids]
    exact List.nodup_range'

/-- A reopening that does not keep the counter goes back to an id assigned before. -/
lemma Inv.recovered_assigned (h : s.Inv cap) {nextId : Nat}
    (hnext : DurableQueue.recoverNextId s.queue.store = some nextId) (hne : nextId ≠ s.queue.nextId) :
    nextId ∈ s.log.map Record.id := by
  have hpos := h.pos
  rw [h.mem_ids]
  rw [DurableQueue.recoverNextId] at hnext
  cases hlast : s.queue.store.entries.getLast? with
  | none =>
    rw [hlast] at hnext
    obtain rfl := Option.some.inj hnext
    omega
  | some last =>
    obtain ⟨key, e⟩ := last
    obtain ⟨r, hr, rfl⟩ := h.keys key e (SortedMap.get_eq_some_iff.mpr (List.mem_of_getLast? hlast))
    have hlt := h.id_lt hr
    have hcounter := h.counter
    have hlen : (DurableQueue.keyOf r.id).length = 8 := Bytes.length_ofNatBE 8 r.id
    rw [hlast] at hnext
    dsimp only at hnext
    rw [if_pos hlen, DurableQueue.toNatBE_keyOf (by omega)] at hnext
    obtain ⟨-, heq⟩ := Option.ite_none_right_eq_some.mp hnext
    obtain rfl := Option.some.inj heq
    omega

end State

end NodedbLite.Outbound.Fifo
