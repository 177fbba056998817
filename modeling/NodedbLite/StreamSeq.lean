import NodedbLite.CrdtReplay
import NodedbLite.ExceptFold
import NodedbLite.GuardedRun
import NodedbLite.PrefixScan
import NodedbLite.TicketRegister

/-! `StreamSeqTracker`: the frontier of every outbound stream, changed in memory under a lock and
stored after the lock is released. Calls run concurrently, so their puts land in any order. -/
namespace NodedbLite.Sync

open ExceptFold GuardedRun PrefixScan TicketRegister

abbrev StreamId := Fin (2 ^ 64)

structure Frontier where
  lastAssigned : Nat
  lastAcked : Nat
  deriving DecidableEq

def streamSeqPrefix : Bytes := Bytes.ofString "sync.stream_seq:"

/-- `sync.stream_seq:<stream_id:016x>`. -/
def streamSeqKey (stream : StreamId) : Bytes := streamSeqPrefix ++ Digits.encode 16 16 stream

def encodeFrontier (f : Frontier) : Bytes :=
  Bytes.ofNatBE 8 f.lastAssigned ++ Bytes.ofNatBE 8 f.lastAcked

inductive LoadError
  | nonUtf8StreamId
  | invalidHexStreamId (id : String)
  | frontierWrongLength (length : Nat) (stream : StreamId)

/-- One stored frontier. A stream id that reads as hexadecimal is ASCII, so text that is not UTF-8
is told from a wrong number only where the number fails. -/
def parseFrontier (entry : Bytes × Bytes) : Except LoadError (StreamId × Frontier) :=
  let idBytes := entry.1.drop streamSeqPrefix.length
  match Crdt.fromStrRadix16 idBytes with
  | none =>
    match Bytes.toString? idBytes with
    | none => .error .nonUtf8StreamId
    | some id => .error (.invalidHexStreamId id)
  | some n =>
    let stream : StreamId := Fin.ofNat (2 ^ 64) n
    if entry.2.length = 16 then
      .ok (stream, ⟨Bytes.toNatBE (entry.2.take 8), Bytes.toNatBE (entry.2.drop 8)⟩)
    else .error (.frontierWrongLength entry.2.length stream)

def loadEntry (state : SortedMap StreamId Frontier) (entry : Bytes × Bytes) :
    Except LoadError (SortedMap StreamId Frontier) :=
  (parseFrontier entry).map (fun p => state.insert p.1 p.2)

def load (stored : SortedMap Bytes Bytes) : Except LoadError (SortedMap StreamId Frontier) :=
  ((stored.fromKey streamSeqPrefix).takeWhile (fun e => streamSeqPrefix.isPrefixOf e.1)).foldlM
    loadEntry SortedMap.empty

/-- The put of a call that has left the lock; `next_seq` returns its number once it has landed. -/
structure SeqPut where
  stream : StreamId
  frontier : Frontier
  returns : Option Nat

structure SeqSys where
  state : SortedMap StreamId Frontier
  stored : SortedMap Bytes Bytes
  puts : List SeqPut
  returned : List (StreamId × Nat)

namespace SeqSys

def frontier (s : SeqSys) (stream : StreamId) : Frontier := (s.state.get stream).getD ⟨0, 0⟩

def nextSeq (s : SeqSys) (stream : StreamId) : SeqSys :=
  let next := ((s.frontier stream).lastAssigned + 1) % 2 ^ 64
  let entry := { s.frontier stream with lastAssigned := next }
  { s with
    state := s.state.insert stream entry
    puts := s.puts ++ [⟨stream, entry, some next⟩] }

def recordAck (s : SeqSys) (stream : StreamId) (appliedSeq : Fin (2 ^ 64)) : SeqSys :=
  if appliedSeq ≤ (s.frontier stream).lastAcked then
    { s with state := s.state.insert stream (s.frontier stream) }
  else
    let entry := ⟨max (s.frontier stream).lastAssigned appliedSeq, appliedSeq⟩
    { s with
      state := s.state.insert stream entry
      puts := s.puts ++ [⟨stream, entry, none⟩] }

def land (s : SeqSys) (i : Nat) (p : SeqPut) : SeqSys :=
  { s with
    stored := s.stored.insert (streamSeqKey p.stream) (encodeFrontier p.frontier)
    puts := s.puts.eraseIdx i
    returned := s.returned ++ p.returns.toList.map (p.stream, ·) }

end SeqSys

inductive SeqLabel
  | nextSeq (stream : StreamId)
  | recordAck (stream : StreamId) (appliedSeq : Fin (2 ^ 64))
  | land (i : Nat)
  | fail (i : Nat)
  /-- Another component writes to the same namespace. -/
  | other (w : SortedMap.Write Bytes Bytes)
  | crash

def seqStep (s : SeqSys) : SeqLabel → Option SeqSys
  | .nextSeq stream => some (s.nextSeq stream)
  | .recordAck stream appliedSeq => some (s.recordAck stream appliedSeq)
  | .land i => (s.puts[i]?).map (s.land i)
  | .fail i => (s.puts[i]?).map (fun _ => { s with puts := s.puts.eraseIdx i })
  | .other w =>
    if streamSeqPrefix.isPrefixOf w.key then none else some { s with stored := s.stored.write w }
  | .crash =>
    match load s.stored with
    | .ok state => some { s with state, puts := [] }
    | .error _ => none

/-- A database that has sent nothing yet, over whatever else the namespace holds. -/
def SeqSys.opened (others : SortedMap Bytes Bytes) : SeqSys :=
  ⟨SortedMap.empty, others.filter (fun k _ => !streamSeqPrefix.isPrefixOf k), [], []⟩

section Load

def Frontier.Fits (f : Frontier) : Prop := f.lastAssigned < 2 ^ 64 ∧ f.lastAcked < 2 ^ 64

lemma streamSeqKey_injective : Function.Injective streamSeqKey := by
  intro a b h
  have hdigits := List.append_cancel_left h
  have hpow : (16 : Nat) ^ 16 = 2 ^ 64 := by norm_num
  apply Fin.ext
  exact Digits.encode_injOn (by decide) (by decide) (a.isLt.trans_eq hpow.symm) (b.isLt.trans_eq hpow.symm) hdigits

lemma toNatBE_take_encodeFrontier {f : Frontier} (h : f.lastAssigned < 2 ^ 64) :
    Bytes.toNatBE ((encodeFrontier f).take 8) = f.lastAssigned := by
  have htake : (encodeFrontier f).take 8 = Bytes.ofNatBE 8 f.lastAssigned :=
    List.take_left' (Bytes.length_ofNatBE 8 _)
  have hpow : (256 : Nat) ^ 8 = 2 ^ 64 := by norm_num
  rw [htake, Bytes.toNatBE_ofNatBE, hpow, Nat.mod_eq_of_lt h]

lemma toNatBE_drop_encodeFrontier {f : Frontier} (h : f.lastAcked < 2 ^ 64) :
    Bytes.toNatBE ((encodeFrontier f).drop 8) = f.lastAcked := by
  have hdrop : (encodeFrontier f).drop 8 = Bytes.ofNatBE 8 f.lastAcked :=
    List.drop_left' (Bytes.length_ofNatBE 8 _)
  have hpow : (256 : Nat) ^ 8 = 2 ^ 64 := by norm_num
  rw [hdrop, Bytes.toNatBE_ofNatBE, hpow, Nat.mod_eq_of_lt h]

lemma parseFrontier_encode (stream : StreamId) {f : Frontier} (h : f.Fits) :
    parseFrontier (streamSeqKey stream, encodeFrontier f) = .ok (stream, f) := by
  have hid : (streamSeqKey stream).drop streamSeqPrefix.length = Digits.encode 16 16 stream :=
    List.drop_left' rfl
  have hlen : (encodeFrontier f).length = 16 := by simp [encodeFrontier]
  have hback : Fin.ofNat (2 ^ 64) stream.val = stream := by
    apply Fin.ext
    exact Nat.mod_eq_of_lt stream.isLt
  simp only [parseFrontier, hid, Crdt.fromStrRadix16_encode stream.isLt, hlen, if_true, hback,
    toNatBE_take_encodeFrontier h.1, toNatBE_drop_encodeFrontier h.2]

/-- Loading a list of entries that all parse: each stream has the frontier of one of its own. -/
lemma foldlM_loadEntry {es : List (Bytes × Bytes)} {g : Bytes × Bytes → StreamId × Frontier}
    (h : ∀ e ∈ es, parseFrontier e = .ok (g e)) (m : SortedMap StreamId Frontier) :
    ∃ m', es.foldlM loadEntry m = .ok m' ∧ ∀ stream,
      ((∀ e ∈ es, (g e).1 ≠ stream) ∧ m'.get stream = m.get stream) ∨
        ∃ e ∈ es, (g e).1 = stream ∧ m'.get stream = some (g e).2 := by
  induction es generalizing m with
  | nil => exact ⟨m, rfl, fun stream => .inl ⟨fun e he => absurd he List.not_mem_nil, rfl⟩⟩
  | cons e es ih =>
    obtain ⟨m', hm', hget⟩ := ih (fun x hx => h x (List.mem_cons_of_mem _ hx))
      (m.insert (g e).1 (g e).2)
    have hturn : loadEntry m e = .ok (m.insert (g e).1 (g e).2) := by
      rw [loadEntry, h e List.mem_cons_self]
      rfl
    refine ⟨m', foldlM_cons_ok.mpr ⟨_, hturn, hm'⟩, fun stream => ?_⟩
    rcases hget stream with ⟨hnone, hsame⟩ | ⟨x, hx, hstream, hval⟩
    · rw [SortedMap.get_insert] at hsame
      by_cases heq : stream = (g e).1
      · rw [if_pos heq] at hsame
        exact .inr ⟨e, List.mem_cons_self, heq.symm, hsame⟩
      · rw [if_neg heq] at hsame
        refine .inl ⟨fun x hx => ?_, hsame⟩
        rcases List.mem_cons.mp hx with rfl | hx
        · exact fun h => heq h.symm
        · exact hnone x hx
    · exact .inr ⟨x, List.mem_cons_of_mem _ hx, hstream, hval⟩

/-- Every stored frontier was stored by a call. -/
def Canonical (stored : SortedMap Bytes Bytes) : Prop :=
  ∀ k v, stored.get k = some v → streamSeqPrefix <+: k →
    ∃ stream f, f.Fits ∧ k = streamSeqKey stream ∧ v = encodeFrontier f

/-- The number a reload continues from. -/
def storedAssigned (stored : SortedMap Bytes Bytes) (stream : StreamId) : Nat :=
  ((stored.get (streamSeqKey stream)).map (fun v => Bytes.toNatBE (v.take 8))).getD 0

lemma prefix_streamSeqKey (stream : StreamId) : streamSeqPrefix <+: streamSeqKey stream :=
  List.prefix_append _ _

theorem load_of_canonical {stored : SortedMap Bytes Bytes} (h : Canonical stored) :
    ∃ m, load stored = .ok m ∧ ∀ stream, ((m.get stream).getD ⟨0, 0⟩).Fits ∧
      ((m.get stream).getD ⟨0, 0⟩).lastAssigned = storedAssigned stored stream := by
  have hparse : ∀ e ∈ entriesUnder stored streamSeqPrefix, ∃ p : StreamId × Frontier,
      p.2.Fits ∧ e = (streamSeqKey p.1, encodeFrontier p.2) ∧ parseFrontier e = .ok p := by
    rintro ⟨k, v⟩ he
    obtain ⟨hget, hpre⟩ := mem_entriesUnder.mp he
    obtain ⟨stream, f, hfits, rfl, rfl⟩ := h k v hget hpre
    exact ⟨(stream, f), hfits, rfl, parseFrontier_encode stream hfits⟩
  have : Nonempty (StreamId × Frontier) := ⟨(0, ⟨0, 0⟩)⟩
  choose! g hfits hentry hok using hparse
  obtain ⟨m, hm, hget⟩ := foldlM_loadEntry hok SortedMap.empty
  refine ⟨m, ?_, fun stream => ?_⟩
  · rw [load, takeWhile_fromKey, hm]
  · rcases hget stream with ⟨hnone, hsame⟩ | ⟨e, he, hstream, hval⟩
    · have habsent : stored.get (streamSeqKey stream) = none := by
        by_contra hsome
        obtain ⟨v, hv⟩ := Option.ne_none_iff_exists'.mp hsome
        have hmem := mem_entriesUnder.mpr ⟨hv, prefix_streamSeqKey stream⟩
        refine hnone _ hmem (streamSeqKey_injective ?_)
        exact (congrArg Prod.fst (hentry _ hmem)).symm
      rw [hsame, SortedMap.get_empty, storedAssigned, habsent]
      exact ⟨⟨by norm_num, by norm_num⟩, rfl⟩
    · have hstored : stored.get (streamSeqKey stream) = some (encodeFrontier (g e).2) := by
        have hmem : (streamSeqKey (g e).1, encodeFrontier (g e).2) ∈
            entriesUnder stored streamSeqPrefix := hentry e he ▸ he
        rw [← hstream]
        exact (mem_entriesUnder.mp hmem).1
      rw [hval, storedAssigned, hstored]
      exact ⟨hfits e he, (toNatBE_take_encodeFrontier (hfits e he).1).symm⟩

end Load

section Runs

variable {s t : SeqSys} {stream : StreamId}

/-- The numbers `next_seq` has returned on a stream. -/
def returnedOn (returned : List (StreamId × Nat)) (stream : StreamId) : List Nat :=
  returned.filterMap (fun r => if r.1 = stream then some r.2 else none)

def flyingOn (puts : List SeqPut) (stream : StreamId) : List TicketRegister.Write :=
  puts.filterMap (fun p => if p.stream = stream then some ⟨p.frontier.lastAssigned, p.returns⟩
    else none)

/-- One stream of the tracker, as a register that hands out numbers. -/
def SeqSys.register (s : SeqSys) (stream : StreamId) : Register :=
  ⟨(s.frontier stream).lastAssigned, storedAssigned s.stored stream, flyingOn s.puts stream,
    returnedOn s.returned stream⟩

structure SeqSys.Tracked (s : SeqSys) : Prop where
  canonical : Canonical s.stored
  stateFits : ∀ stream, (s.frontier stream).Fits
  putsFit : ∀ p ∈ s.puts, p.frontier.Fits
  fresh : ∀ stream, Fresh (s.register stream)

/-- Puts land in an order that keeps the stored number from going back, and no number is taken
once the last one is the highest there is. -/
def KeepsOrder (s : SeqSys) : SeqLabel → Prop
  | .nextSeq stream => (s.frontier stream).lastAssigned + 1 < 2 ^ 64
  | .land i => ∀ p ∈ s.puts[i]?, storedAssigned s.stored p.stream ≤ p.frontier.lastAssigned
  | .recordAck .. | .fail _ | .other _ | .crash => True

instance (s : SeqSys) : ∀ l, Decidable (KeepsOrder s l)
  | .nextSeq stream => inferInstanceAs (Decidable ((s.frontier stream).lastAssigned + 1 < 2 ^ 64))
  | .land i => inferInstanceAs (Decidable (∀ p ∈ s.puts[i]?,
      storedAssigned s.stored p.stream ≤ p.frontier.lastAssigned))
  | .recordAck .. | .fail _ | .other _ | .crash => isTrue trivial

lemma frontier_insert (m : SortedMap StreamId Frontier) (k j : StreamId) (f : Frontier) :
    ((m.insert k f).get j).getD ⟨0, 0⟩ = if j = k then f else (m.get j).getD ⟨0, 0⟩ := by
  rw [SortedMap.get_insert]
  split_ifs <;> rfl

lemma storedAssigned_insert {m : SortedMap Bytes Bytes} {k j : StreamId} {f : Frontier}
    (h : f.Fits) : storedAssigned (m.insert (streamSeqKey k) (encodeFrontier f)) j =
      if j = k then f.lastAssigned else storedAssigned m j := by
  rw [storedAssigned, SortedMap.get_insert]
  by_cases hj : j = k
  · rw [if_pos (congrArg streamSeqKey hj), if_pos hj, Option.map_some, Option.getD_some,
      toNatBE_take_encodeFrontier h.1]
  · rw [if_neg (fun heq => hj (streamSeqKey_injective heq)), if_neg hj, storedAssigned]

lemma flyingOn_append (a b : List SeqPut) (stream : StreamId) :
    flyingOn (a ++ b) stream = flyingOn a stream ++ flyingOn b stream := List.filterMap_append

lemma flyingOn_cons_self (p : SeqPut) (ps : List SeqPut) :
    flyingOn (p :: ps) p.stream =
      ⟨p.frontier.lastAssigned, p.returns⟩ :: flyingOn ps p.stream := by
  simp [flyingOn]

lemma flyingOn_cons_of_ne {p : SeqPut} (ps : List SeqPut) (h : p.stream ≠ stream) :
    flyingOn (p :: ps) stream = flyingOn ps stream := by
  simp [flyingOn, h]

lemma returnedOn_append_self (returned : List (StreamId × Nat)) (stream : StreamId)
    (ns : List Nat) : returnedOn (returned ++ ns.map (stream, ·)) stream =
      returnedOn returned stream ++ ns := by
  simp [returnedOn, List.filterMap_append, List.filterMap_map]

lemma returnedOn_append_of_ne {k : StreamId} (returned : List (StreamId × Nat)) (ns : List Nat)
    (h : k ≠ stream) : returnedOn (returned ++ ns.map (k, ·)) stream =
      returnedOn returned stream := by
  simp [returnedOn, List.filterMap_append, List.filterMap_map, h]

lemma tracked_opened (others : SortedMap Bytes Bytes) : (SeqSys.opened others).Tracked where
  canonical k v hget hpre := by
    have hkeep := SortedMap.mem_entries_filter.mp (SortedMap.get_eq_some_iff.mp hget)
    rw [List.isPrefixOf_iff_prefix.mpr hpre] at hkeep
    exact absurd hkeep.2 (by decide)
  stateFits _ := ⟨by norm_num [SeqSys.opened, SeqSys.frontier],
    by norm_num [SeqSys.opened, SeqSys.frontier]⟩
  putsFit p hp := absurd hp List.not_mem_nil
  fresh stream := by
    have hnone : (SeqSys.opened others).stored.get (streamSeqKey stream) = none := by
      rw [SeqSys.opened, SortedMap.get_filter,
        List.isPrefixOf_iff_prefix.mpr (prefix_streamSeqKey stream)]
      exact Option.filter_eq_none_iff.mpr (fun v _ => by decide)
    have hzero : storedAssigned (SeqSys.opened others).stored stream = 0 := by
      rw [storedAssigned, hnone]
      rfl
    refine ⟨fun n hn => absurd hn List.not_mem_nil, ?_, fun w hw => absurd hw List.not_mem_nil,
      fun w hw => absurd hw List.not_mem_nil, List.nodup_nil⟩
    rw [SeqSys.register, hzero]
    exact Nat.zero_le _

/-- A call on one stream changes the register of that stream only. -/
lemma SeqSys.Tracked.call {s : SeqSys} (h : s.Tracked) {k : StreamId} {f : Frontier}
    {all puts : List SeqPut} (hall : all = s.puts ++ puts) (hf : f.Fits)
    (hputs : ∀ p ∈ puts, p.frontier = f ∧ p.stream = k)
    (hfresh : Fresh ⟨f.lastAssigned, storedAssigned s.stored k,
      flyingOn s.puts k ++ flyingOn puts k, returnedOn s.returned k⟩) :
    Tracked { s with state := s.state.insert k f, puts := all } where
  canonical := h.canonical
  stateFits j := by
    rw [SeqSys.frontier, frontier_insert]
    split_ifs
    · exact hf
    · exact h.stateFits j
  putsFit p hp := by
    rcases List.mem_append.mp (hall ▸ hp) with hp | hp
    · exact h.putsFit p hp
    · rw [(hputs p hp).1]
      exact hf
  fresh j := by
    rw [SeqSys.register, SeqSys.frontier, frontier_insert, hall, flyingOn_append]
    by_cases hj : j = k
    · rw [if_pos hj, hj]
      exact hfresh
    · have hnone : flyingOn puts j = [] := by
        rw [flyingOn, List.filterMap_eq_nil_iff]
        intro p hp
        rw [if_neg]
        exact fun heq => hj (heq.symm.trans (hputs p hp).2)
      rw [if_neg hj, hnone, List.append_nil]
      exact h.fresh j

lemma SeqSys.Tracked.nextSeq (h : s.Tracked)
    (hroom : (s.frontier stream).lastAssigned + 1 < 2 ^ 64) : (s.nextSeq stream).Tracked := by
  rw [SeqSys.nextSeq, Nat.mod_eq_of_lt hroom]
  refine h.call rfl ⟨hroom, (h.stateFits stream).2⟩ ?_ ?_
  · intro p hp
    rw [List.mem_singleton.mp hp]
    exact ⟨rfl, rfl⟩
  · rw [flyingOn_cons_self ⟨stream, _, _⟩]
    exact (h.fresh stream).take

lemma SeqSys.Tracked.recordAck (h : s.Tracked) (appliedSeq : Fin (2 ^ 64)) :
    (s.recordAck stream appliedSeq).Tracked := by
  rw [SeqSys.recordAck]
  split_ifs with hold
  · refine h.call (List.append_nil s.puts).symm (h.stateFits stream)
      (fun p hp => absurd hp List.not_mem_nil) ?_
    rw [show flyingOn [] stream = [] from rfl, List.append_nil]
    exact h.fresh stream
  · refine h.call rfl ⟨?_, appliedSeq.isLt⟩ ?_ ?_
    · exact max_lt (h.stateFits stream).1 appliedSeq.isLt
    · intro p hp
      rw [List.mem_singleton.mp hp]
      exact ⟨rfl, rfl⟩
    · rw [flyingOn_cons_self ⟨stream, _, _⟩]
      exact (h.fresh stream).raise appliedSeq

lemma exists_split {puts : List SeqPut} {i : Nat} {p : SeqPut} (h : puts[i]? = some p) :
    ∃ a b, puts = a ++ p :: b ∧ puts.eraseIdx i = a ++ b := by
  obtain ⟨hi, hget⟩ := List.getElem?_eq_some_iff.mp h
  refine ⟨puts.take i, puts.drop (i + 1), ?_, List.eraseIdx_eq_take_drop_succ puts i⟩
  rw [← hget, List.getElem_cons_drop, List.take_append_drop]

lemma SeqSys.Tracked.fail (h : s.Tracked) {i : Nat} {p : SeqPut} (hp : s.puts[i]? = some p) :
    SeqSys.Tracked { s with puts := s.puts.eraseIdx i } := by
  obtain ⟨a, b, hputs, herase⟩ := exists_split hp
  refine ⟨h.canonical, h.stateFits, fun q hq => ?_, fun stream => ?_⟩
  · exact h.putsFit q (List.mem_of_mem_eraseIdx hq)
  · have hfresh := h.fresh stream
    rw [SeqSys.register, hputs, flyingOn_append] at hfresh
    rw [SeqSys.register]
    dsimp only
    rw [herase, flyingOn_append]
    by_cases hstream : p.stream = stream
    · subst hstream
      rw [flyingOn_cons_self] at hfresh
      exact hfresh.lose
    · rw [flyingOn_cons_of_ne b hstream] at hfresh
      exact hfresh

lemma SeqSys.Tracked.land (h : s.Tracked) {i : Nat} {p : SeqPut} (hp : s.puts[i]? = some p)
    (horder : storedAssigned s.stored p.stream ≤ p.frontier.lastAssigned) :
    (s.land i p).Tracked := by
  have hfits : p.frontier.Fits := h.putsFit p (List.mem_of_getElem? hp)
  obtain ⟨a, b, hputs, herase⟩ := exists_split hp
  refine ⟨fun k v hget hpre => ?_, h.stateFits, (h.fail hp).putsFit, fun stream => ?_⟩
  · rw [SeqSys.land, SortedMap.get_insert] at hget
    split_ifs at hget with hk
    · exact ⟨p.stream, p.frontier, hfits, hk, (Option.some.inj hget).symm⟩
    · exact h.canonical k v hget hpre
  · have hfresh := h.fresh stream
    rw [SeqSys.register, hputs, flyingOn_append] at hfresh
    rw [SeqSys.register, SeqSys.land]
    dsimp only
    rw [herase, flyingOn_append, storedAssigned_insert hfits]
    by_cases hstream : p.stream = stream
    · subst hstream
      rw [flyingOn_cons_self] at hfresh
      rw [if_pos rfl, returnedOn_append_self]
      exact hfresh.land horder
    · rw [flyingOn_cons_of_ne b hstream] at hfresh
      rw [if_neg (Ne.symm hstream), returnedOn_append_of_ne _ _ hstream]
      exact hfresh

lemma SeqSys.Tracked.other (h : s.Tracked) {w : SortedMap.Write Bytes Bytes}
    (hw : ¬ streamSeqPrefix.isPrefixOf w.key = true) :
    SeqSys.Tracked { s with stored := s.stored.write w } := by
  have hsame : ∀ k, streamSeqPrefix <+: k → (s.stored.write w).get k = s.stored.get k := by
    intro k hpre
    rw [SortedMap.get_write, if_neg]
    intro hk
    exact hw (List.isPrefixOf_iff_prefix.mpr (hk ▸ hpre))
  refine ⟨fun k v hget hpre => h.canonical k v (hsame k hpre ▸ hget) hpre, h.stateFits, h.putsFit,
    fun stream => ?_⟩
  have hstored : storedAssigned (s.stored.write w) stream = storedAssigned s.stored stream := by
    rw [storedAssigned, hsame _ (prefix_streamSeqKey stream), storedAssigned]
  rw [SeqSys.register, hstored]
  exact h.fresh stream

lemma SeqSys.Tracked.crash (h : s.Tracked) {state : SortedMap StreamId Frontier}
    (hload : load s.stored = .ok state) : SeqSys.Tracked { s with state, puts := [] } := by
  obtain ⟨m, hm, hget⟩ := load_of_canonical h.canonical
  obtain rfl : m = state := Except.ok.inj (hm.symm.trans hload)
  refine ⟨h.canonical, fun stream => (hget stream).1, fun p hp => absurd hp List.not_mem_nil,
    fun stream => ?_⟩
  rw [SeqSys.register, SeqSys.frontier, (hget stream).2]
  exact (h.fresh stream).reload

theorem tracked_seqStep {l : SeqLabel} (h : s.Tracked) (hgood : KeepsOrder s l)
    (hstep : seqStep s l = some t) : t.Tracked := by
  cases l with
  | nextSeq stream => exact Option.some.inj hstep ▸ h.nextSeq hgood
  | recordAck stream appliedSeq => exact Option.some.inj hstep ▸ h.recordAck appliedSeq
  | land i =>
    obtain ⟨p, hp, rfl⟩ := Option.map_eq_some_iff.mp hstep
    exact h.land hp (hgood p hp)
  | fail i =>
    obtain ⟨p, hp, rfl⟩ := Option.map_eq_some_iff.mp hstep
    exact h.fail hp
  | other w =>
    rw [seqStep] at hstep
    split_ifs at hstep with hw
    exact Option.some.inj hstep ▸ h.other hw
  | crash =>
    rw [seqStep] at hstep
    cases hload : load s.stored with
    | error e => rw [hload] at hstep; cases hstep
    | ok state =>
      rw [hload] at hstep
      exact Option.some.inj hstep ▸ h.crash hload

/-- No number is returned twice on a stream, in any run whose puts land in order. -/
theorem nextSeq_returns_fresh (others : SortedMap Bytes Bytes)
    (h : Reaches seqStep KeepsOrder (SeqSys.opened others) s) :
    ∀ stream, (returnedOn s.returned stream).Nodup := by
  have htracked : s.Tracked := h.invariant (tracked_opened others)
    (fun _ _ _ hs hgood hstep => tracked_seqStep hs hgood hstep)
  intro stream
  exact (List.nodup_append.mp (htracked.fresh stream).nodup).1

/-- Numbers taken one after another, an acknowledgement, and a crash with a put on its way. -/
def orderedCalls : List SeqLabel :=
  [.nextSeq 7, .nextSeq 7, .land 0, .land 0, .recordAck 7 5, .nextSeq 7, .land 0, .crash,
    .nextSeq 7, .land 0]

theorem nextSeq_returns_fresh_run :
    ∃ s, runAll seqStep (SeqSys.opened SortedMap.empty) orderedCalls = some s ∧
      returnedOn s.returned 7 = [1, 2, 6] ∧ ∀ stream, (returnedOn s.returned stream).Nodup := by
  have hrun : (runAll seqStep (SeqSys.opened SortedMap.empty) orderedCalls).map
      (fun s => returnedOn s.returned 7) = some [1, 2, 6] := by decide +kernel
  obtain ⟨s, hs, hobs⟩ := Option.map_eq_some_iff.mp hrun
  have hgood : GoodAll seqStep KeepsOrder (SeqSys.opened SortedMap.empty) orderedCalls :=
    goodAll_of_check (by decide +kernel)
  exact ⟨s, hs, hobs, nextSeq_returns_fresh _ (Reaches.of_runAll hgood hs)⟩

/-- The put of the second call lands before that of the first, then the process restarts. -/
def overtakingCalls : List SeqLabel :=
  [.nextSeq 7, .nextSeq 7, .land 1, .land 0, .crash, .nextSeq 7, .land 0]

/-- The overtaken put sets the stored number back, and the restarted tracker returns 2 again. -/
theorem overtaken_put_repeats_number :
    ∃ s, runAll seqStep (SeqSys.opened SortedMap.empty) overtakingCalls = some s ∧
      ¬ (returnedOn s.returned 7).Nodup := by
  have hrun : (runAll seqStep (SeqSys.opened SortedMap.empty) overtakingCalls).map
      (fun s => returnedOn s.returned 7) = some [2, 1, 2] := by decide +kernel
  obtain ⟨s, hs, hobs⟩ := Option.map_eq_some_iff.mp hrun
  refine ⟨s, hs, ?_⟩
  rw [hobs]
  decide

end Runs

end NodedbLite.Sync
