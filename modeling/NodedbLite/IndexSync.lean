import NodedbLite.IndexTracking

/-! When storage and memory agree. The invariant says that what storage holds once every pending
mark is written is what memory holds; a run keeps it as long as no call writes a key straight to
storage while a mark on the key is pending. -/
namespace NodedbLite.Index

open IndexState

variable {Predicate : Type} {A : IndexApi Predicate}

/-- A flush in flight: its keys are still marked and, once committed, stored. -/
def FlightOk (w : WriteBehind Bytes Bytes) (store : SortedMap Bytes Bytes) : Option Flight → Prop
  | none => True
  | some (.staged marks) => w.InFlight marks
  | some (.committed marks) => w.InFlight marks ∧ WriteBehind.Written store marks

structure Synced (A : IndexApi Predicate) (s : IndexState Predicate)
    (store : SortedMap Bytes Bytes) (flight : Option Flight) : Prop where
  shape : WellFormed s
  noSink : s.sink = none
  view : ∀ k, InSpace k → ∀ b, s.pending.view store k = some b ↔ Holds A s k b
  space : ∀ k d, s.pending.dirty.get k = some d → InSpace k
  numbered : s.pending.Numbered
  flight : FlightOk s.pending store flight
  format : store.get formatKey = some formatBytes

lemma not_inSpace_formatKey : ¬ InSpace formatKey := by
  rintro (⟨rest, h⟩ | ⟨rest, h⟩)
  · simp [entriesPrefix, formatKey, root] at h
  · simp [defsPrefix, formatKey, root] at h

section Steps

variable {s t : IndexState Predicate} {store : SortedMap Bytes Bytes} {flight : Option Flight}
  {ops : List WriteOp}

lemma FlightOk.markAll {w : WriteBehind Bytes Bytes} (h : FlightOk w store flight)
    (ops : List WriteOp) : FlightOk (w.markAll ops) store flight := by
  match flight, h with
  | none, _ => trivial
  | some (.staged _), h => exact WriteBehind.InFlight.markAll h ops
  | some (.committed _), h => exact ⟨h.1.markAll ops, h.2⟩

lemma FlightOk.writeAll {w : WriteBehind Bytes Bytes} (h : FlightOk w store flight)
    (hclean : ∀ op ∈ ops, w.dirty.get op.key = none) :
    FlightOk w (store.writeAll ops) flight := by
  match flight, h with
  | none, _ => trivial
  | some (.staged _), h => exact h
  | some (.committed _), h => exact ⟨h.1, h.2.writeAll h.1 hclean⟩

lemma Synced.flushed (h : Synced A s store flight) (ht : WellFormed t) (htr : Tracks A s t ops) :
    Synced A t store flight := by
  obtain ⟨hsink, hpending⟩ := markAll_of_no_sink h.noSink ops
  have hp : t.pending = s.pending.markAll ops := htr.marks.pending.trans hpending
  refine ⟨ht, htr.marks.sink.trans hsink, fun k hk b => ?_, fun k d hd => ?_, ?_, ?_, h.format⟩
  · rw [hp, WriteBehind.view_markAll, htr.follows]
    cases SortedMap.lastWrite ops k with
    | none => exact h.view k hk b
    | some v => rfl
  · rcases WriteBehind.exists_of_dirty_markAll (hp ▸ hd) with ⟨op, hop, rfl⟩ | hd
    · exact htr.space op hop
    · exact h.space k d hd
  · exact hp ▸ h.numbered.markAll ops
  · exact hp ▸ h.flight.markAll ops

/-- A change whose writes are collected and committed, on keys without a mark. -/
lemma Synced.stored (h : Synced A s store flight) (ht : WellFormed t)
    (htr : Tracks A { s with sink := some [] } t ops)
    (hclean : ∀ op ∈ ops, s.pending.dirty.get op.key = none) :
    Synced A { t with sink := none } (store.writeAll ops) flight := by
  obtain ⟨-, hpending⟩ := markAll_of_sink (s := { s with sink := some [] }) rfl ops
  have hp : t.pending = s.pending := htr.marks.pending.trans hpending
  refine ⟨ht.withSink none, rfl, fun k hk b => ?_, fun k d hd => h.space k d (hp ▸ hd),
    hp ▸ h.numbered, ?_, ?_⟩
  · change t.pending.view _ k = _ ↔ Holds A t k b
    rw [hp, WriteBehind.view_writeAll hclean, htr.follows]
    cases SortedMap.lastWrite ops k with
    | none => exact h.view k hk b
    | some v => rfl
  · exact hp ▸ h.flight.writeAll hclean
  · rw [SortedMap.get_writeAll_of_not_written, h.format]
    intro op hop hkey
    exact not_inSpace_formatKey (hkey ▸ htr.space op hop)

lemma collecting_true {f : IndexState Predicate → IndexState Predicate}
    (hm : Marks { s with sink := some [] } (f { s with sink := some [] }) ops) :
    (s.collecting true f).2 = ops := by
  have hsink := hm.sink.trans (markAll_of_sink (s := { s with sink := some [] }) rfl ops).1
  change (f { s with sink := some [] }).sink.getD [] = ops
  rw [hsink, Option.getD_some, List.nil_append]

/-- A change run either way: its writes are marked or collected and committed. -/
lemma Synced.collecting (h : Synced A s store flight) {durable : Bool} {Q : Bytes → Prop}
    {f : IndexState Predicate → IndexState Predicate}
    (hf : ∀ sink, WellFormed (f { s with sink }) ∧ Tracked A Q { s with sink } (f { s with sink }))
    (hclean : durable = true → ∀ k, Q k → s.pending.dirty.get k = none) :
    Synced A (s.collecting durable f).1 (store.writeAll (s.collecting durable f).2) flight := by
  cases durable with
  | false =>
    obtain ⟨hwf, ops, htr, -⟩ := hf s.sink
    exact h.flushed hwf htr
  | true =>
    obtain ⟨hwf, ops, htr, hQ⟩ := hf (some [])
    rw [collecting_true htr.marks]
    have hstored := h.stored hwf htr (fun op hop => hclean rfl _ (hQ op hop))
    rw [← h.noSink] at hstored
    exact hstored

end Steps

section Definitions

/-- The keys of one index: its definition and everything under its prefix. -/
def KeyOf (d : IndexDef Predicate) (k : Bytes) : Prop := k = d.key ∨ d.entryPrefix <+: k

lemma name_eq_of_prefixes {d e : IndexDef Predicate} {k : Bytes} (hd : d.entryPrefix <+: k)
    (he : e.entryPrefix <+: k) : d.name = e.name := by
  obtain ⟨rest, rfl⟩ := hd
  obtain ⟨tail, htail⟩ := he
  simp only [IndexDef.entryPrefix, indexPrefix, collectionPrefix, List.append_assoc] at htail
  have hcoll := congrArg readComponent (List.append_cancel_left htail)
  rw [readComponent_pushComponent e.collection_short, readComponent_pushComponent d.collection_short,
    Option.some.injEq, Prod.mk.injEq] at hcoll
  have hname := congrArg readComponent hcoll.2
  rw [readComponent_pushComponent e.name_short, readComponent_pushComponent d.name_short,
    Option.some.injEq, Prod.mk.injEq] at hname
  exact hname.1.symm

variable {s t u : IndexState Predicate} {store : SortedMap Bytes Bytes} {flight : Option Flight}
  {d e : IndexDef Predicate} {k : Bytes}

/-- Two states agree on one index. -/
def AgreeOn (d : IndexDef Predicate) (s u : IndexState Predicate) : Prop :=
  u.defs.get d.name = s.defs.get d.name ∧
    ∀ k, d.entryPrefix <+: k → (k ∈ u.entries ↔ k ∈ s.entries)

lemma AgreeOn.under (h : AgreeOn d s u) :
    u.entries.under d.entryPrefix = s.entries.under d.entryPrefix := SortedSet.under_congr h.2

/-- A change of one index leaves everything else alone. -/
structure Apart (d : IndexDef Predicate) (s t : IndexState Predicate) : Prop where
  defs : ∀ n, n ≠ d.name → t.defs.get n = s.defs.get n
  entries : ∀ k, ¬ d.entryPrefix <+: k → (k ∈ t.entries ↔ k ∈ s.entries)
  dirty : ∀ k, ¬ KeyOf d k → t.pending.dirty.get k = s.pending.dirty.get k

lemma Apart.trans (h : Apart d s t) (g : Apart d t u) : Apart d s u where
  defs n hn := (g.defs n hn).trans (h.defs n hn)
  entries k hk := (g.entries k hk).trans (h.entries k hk)
  dirty k hk := (g.dirty k hk).trans (h.dirty k hk)

lemma Apart.agreeOn (h : Apart d s t) (hne : e.name ≠ d.name) : AgreeOn e s t :=
  ⟨h.defs e.name hne, fun k hk => h.entries k (fun hd => hne (name_eq_of_prefixes hk hd))⟩

/-- A step of a definition change: what it does to the catalog and the writes it hands over. -/
abbrev DefStep (Predicate : Type) :=
  IndexDef Predicate → IndexState Predicate → IndexState Predicate × List WriteOp

/-- A step that keeps storage in step with memory as long as the keys it writes directly have no
mark, touches one index only and depends on nothing else. -/
structure DefChange (A : IndexApi Predicate) (step : DefStep Predicate)
    (direct : IndexState Predicate → IndexDef Predicate → Bytes → Prop) : Prop where
  synced : ∀ {s store flight d}, Synced A s store flight → s.defs.get d.name = some d →
    (∀ k, direct s d k → s.pending.dirty.get k = none) →
    Synced A (step d s).1 (store.writeAll (step d s).2) flight
  apart : ∀ {s d}, s.defs.get d.name = some d → Apart d s (step d s).1
  writes : ∀ {s u d}, s.defs.get d.name = some d → AgreeOn d s u → (step d u).2 = (step d s).2
  direct_key : ∀ {s d k}, direct s d k → KeyOf d k
  direct_congr : ∀ {s u d k}, AgreeOn d s u → direct u d k → direct s d k

/-- Run the step for each definition, gathering the writes. -/
def runDefs (step : DefStep Predicate) (ds : List (IndexDef Predicate))
    (acc : IndexState Predicate × List WriteOp) : IndexState Predicate × List WriteOp :=
  ds.foldl (fun acc d => ((step d acc.1).1, acc.2 ++ (step d acc.1).2)) acc

end Definitions

section Ddl

variable {s t u : IndexState Predicate} {store : SortedMap Bytes Bytes} {flight : Option Flight}
  {d : IndexDef Predicate} {k : Bytes}

lemma collecting_dirty (durable : Bool) {f : IndexState Predicate → IndexState Predicate}
    {ops : List WriteOp} (hm : ∀ sink, Marks { s with sink } (f { s with sink }) ops)
    (hk : ∀ op ∈ ops, op.key ≠ k) :
    (s.collecting durable f).1.pending.dirty.get k = s.pending.dirty.get k := by
  cases durable with
  | true => exact (hm (some [])).dirty_of_ne hk
  | false => exact (hm s.sink).dirty_of_ne hk

/-- The writes that clear an index. -/
def clearing (s : IndexState Predicate) (d : IndexDef Predicate) : List WriteOp :=
  (s.entries.under d.entryPrefix).map .delete

lemma mem_clearing {op : WriteOp} (h : op ∈ clearing s d) :
    op.key ∈ s.entries ∧ d.entryPrefix <+: op.key := by
  obtain ⟨j, hj, rfl⟩ := List.mem_map.mp h
  exact SortedSet.mem_under.mp hj

lemma AgreeOn.clearing (h : AgreeOn d s u) : clearing u d = clearing s d :=
  congrArg (List.map SortedMap.Write.delete) h.under

lemma marks_clearing (s : IndexState Predicate) (d : IndexDef Predicate)
    (sink : Option (List WriteOp)) :
    Marks { s with sink } ({ s with sink }.clearPrefix d.entryPrefix) (clearing s d) :=
  marks_clearPrefix _ _

lemma marks_removing (hget : s.defs.get d.name = some d) (sink : Option (List WriteOp)) :
    Marks { s with sink } ({ s with sink }.removeDef d.name) (clearing s d ++ [.delete d.key]) :=
  marks_removeDef (s := { s with sink }) hget

lemma collected_clearing (s : IndexState Predicate) (d : IndexDef Predicate) :
    (s.collecting true (·.clearPrefix d.entryPrefix)).2 = clearing s d :=
  collecting_true (marks_clearing s d (some []))

lemma marks_declaring (A : IndexApi Predicate) (s : IndexState Predicate) (d : IndexDef Predicate)
    (sink : Option (List WriteOp)) :
    Marks { s with sink } (putDef A { s with sink } d) [.put d.key (A.encodeDef d)] :=
  marks_putDef _ d

lemma not_keyOf_key_of_under (h : d.entryPrefix <+: k) : d.key ≠ k :=
  key_ne_of_inEntries ((entriesPrefix_isPrefix_entryPrefix d).trans h) d

lemma apart_clear (s : IndexState Predicate) (d : IndexDef Predicate) (durable : Bool) :
    Apart d s (s.collecting durable (·.clearPrefix d.entryPrefix)).1 where
  defs n _ := by rw [collecting_clearPrefix_defs]
  entries k hk := by
    have hmem : ∀ sink, k ∈ ({ s with sink }.clearPrefix d.entryPrefix).entries ↔ k ∈ s.entries :=
      fun sink => mem_entries_clearPrefix.trans (and_iff_left hk)
    cases durable with
    | true => exact hmem (some [])
    | false => exact hmem s.sink
  dirty k hk := by
    refine collecting_dirty durable (marks_clearing s d) (fun op hop hkey => hk (.inr ?_))
    exact hkey ▸ (mem_clearing hop).2

lemma apart_remove (hget : s.defs.get d.name = some d) (durable : Bool) :
    Apart d s (s.collecting durable (·.removeDef d.name)).1 where
  defs n hn := by
    have hdefs : ∀ sink, ({ s with sink }.removeDef d.name).defs.get n = s.defs.get n := by
      intro sink
      rw [removeDef_defs (s := { s with sink }) (by rw [hget]; rfl)]
      exact (SortedMap.get_erase s.defs d.name n).trans (if_neg hn)
    cases durable with
    | true => exact hdefs (some [])
    | false => exact hdefs s.sink
  entries k hk := by
    have hmem : ∀ sink, k ∈ ({ s with sink }.removeDef d.name).entries ↔ k ∈ s.entries :=
      fun sink => (mem_entries_removeDef (s := { s with sink }) hget).trans (and_iff_left hk)
    cases durable with
    | true => exact hmem (some [])
    | false => exact hmem s.sink
  dirty k hk := by
    refine collecting_dirty durable (marks_removing hget) (fun op hop hkey => hk ?_)
    rcases List.mem_append.mp hop with hop | hop
    · exact .inr (hkey ▸ (mem_clearing hop).2)
    · rw [List.mem_singleton.mp hop] at hkey
      exact .inl hkey.symm

lemma apart_declare (A : IndexApi Predicate) (s : IndexState Predicate) (d : IndexDef Predicate)
    (durable : Bool) : Apart d s (s.collecting durable (putDef A · d)).1 where
  defs n hn := by
    have hins := (SortedMap.get_insert s.defs d.name n d).trans (if_neg hn)
    cases durable <;> exact hins
  entries k _ := by
    have hmem : ∀ sink, k ∈ (putDef A { s with sink } d).entries ↔ k ∈ s.entries :=
      fun sink => by rw [putDef_entries]
    cases durable with
    | true => exact hmem (some [])
    | false => exact hmem s.sink
  dirty k hk := by
    refine collecting_dirty durable (marks_declaring A s d) (fun op hop hkey => hk (.inl ?_))
    rw [List.mem_singleton.mp hop] at hkey
    exact hkey.symm

def dropStep : DefStep Predicate := fun d s => s.collecting d.durable (·.removeDef d.name)

lemma dropChange_eq (s : IndexState Predicate) (ds : List (IndexDef Predicate)) :
    dropChange s ds = runDefs dropStep ds (s, []) := rfl

def moveStep (A : IndexApi Predicate) (engine : IndexEngine) : DefStep Predicate := fun d s =>
  let (t, cleared) := s.collecting d.durable (·.clearPrefix d.entryPrefix)
  let (u, declared) := t.collecting (d.withEngine engine).durable (putDef A · (d.withEngine engine))
  (u, cleared ++ declared)

lemma moveChange_eq (engine : IndexEngine) (s : IndexState Predicate)
    (ds : List (IndexDef Predicate)) :
    moveChange A engine s ds = runDefs (moveStep A engine) ds (s, []) := by
  rw [moveChange, runDefs]
  congr 1
  funext acc d
  exact congrArg (Prod.mk _) (List.append_assoc acc.2 _ _)

/-- The keys moving an index to another engine writes straight to storage. -/
def MovesDirectly (engine : IndexEngine) (s : IndexState Predicate) (d : IndexDef Predicate)
    (k : Bytes) : Prop :=
  engine ≠ .document ∧ k = d.key ∨ d.durable = true ∧ k ∈ s.entries ∧ d.entryPrefix <+: k

lemma Synced.declare (h : Synced A s store flight) (hre : Redeclares s d)
    (hclean : d.durable = true → s.pending.dirty.get d.key = none) :
    Synced A (s.collecting d.durable (putDef A · d)).1
      (store.writeAll (s.collecting d.durable (putDef A · d)).2) flight := by
  refine h.collecting (Q := fun k => k = d.key) (fun sink => ?_) (fun hdur k hk => hk ▸ hclean hdur)
  refine ⟨(h.shape.withSink sink).putDef hre, _, tracks_putDef (h.shape.withSink sink) hre, ?_⟩
  intro op hop
  rw [List.mem_singleton.mp hop]
  rfl

theorem defChange_move (A : IndexApi Predicate) (engine : IndexEngine) :
    DefChange A (moveStep A engine) (MovesDirectly engine) where
  synced := by
    intro s store flight d h hget hclean
    have hclear : Synced A (s.collecting d.durable (·.clearPrefix d.entryPrefix)).1
        (store.writeAll (s.collecting d.durable (·.clearPrefix d.entryPrefix)).2) flight :=
      h.collecting (Q := fun k => k ∈ s.entries ∧ d.entryPrefix <+: k)
        (fun sink => ⟨(h.shape.withSink sink).clearPrefix _,
          tracked_clearPrefix (h.shape.withSink sink) (fun k hk hp => ⟨hk, hp⟩)⟩)
        (fun hdur k hk => hclean k (.inr ⟨hdur, hk⟩))
    have hre : Redeclares (s.collecting d.durable (·.clearPrefix d.entryPrefix)).1
        (d.withEngine engine) := by
      intro old hold
      rw [collecting_clearPrefix_defs] at hold
      rw [← Option.some.inj (hget.symm.trans hold)]
      rfl
    have hdirty : (s.collecting d.durable (·.clearPrefix d.entryPrefix)).1.pending.dirty.get d.key =
        s.pending.dirty.get d.key :=
      collecting_dirty d.durable (marks_clearing s d)
        (fun op hop hkey => not_keyOf_key_of_under (mem_clearing hop).2 hkey.symm)
    have hput := hclear.declare hre (fun hdur => hdirty.trans (hclean d.key (.inl ⟨?_, rfl⟩)))
    · rw [← SortedMap.writeAll_append] at hput
      exact hput
    · exact of_decide_eq_true hdur
  apart := by
    intro s d _
    have hdeclare := apart_declare A (s.collecting d.durable (·.clearPrefix d.entryPrefix)).1
      (d.withEngine engine) (d.withEngine engine).durable
    exact (apart_clear s d d.durable).trans ⟨hdeclare.defs, hdeclare.entries, hdeclare.dirty⟩
  writes := by
    intro s u d hget hagree
    have hcleared : (u.collecting d.durable (·.clearPrefix d.entryPrefix)).2 =
        (s.collecting d.durable (·.clearPrefix d.entryPrefix)).2 := by
      cases d.durable with
      | false => rfl
      | true =>
        rw [collected_clearing s, collected_clearing u, hagree.clearing]
    have hdeclared : ∀ v w : IndexState Predicate,
        (v.collecting (d.withEngine engine).durable (putDef A · (d.withEngine engine))).2 =
          (w.collecting (d.withEngine engine).durable (putDef A · (d.withEngine engine))).2 := by
      intro v w
      cases (d.withEngine engine).durable <;> rfl
    exact congrArg₂ (· ++ ·) hcleared (hdeclared _ _)
  direct_key h := by
    rcases h with h | h
    · exact .inl h.2
    · exact .inr h.2.2
  direct_congr hagree h :=
    h.imp id (fun hk => ⟨hk.1, (hagree.2 _ hk.2.2).mp hk.2.1, hk.2.2⟩)

end Ddl

end NodedbLite.Index
