import NodedbLite.IndexSync

/-! The catalog against a rebuild from the rows. Each call changes the entries of the documents it
writes and nothing else, so the entries of an index stay those its live rows have; this needs the
definitions on one collection to cover one engine, since postings are filed by collection and
document id alone. -/
namespace NodedbLite.Index

open Query (Value)
open IndexState

variable {Predicate : Type} {A : IndexApi Predicate}

/-- The rows with `id` set to `new`, none for a removed row. -/
def putRow (rows : Set (String × Value)) (id : String) (new : Option Value) :
    Set (String × Value) :=
  {r | r.1 ≠ id ∧ r ∈ rows ∨ r.1 = id ∧ new = some r.2}

/-- The rows a map holds. -/
def rowsOf (m : SortedMap String Value) : Set (String × Value) := {r | m.get r.1 = some r.2}

/-- `k` is an entry key `d` has for one of `rows`. -/
def KeyOfRows (A : IndexApi Predicate) (d : IndexDef Predicate) (rows : Set (String × Value))
    (k : Bytes) : Prop :=
  ∃ row ∈ rows, k ∈ entryKeys A d row.1 row.2

/-- The entries of `d` are the ones a build from `rows` makes. -/
def ExactFor (A : IndexApi Predicate) (s : IndexState Predicate) (d : IndexDef Predicate)
    (rows : Set (String × Value)) : Prop :=
  ∀ k, d.entryPrefix <+: k → (k ∈ s.entries ↔ KeyOfRows A d rows k)

section Rows

variable {rows : Set (String × Value)} {m : SortedMap String Value}

lemma mem_foldl_putRow {f : String → Option Value} {ids : List String} {r : String × Value} :
    r ∈ ids.foldl (fun rows id => putRow rows id (f id)) rows ↔
      r.1 ∉ ids ∧ r ∈ rows ∨ r.1 ∈ ids ∧ f r.1 = some r.2 := by
  induction ids generalizing rows with
  | nil => simp
  | cons id ids ih =>
    rw [List.foldl_cons, ih, List.mem_cons]
    by_cases hid : r.1 = id
    · subst hid
      by_cases hmem : r.1 ∈ ids <;> simp [putRow, hmem]
    · by_cases hmem : r.1 ∈ ids <;> simp [putRow, hmem, hid]

end Rows

section Entries

variable {s t : IndexState Predicate} {c id : String} {k : Bytes} {d : IndexDef Predicate}
  {defs : List (IndexDef Predicate)} {rows : Set (String × Value)} {new : Option Value}

lemma ExactFor.of_agree (h : ExactFor A s d rows)
    (hst : ∀ k, d.entryPrefix <+: k → (k ∈ t.entries ↔ k ∈ s.entries)) : ExactFor A t d rows :=
  fun k hk => (hst k hk).trans (h k hk)

lemma mem_entries_clearDocumentEntries :
    k ∈ (s.clearDocumentEntries c).entries ↔
      k ∈ s.entries ∧ ∀ d ∈ s.defsOn c .document, ¬ d.entryPrefix <+: k := by
  rw [IndexState.clearDocumentEntries]
  generalize s.defsOn c .document = ds
  induction ds generalizing s with
  | nil => simp
  | cons d ds ih =>
    rw [List.foldl_cons, ih, mem_entries_clearPrefix, and_assoc]
    simp only [List.mem_cons, forall_eq_or_imp]

lemma clearDocumentEntries_tombstoned :
    (s.clearDocumentEntries c).tombstoned = s.tombstoned := by
  rw [IndexState.clearDocumentEntries]
  generalize s.defsOn c .document = ds
  induction ds generalizing s with
  | nil => rfl
  | cons d ds ih => exact ih.trans (clearPrefix_tombstoned _)

/-- Every key under an index prefix that parses names the index's collection. -/
lemma collection_of_parse (hk : d.entryPrefix <+: k) (hp : parseEntry k = some ⟨c, id⟩) :
    d.collection = c := by
  obtain ⟨rest, rfl⟩ := hk
  rw [parseEntry, IndexDef.entryPrefix, splitEntry_indexPrefix d.collection_short d.name_short,
    Option.map_map, Option.map_eq_some_iff] at hp
  obtain ⟨id', -, heq⟩ := hp
  exact (ParsedEntry.mk.inj heq).1

lemma ExactFor.apply_plan (h : ExactFor A s d rows) (hwf : WellFormed s)
    (hdefs : ∀ e ∈ defs, s.defs.get e.name = some e ∧ e.collection = c) (hd : d ∈ defs) :
    ExactFor A (s.apply c id (planIndexOps A defs id (s.postings (c, id)) new)) d
      (putRow rows id new) := by
  intro k hk
  rw [(hwf.apply_plan hdefs new).2]
  constructor
  · rintro (hnew | ⟨hmem, hne⟩)
    · obtain ⟨row, hrow, e, he, hek⟩ := mem_newKeys.mp hnew
      -- The key is under the prefix of `d`, so the index it was made for is `d`.
      have hname := (names_eq_of_under hk (entryOf_of_mem_entryKeys hek).split).2
      have hsame := (hdefs e he).1
      rw [← hname, (hdefs d hd).1] at hsame
      rw [← Option.some.inj hsame] at hek
      exact ⟨(id, row), .inr ⟨rfl, hrow⟩, hek⟩
    · obtain ⟨row, hrow, hrk⟩ := (h k hk).mp hmem
      refine ⟨row, .inl ⟨fun hid => hne ?_, hrow⟩, hrk⟩
      rw [(entryOf_of_mem_entryKeys hrk).parse, (hdefs d hd).2, hid]
  · rintro ⟨row, ⟨hid, hold⟩ | ⟨hid, hseen⟩, hrk⟩
    · refine .inr ⟨(h k hk).mpr ⟨row, hold, hrk⟩, fun hp => hid ?_⟩
      rw [(entryOf_of_mem_entryKeys hrk).parse, Option.some.injEq, ParsedEntry.mk.injEq] at hp
      exact hp.2
    · exact .inl (mem_newKeys.mpr ⟨row.2, hseen, d, hd, hid ▸ hrk⟩)

lemma ExactFor.apply_plan_of_ne (h : ExactFor A s d rows) (hwf : WellFormed s)
    (hdefs : ∀ e ∈ defs, s.defs.get e.name = some e ∧ e.collection = c) (hne : d.collection ≠ c) :
    ExactFor A (s.apply c id (planIndexOps A defs id (s.postings (c, id)) new)) d rows := by
  refine h.of_agree (fun k hk => ?_)
  rw [(hwf.apply_plan hdefs new).2]
  constructor
  · rintro (hnew | ⟨hmem, -⟩)
    · obtain ⟨row, -, e, he, hek⟩ := mem_newKeys.mp hnew
      exact absurd (collection_of_parse hk (entryOf_of_mem_entryKeys hek).parse)
        ((hdefs e he).2 ▸ hne)
    · exact hmem
  · exact fun hmem => .inr ⟨hmem, fun hp => hne (collection_of_parse hk hp)⟩

lemma IndexState.WellFormed.of_mem_defsOn (h : WellFormed s) {engine : IndexEngine} :
    ∀ e ∈ s.defsOn c engine, s.defs.get e.name = some e ∧ e.collection = c := by
  intro e he
  obtain ⟨hget, hcoll, -⟩ := h.mem_defsOn.mp he
  exact ⟨hget, hcoll⟩

lemma resync_eq_of_apply {β : Type} (f : IndexState Predicate → β)
    (hf : ∀ (s : IndexState Predicate) c id ops, f (s.apply c id ops) = f s)
    (readRow : String → Option Value) (ids : List String) :
    f (s.resync A c ids readRow) = f s := by
  have hfold : f (ids.foldl (resyncOne A c (s.defsOn c .document) readRow) s) = f s := by
    generalize s.defsOn c .document = defs
    induction ids generalizing s with
    | nil => rfl
    | cons id ids ih => exact ih.trans (hf _ _ _ _)
  rw [IndexState.resync]
  split_ifs
  · rfl
  · exact hfold

lemma resync_tombstoned (readRow : String → Option Value) (ids : List String) :
    (s.resync A c ids readRow).tombstoned = s.tombstoned :=
  resync_eq_of_apply (·.tombstoned) (fun _ => apply_tombstoned) readRow ids

lemma resync_defs (readRow : String → Option Value) (ids : List String) :
    (s.resync A c ids readRow).defs = s.defs :=
  resync_eq_of_apply (·.defs) (fun _ => apply_defs) readRow ids

lemma ExactFor.foldl_resyncOne (h : ExactFor A s d rows) (hwf : WellFormed s)
    (hdefs : ∀ e ∈ defs, s.defs.get e.name = some e ∧ e.collection = c) (hd : d ∈ defs)
    {seen : String → Option Value} (readRow : String → Option Value)
    (hseen : ∀ id, seen id = if s.tombstoned (c, id) then none else readRow id)
    (ids : List String) :
    ExactFor A (ids.foldl (resyncOne A c defs readRow) s) d
      (ids.foldl (fun rows id => putRow rows id (seen id)) rows) := by
  induction ids generalizing s rows with
  | nil => exact h
  | cons id ids ih =>
    have hone : ExactFor A (resyncOne A c defs readRow s id) d (putRow rows id (seen id)) := by
      rw [hseen id]
      exact h.apply_plan hwf hdefs hd
    refine ih hone (hwf.apply_plan hdefs _).1 (fun e he => ?_) (fun id' => ?_)
    · rw [resyncOne_defs]
      exact hdefs e he
    · rw [hseen id', resyncOne, apply_tombstoned]

lemma foldl_resyncOne_of_ne (hwf : WellFormed s) (h : ExactFor A s d rows)
    (hdefs : ∀ e ∈ defs, s.defs.get e.name = some e ∧ e.collection = c) (hne : d.collection ≠ c)
    (readRow : String → Option Value) (ids : List String) :
    ExactFor A (ids.foldl (resyncOne A c defs readRow) s) d rows := by
  induction ids generalizing s with
  | nil => exact h
  | cons id ids ih =>
    refine ih (hwf.apply_plan hdefs _).1 (h.apply_plan_of_ne hwf hdefs hne) (fun e he => ?_)
    rw [resyncOne_defs]
    exact hdefs e he

end Entries

section Systems

/-- The live rows an index over `engine` rows of `c` covers. -/
def IndexSys.live (s : IndexSys Predicate) (engine : IndexEngine) (c : String) :
    Set (String × Value) :=
  {r | r ∈ s.liveRows engine c}

/-- The documents of a collection an index on it covers. -/
def IndexSys.documents (s : IndexSys Predicate) (c : String) : SortedMap String Value :=
  if s.bitemporal c then s.history c else s.crdt c

/-- The catalog on the collections in `C` is the one a rebuild makes. -/
structure RebuiltOn (A : IndexApi Predicate) (C : String → Prop) (s : IndexSys Predicate) :
    Prop where
  shape : WellFormed s.catalog
  exact : ∀ {d}, s.catalog.defs.get d.name = some d → C d.collection →
    ExactFor A s.catalog d (s.live d.engine d.collection)
  oneEngine : ∀ {d e}, s.catalog.defs.get d.name = some d → s.catalog.defs.get e.name = some e →
    d.collection = e.collection → C d.collection → d.engine = e.engine
  tombstones : ∀ {c id}, s.catalog.tombstoned (c, id) = true →
    s.bitemporal c = true ∧ (s.history c).get id = none

variable {s t : IndexSys Predicate} {c : String} {C : String → Prop}

lemma live_document (s : IndexSys Predicate) (c : String) :
    s.live .document c = rowsOf (s.documents c) := by
  ext r
  rw [IndexSys.live, IndexSys.documents, rowsOf]
  change r ∈ (if s.bitemporal c then (s.history c).entries else (s.crdt c).entries) ↔ _
  split_ifs
  · exact SortedMap.get_eq_some_iff.symm
  · exact SortedMap.get_eq_some_iff.symm

lemma live_of_ne_document {engine : IndexEngine} (he : engine ≠ .document)
    (hrows : t.rows engine c = s.rows engine c) : t.live engine c = s.live engine c := by
  rw [IndexSys.live, IndexSys.live]
  cases engine with
  | document => exact absurd rfl he
  | strict => simp only [IndexSys.liveRows, hrows]
  | keyValue => simp only [IndexSys.liveRows, hrows]

lemma live_congr {engine : IndexEngine} (hrows : t.rows engine c = s.rows engine c)
    (hdocs : t.documents c = s.documents c) : t.live engine c = s.live engine c := by
  by_cases he : engine = .document
  · rw [he, live_document, live_document, hdocs]
  · exact live_of_ne_document he hrows

/-- The rule for calls that write documents of `c` and bring `ids` in line: `documents` change on
`ids` only, to what the resync sees. -/
lemma RebuiltOn.resync (h : RebuiltOn A C s) {u : IndexState Predicate} {ids : List String}
    {readRow : String → Option Value} (hdefs : u.defs = s.catalog.defs)
    (hentries : u.entries = s.catalog.entries) (hpostings : u.postings = s.catalog.postings)
    (hcatalog : t.catalog = u.resync A c ids readRow) (hrows : t.rows = s.rows)
    (htombs : ∀ {c id}, u.tombstoned (c, id) = true →
      t.bitemporal c = true ∧ (t.history c).get id = none)
    (hother : ∀ c', c' ≠ c → t.documents c' = s.documents c')
    (hwritten : s.catalog.hasDefs c .document = true → ∀ id, (t.documents c).get id =
      if id ∈ ids then (if u.tombstoned (c, id) then none else readRow id)
      else (s.documents c).get id) :
    RebuiltOn A C t := by
  have hwf : WellFormed u := h.shape.congr hdefs hentries hpostings
  have hsame : t.catalog.defs = s.catalog.defs := by rw [hcatalog, resync_defs, hdefs]
  refine ⟨hcatalog ▸ hwf.resync c ids readRow, fun {d} hd hC => ?_, fun {d e} hd he => ?_,
    fun htomb => ?_⟩
  · rw [hsame] at hd
    have hstart : ExactFor A u d (s.live d.engine d.collection) :=
      (h.exact hd hC).of_agree (fun k _ => by rw [hentries])
    have hon : ∀ e, e ∈ u.defsOn c .document ↔
        s.catalog.defs.get e.name = some e ∧ e.collection = c ∧ e.engine = .document := by
      intro e
      rw [hwf.mem_defsOn, hdefs]
    rw [hcatalog, IndexState.resync]
    by_cases hcoll : d.collection = c
    · by_cases hdoc : d.engine = .document
      · have hmem : d ∈ u.defsOn c .document := (hon d).mpr ⟨hd, hcoll, hdoc⟩
        have hsome : ¬ (u.defsOn c .document).isEmpty := by
          rw [List.isEmpty_iff]
          exact List.ne_nil_of_mem hmem
        have hhas : s.catalog.hasDefs c .document = true := by
          rw [hasDefs, ← defsOn_congr hdefs, Bool.not_eq_true']
          exact Bool.not_eq_true _ ▸ hsome
        rw [if_neg hsome]
        have hfold := hstart.foldl_resyncOne hwf hwf.of_mem_defsOn hmem readRow (fun _ => rfl) ids
        rw [hdoc, hcoll, live_document] at hfold ⊢
        convert hfold using 1
        ext r
        rw [mem_foldl_putRow]
        change (t.documents c).get r.1 = some r.2 ↔ _ ∧ (s.documents c).get r.1 = some r.2 ∨ _
        rw [hwritten hhas]
        by_cases hid : r.1 ∈ ids <;> simp [hid]
      · -- No definition on the collection covers documents, so the resync does nothing.
        have hnone : (u.defsOn c .document).isEmpty := by
          rw [List.isEmpty_iff, List.eq_nil_iff_forall_not_mem]
          intro e he
          obtain ⟨hget, hec, heng⟩ := (hon e).mp he
          exact hdoc ((h.oneEngine hd hget (hcoll.trans hec.symm) hC).trans heng)
        rw [if_pos hnone, live_of_ne_document (s := s) hdoc (by rw [hrows])]
        exact hstart
    · rw [live_congr (s := s) (by rw [hrows]) (hother _ hcoll)]
      split_ifs
      · exact hstart
      · exact foldl_resyncOne_of_ne hwf hstart hwf.of_mem_defsOn hcoll readRow ids
  · rw [hsame] at hd he
    exact h.oneEngine hd he
  · rw [hcatalog, resync_tombstoned] at htomb
    exact htombs htomb

lemma get_setRow_of_ne {K : Type*} [LinearOrder K] {m : SortedMap K Value} {k j : K}
    (h : j ≠ k) (new : Option Value) : (setRow m k new).get j = m.get j := by
  cases new with
  | none => exact (SortedMap.get_erase m k j).trans (if_neg h)
  | some v => exact (SortedMap.get_insert m k j v).trans (if_neg h)

lemma get_foldl_setRow_of_not_mem {m : SortedMap String Value} {id : String}
    {changes : List (String × Option Value)} (h : id ∉ changes.map Prod.fst) :
    (changes.foldl (fun rows c => setRow rows c.1 c.2) m).get id = m.get id := by
  induction changes generalizing m with
  | nil => rfl
  | cons c changes ih =>
    rw [List.map_cons, List.mem_cons, not_or] at h
    exact (ih h.2).trans (get_setRow_of_ne h.1 c.2)

lemma RebuiltOn.revive (h : RebuiltOn A C s) (c id : String) :
    RebuiltOn A C { s with catalog := s.catalog.revive c id } := by
  refine ⟨h.shape.congr rfl rfl rfl, h.exact, h.oneEngine, fun {c' id'} htomb => ?_⟩
  change Function.update s.catalog.tombstoned (c, id) false (c', id') = true at htomb
  by_cases hdoc : (c', id') = (c, id)
  · rw [hdoc, Function.update_self] at htomb
    cases htomb
  · rw [Function.update_of_ne hdoc] at htomb
    exact h.tombstones htomb

lemma documents_update {crdt history : SortedMap String Value} (hbt : t.bitemporal = s.bitemporal)
    (hcrdt : t.crdt = Function.update s.crdt c crdt)
    (hhistory : t.history = if s.bitemporal c then Function.update s.history c history
      else s.history) :
    t.documents = Function.update s.documents c (if s.bitemporal c then history else crdt) := by
  funext c'
  by_cases hc : c' = c
  · subst hc
    simp only [IndexSys.documents, hbt, hcrdt, hhistory, Function.update_self]
    split_ifs <;> simp
  · simp only [IndexSys.documents, hbt, hcrdt, hhistory, Function.update_of_ne hc]
    split_ifs <;> simp [Function.update_of_ne hc]

lemma RebuiltOn.documentPut (h : RebuiltOn A C s) (c id : String) (row : Value) :
    RebuiltOn A C (s.documentPut A c id row) := by
  have hrevived := h.revive c id
  rw [IndexSys.documentPut]
  cases (s.catalog.revive c id).checkUnique A c [(id, some row)] (s.crdt c).get with
  | error e => exact hrevived
  | ok u =>
    have hlive : (s.catalog.revive c id).tombstoned (c, id) = false := Function.update_self ..
    set v : IndexSys Predicate := { s with
      crdt := Function.update s.crdt c ((s.crdt c).insert id row)
      catalog := (s.catalog.revive c id).resync A c [id] ((s.crdt c).insert id row).get
      history := if s.bitemporal c then
          Function.update s.history c ((s.history c).insert id row) else s.history } with hv
    have hdocs : v.documents = Function.update s.documents c ((s.documents c).insert id row) := by
      rw [documents_update (s := s) (t := v) rfl rfl rfl, IndexSys.documents]
      split_ifs <;> rfl
    refine hrevived.resync (t := v) rfl rfl rfl rfl rfl (fun {c' id'} htomb => ?_)
      (fun c' hc' => ?_) (fun _ id' => ?_)
    · obtain ⟨hbt, hnone⟩ := hrevived.tombstones htomb
      refine ⟨hbt, ?_⟩
      have hhist : v.documents c' = v.history c' := if_pos hbt
      have hold : s.documents c' = s.history c' := if_pos hbt
      rw [← hhist, hdocs]
      by_cases hc' : c' = c
      · subst hc'
        have hid : id' ≠ id := by
          rintro rfl
          cases hlive.symm.trans htomb
        rw [Function.update_self, hold]
        exact (SortedMap.get_insert _ id id' row).trans ((if_neg hid).trans hnone)
      · rw [Function.update_of_ne hc', hold]
        exact hnone
    · rw [hdocs, Function.update_of_ne hc']
      rfl
    · have hins := SortedMap.get_insert (s.documents c) id id' row
      rw [hdocs, Function.update_self]
      by_cases hid : id' = id
      · subst hid
        rw [if_pos List.mem_cons_self, hlive, hins, if_pos rfl]
        exact ((SortedMap.get_insert (s.crdt c) id' id' row).trans (if_pos rfl)).symm
      · rw [if_neg (by simpa using hid), hins, if_neg hid]
        rfl

lemma RebuiltOn.crdtChange (h : RebuiltOn A C s) {changes : List (String × Option Value)}
    (hbt : s.bitemporal c = true → s.catalog.hasDefs c .document = true → ∀ change ∈ changes,
      s.catalog.tombstoned (c, change.1) = true ∨
        (changes.foldl (fun rows c => setRow rows c.1 c.2) (s.crdt c)).get change.1 =
          (s.history c).get change.1) :
    RebuiltOn A C (s.crdtChange A c changes) := by
  set rows := changes.foldl (fun rows c => setRow rows c.1 c.2) (s.crdt c) with hrows
  have hdocs : (s.crdtChange A c changes).documents =
      Function.update s.documents c (if s.bitemporal c then s.history c else rows) := by
    refine documents_update rfl rfl ?_
    rw [Function.update_eq_self]
    split_ifs <;> rfl
  refine h.resync rfl rfl rfl rfl rfl h.tombstones (fun c' hc' => ?_) (fun hdef id => ?_)
  · rw [hdocs, Function.update_of_ne hc']
  · rw [hdocs, Function.update_self, IndexSys.documents]
    by_cases hc : s.bitemporal c = true
    · rw [if_pos hc, if_pos hc]
      split_ifs with hid htomb
      · exact (h.tombstones htomb).2
      · obtain ⟨change, hchange, rfl⟩ := List.mem_map.mp hid
        exact ((hbt hc hdef change hchange).resolve_left htomb).symm
      · rfl
    · rw [if_neg hc, if_neg hc]
      split_ifs with hid htomb
      · exact absurd (h.tombstones htomb).1 hc
      · rfl
      · exact get_foldl_setRow_of_not_mem hid

lemma RebuiltOn.tombstone (h : RebuiltOn A C s) {ids : List String}
    (hcatalog : t.catalog = s.catalog.tombstone A c ids) (hrows : t.rows = s.rows)
    (hcrdt : t.crdt = s.crdt) (hbt : t.bitemporal = s.bitemporal) (hc : s.bitemporal c = true)
    (hhistory : ∀ c' id, (t.history c').get id =
      if c' = c ∧ id ∈ ids then none else (s.history c').get id) :
    RebuiltOn A C t := by
  set u : IndexState Predicate := { s.catalog with
    tombstoned := fun doc => s.catalog.tombstoned doc || (doc.1 = c && ids.contains doc.2) } with hu
  have hdocs : t.documents c = t.history c := if_pos (hbt ▸ hc)
  have hold : s.documents c = s.history c := if_pos hc
  refine h.resync (u := u) rfl rfl rfl hcatalog hrows (fun {c' id} htomb => ?_) (fun c' hc' => ?_)
    (fun _ id => ?_)
  · rw [hbt, hhistory]
    simp only [hu, Bool.or_eq_true, Bool.and_eq_true, decide_eq_true_eq,
      List.contains_iff_mem] at htomb
    rcases htomb with htomb | ⟨rfl, hid⟩
    · obtain ⟨hyes, hnone⟩ := h.tombstones htomb
      exact ⟨hyes, by rw [hnone, ite_self]⟩
    · exact ⟨hc, if_pos ⟨rfl, hid⟩⟩
  · have hsame : t.history c' = s.history c' := by
      apply SortedMap.ext
      intro id
      rw [hhistory, if_neg (fun hboth => hc' hboth.1)]
    rw [IndexSys.documents, IndexSys.documents, hbt, hcrdt, hsame]
  · rw [hdocs, hold, hhistory]
    by_cases hid : id ∈ ids
    · rw [if_pos ⟨rfl, hid⟩, if_pos hid, ite_self]
    · rw [if_neg (fun hboth => hid hboth.2), if_neg hid]

lemma RebuiltOn.documentDelete (h : RebuiltOn A C s) (c id : String) :
    RebuiltOn A C (s.documentDelete A c id) := by
  rw [IndexSys.documentDelete]
  split_ifs with hbt
  · refine h.tombstone rfl rfl rfl rfl hbt (fun c' id' => ?_)
    dsimp only
    by_cases hc : c' = c
    · subst hc
      rw [Function.update_self]
      exact (SortedMap.get_erase _ id id').trans (if_congr (by simp) rfl rfl)
    · rw [Function.update_of_ne hc, if_neg (fun hboth => hc hboth.1)]
  · exact h.crdtChange (fun hyes => absurd hyes hbt)

/-- What a call does not touch stays exact: every index left was there before, with the same
entries and rows. -/
lemma RebuiltOn.frame {D : String → Prop} (h : RebuiltOn A C s) (ht : WellFormed t.catalog)
    (hkept : ∀ d, t.catalog.defs.get d.name = some d → D d.collection →
      C d.collection ∧ AgreeOn d s.catalog t.catalog ∧
        t.live d.engine d.collection = s.live d.engine d.collection)
    (htombs : ∀ {c id}, t.catalog.tombstoned (c, id) = true →
      t.bitemporal c = true ∧ (t.history c).get id = none) :
    RebuiltOn A D t := by
  have hback : ∀ d, t.catalog.defs.get d.name = some d → D d.collection →
      s.catalog.defs.get d.name = some d := fun d hd hD => (hkept d hd hD).2.1.1 ▸ hd
  refine ⟨ht, fun {d} hd hD => ?_, fun {d e} hd he hsame hD => ?_, htombs⟩
  · obtain ⟨hC, hagree, hlive⟩ := hkept d hd hD
    rw [hlive]
    exact (h.exact (hback d hd hD) hC).of_agree hagree.2
  · obtain ⟨hC, -, -⟩ := hkept d hd hD
    exact h.oneEngine (hback d hd hD) (hback e he (hsame ▸ hD)) hsame hC

lemma agreeOn_clearDocumentEntries (hwf : WellFormed s.catalog) {d : IndexDef Predicate}
    (hget : s.catalog.defs.get d.name = some d)
    (hd : ¬ (d.collection = c ∧ d.engine = .document)) :
    AgreeOn d s.catalog (s.catalog.clearDocumentEntries c) := by
  refine ⟨by rw [clearDocumentEntries_defs], fun k hk => ?_⟩
  rw [mem_entries_clearDocumentEntries]
  refine and_iff_left (fun e he hek => hd ?_)
  obtain ⟨heget, hcoll, hengine⟩ := hwf.mem_defsOn.mp he
  rw [← name_eq_of_prefixes hk hek, hget] at heget
  rw [Option.some.inj heget]
  exact ⟨hcoll, hengine⟩

lemma documents_clearCollection (s : IndexSys Predicate) (c : String) :
    (s.clearCollection c).documents =
      Function.update s.documents c (if s.bitemporal c then s.history c else SortedMap.empty) := by
  refine documents_update rfl rfl ?_
  rw [Function.update_eq_self]
  split_ifs <;> rfl

lemma RebuiltOn.clearCollection_off (h : RebuiltOn A C s) (c : String) :
    RebuiltOn A (fun c' => C c' ∧ c' ≠ c) (s.clearCollection c) := by
  refine h.frame (h.shape.clearDocumentEntries c) (fun d hd hD => ?_) (fun htomb => ?_)
  · have hget : s.catalog.defs.get d.name = some d := by
      rwa [IndexSys.clearCollection, clearDocumentEntries_defs] at hd
    refine ⟨hD.1, agreeOn_clearDocumentEntries h.shape hget (fun hboth => hD.2 hboth.1), ?_⟩
    refine live_congr rfl ?_
    rw [documents_clearCollection, Function.update_of_ne hD.2]
  · rw [IndexSys.clearCollection, clearDocumentEntries_tombstoned] at htomb
    exact h.tombstones htomb

lemma RebuiltOn.clearCollection (h : RebuiltOn A C s)
    (hbt : s.bitemporal c = true → s.catalog.hasDefs c .document = false) :
    RebuiltOn A C (s.clearCollection c) := by
  refine ⟨h.shape.clearDocumentEntries c, fun {d} hd hC => ?_, fun {d e} hd he => ?_,
    fun htomb => ?_⟩
  · have hget : s.catalog.defs.get d.name = some d := by
      rwa [IndexSys.clearCollection, clearDocumentEntries_defs] at hd
    by_cases hdoc : d.collection = c ∧ d.engine = .document
    · obtain ⟨rfl, hengine⟩ := hdoc
      have hmem : d ∈ s.catalog.defsOn d.collection .document :=
        h.shape.mem_defsOn.mpr ⟨hget, rfl, hengine⟩
      have hno : s.bitemporal d.collection = false := by
        by_contra hyes
        have hnone := hbt (Bool.not_eq_false _ ▸ hyes)
        rw [hasDefs, Bool.not_eq_false', List.isEmpty_iff] at hnone
        rw [hnone] at hmem
        exact absurd hmem List.not_mem_nil
      intro k hk
      refine iff_of_false (fun hin => ?_) ?_
      · exact (mem_entries_clearDocumentEntries.mp hin).2 d hmem hk
      · rintro ⟨row, hrow, -⟩
        rw [hengine, live_document, documents_clearCollection, Function.update_self, hno] at hrow
        cases hrow
    · have hlive : (s.clearCollection c).live d.engine d.collection =
          s.live d.engine d.collection := by
        by_cases hengine : d.engine = .document
        · refine live_congr rfl ?_
          rw [documents_clearCollection, Function.update_of_ne (fun hc => hdoc ⟨hc, hengine⟩)]
        · exact live_of_ne_document hengine rfl
      rw [hlive]
      exact (h.exact hget hC).of_agree (agreeOn_clearDocumentEntries h.shape hget hdoc).2
  · rw [IndexSys.clearCollection, clearDocumentEntries_defs] at hd he
    exact h.oneEngine hd he
  · rw [IndexSys.clearCollection, clearDocumentEntries_tombstoned] at htomb
    exact h.tombstones htomb

end Systems

section Definitions

variable {s t u : IndexState Predicate} {d : IndexDef Predicate}

lemma AgreeOn.trans (h : AgreeOn d s t) (g : AgreeOn d t u) : AgreeOn d s u :=
  ⟨g.1.trans h.1, fun k hk => (g.2 k hk).trans (h.2 k hk)⟩

/-- The loop over definitions: every index it does not name is as before, and each one it names is
as its own step left it. -/
lemma runDefs_spec {step : DefStep Predicate}
    (Post : IndexDef Predicate → IndexState Predicate → Prop)
    (hapart : ∀ {s d}, s.defs.get d.name = some d → Apart d s (step d s).1)
    (hpost : ∀ {s d}, s.defs.get d.name = some d → Post d (step d s).1)
    (hstable : ∀ {s t d}, AgreeOn d s t → Post d s → Post d t) {ds : List (IndexDef Predicate)}
    (hnd : (ds.map IndexDef.name).Nodup) (hin : ∀ d ∈ ds, s.defs.get d.name = some d)
    (ops : List WriteOp) :
    (∀ e : IndexDef Predicate, e.name ∉ ds.map IndexDef.name →
      AgreeOn e s (runDefs step ds (s, ops)).1) ∧
    ∀ d ∈ ds, Post d (runDefs step ds (s, ops)).1 := by
  induction ds generalizing s ops with
  | nil => exact ⟨fun e _ => ⟨rfl, fun _ _ => Iff.rfl⟩, fun d hd => absurd hd List.not_mem_nil⟩
  | cons d ds ih =>
    obtain ⟨hd, hnd⟩ := List.nodup_cons.mp hnd
    have hget := hin d List.mem_cons_self
    have hs := hapart hget
    have hname : ∀ e ∈ ds, e.name ≠ d.name := fun e he heq => hd (heq ▸ List.mem_map_of_mem he)
    obtain ⟨hout, hall⟩ := ih (s := (step d s).1) hnd
      (fun e he => (hs.defs e.name (hname e he)).trans (hin e (List.mem_cons_of_mem _ he)))
      (ops ++ (step d s).2)
    refine ⟨fun e he => ?_, fun e he => ?_⟩
    · rw [List.map_cons, List.mem_cons, not_or] at he
      exact (hs.agreeOn he.1).trans (hout e he.2)
    · rcases List.mem_cons.mp he with rfl | he
      · exact hstable (hout e hd) (hpost hget)
      · exact hall e he

lemma runDefs_tombstoned {step : DefStep Predicate}
    (h : ∀ s d, (step d s).1.tombstoned = s.tombstoned) (ds : List (IndexDef Predicate))
    (ops : List WriteOp) : (runDefs step ds (s, ops)).1.tombstoned = s.tombstoned := by
  induction ds generalizing s ops with
  | nil => rfl
  | cons d ds ih => exact (ih (s := (step d s).1) _).trans (h s d)

lemma collecting_tombstoned {f : IndexState Predicate → IndexState Predicate} (durable : Bool)
    (h : ∀ s, (f s).tombstoned = s.tombstoned) :
    (s.collecting durable f).1.tombstoned = s.tombstoned := by
  cases durable with
  | true => exact h { s with sink := some [] }
  | false => exact h s

lemma dropStep_tombstoned (s : IndexState Predicate) (d : IndexDef Predicate) :
    (dropStep d s).1.tombstoned = s.tombstoned :=
  collecting_tombstoned d.durable (fun _ => removeDef_tombstoned)

lemma moveStep_tombstoned (engine : IndexEngine) (s : IndexState Predicate)
    (d : IndexDef Predicate) : (moveStep A engine d s).1.tombstoned = s.tombstoned :=
  (collecting_tombstoned (d.withEngine engine).durable (fun _ => putDef_tombstoned _)).trans
    (collecting_tombstoned d.durable (fun _ => clearPrefix_tombstoned _))

lemma apart_dropStep (hget : s.defs.get d.name = some d) : Apart d s (dropStep d s).1 :=
  apart_remove hget _

lemma get_dropStep (hget : s.defs.get d.name = some d) :
    (dropStep d s).1.defs.get d.name = none := by
  have hgone : ∀ sink, ({ s with sink }.removeDef d.name).defs.get d.name = none := by
    intro sink
    rw [removeDef_defs (s := { s with sink }) (by rw [hget]; rfl)]
    exact (SortedMap.get_erase s.defs d.name d.name).trans (if_pos rfl)
  rw [dropStep]
  cases d.durable with
  | true => exact hgone (some [])
  | false => exact hgone s.sink

/-- A moved index covers the other engine and has no entry left. -/
def Moved (engine : IndexEngine) (d : IndexDef Predicate) (s : IndexState Predicate) : Prop :=
  s.defs.get d.name = some (d.withEngine engine) ∧ ∀ k, d.entryPrefix <+: k → k ∉ s.entries

lemma Moved.congr {engine : IndexEngine} (h : AgreeOn d s t) (hs : Moved engine d s) :
    Moved engine d t :=
  ⟨h.1.trans hs.1, fun k hk hmem => hs.2 k hk ((h.2 k hk).mp hmem)⟩

lemma moved_moveStep (engine : IndexEngine) (s : IndexState Predicate) (d : IndexDef Predicate) :
    Moved engine d (moveStep A engine d s).1 := by
  have hput : ∀ (u : IndexState Predicate) (durable : Bool),
      (u.collecting durable (putDef A · (d.withEngine engine))).1.defs =
        u.defs.insert d.name (d.withEngine engine) ∧
      (u.collecting durable (putDef A · (d.withEngine engine))).1.entries = u.entries := by
    intro u durable
    cases durable with
    | true => exact ⟨rfl, putDef_entries _⟩
    | false => exact ⟨rfl, putDef_entries _⟩
  have hclear : ∀ durable : Bool, ∀ k, d.entryPrefix <+: k →
      k ∉ (s.collecting durable (·.clearPrefix d.entryPrefix)).1.entries := by
    intro durable k hk hmem
    cases durable with
    | true => exact (mem_entries_clearPrefix (s := { s with sink := some [] }).mp hmem).2 hk
    | false => exact (mem_entries_clearPrefix.mp hmem).2 hk
  obtain ⟨hdefs, hentries⟩ := hput (s.collecting d.durable (·.clearPrefix d.entryPrefix)).1
    (d.withEngine engine).durable
  refine ⟨?_, fun k hk hmem => hclear d.durable k hk (hentries ▸ hmem)⟩
  exact (congrArg (SortedMap.get · d.name) hdefs).trans
    ((SortedMap.get_insert _ d.name d.name _).trans (if_pos rfl))

end Definitions

section Ddl

variable {s t : IndexSys Predicate} {c : String} {C : String → Prop}

lemma live_clearRows {e engine : IndexEngine} {c' : String} (hc : c' ≠ c) :
    (s.clearRows engine c).live e c' = s.live e c' := by
  refine live_congr ?_ rfl
  by_cases he : e = engine
  · subst he
    change Function.update s.rows e (Function.update (s.rows e) c _) e c' = _
    rw [Function.update_self, Function.update_of_ne hc]
  · change Function.update s.rows engine _ e c' = _
    rw [Function.update_of_ne he]

lemma agreeOn_dropChange {ds : List (IndexDef Predicate)}
    (hnd : (ds.map IndexDef.name).Nodup) (hin : ∀ d ∈ ds, s.catalog.defs.get d.name = some d)
    {d : IndexDef Predicate} (hd : (dropChange s.catalog ds).1.defs.get d.name = some d) :
    d.name ∉ ds.map IndexDef.name ∧ AgreeOn d s.catalog (dropChange s.catalog ds).1 := by
  rw [dropChange_eq] at hd ⊢
  obtain ⟨hout, hgone⟩ := runDefs_spec (fun d s => s.defs.get d.name = none)
    apart_dropStep get_dropStep (fun h hs => h.1.trans hs) hnd hin []
  have hname : d.name ∉ ds.map IndexDef.name := by
    intro hmem
    obtain ⟨e, he, hen⟩ := List.mem_map.mp hmem
    have hnone := hgone e he
    rw [hen, hd] at hnone
    cases hnone
  exact ⟨hname, hout d hname⟩

lemma dropChange_tombstoned (ds : List (IndexDef Predicate)) :
    (dropChange s.catalog ds).1.tombstoned = s.catalog.tombstoned :=
  runDefs_tombstoned dropStep_tombstoned ds []

lemma RebuiltOn.dropIndex (h : RebuiltOn A C s) (name : String) :
    RebuiltOn A C (s.dropIndex name) := by
  have hmem : ∀ d ∈ (s.catalog.defs.get name).toList, s.catalog.defs.get d.name = some d := by
    intro d hd
    have hget := Option.mem_toList.mp hd
    rwa [h.shape.named hget]
  have hnd : ((s.catalog.defs.get name).toList.map IndexDef.name).Nodup := by
    cases s.catalog.defs.get name <;> simp
  refine h.frame (h.shape.dropChange _) (fun d hd hC => ⟨hC, ?_, rfl⟩) (fun htomb => ?_)
  · exact (agreeOn_dropChange hnd hmem hd).2
  · rw [IndexSys.dropIndex, IndexSys.applyDdl, dropChange_tombstoned] at htomb
    exact h.tombstones htomb

/-- Dropping a collection only needs the other collections to be exact. -/
lemma RebuiltOn.dropCollectionWith (h : RebuiltOn A (fun c' => C c' ∧ c' ≠ c) s)
    (engine : IndexEngine) : RebuiltOn A C (s.dropCollectionWith engine c) := by
  have hin : ∀ d ∈ s.catalog.defsOf c, s.catalog.defs.get d.name = some d :=
    fun d hd => (h.shape.mem_defsOf.mp hd).1
  have hshape : WellFormed (s.dropCollectionWith engine c).catalog :=
    (h.shape.dropChange (s.catalog.defsOf c)).congr rfl rfl rfl
  refine h.frame hshape (fun d hd hC => ?_) (fun {c' id} htomb => ?_)
  · obtain ⟨hname, hagree⟩ :=
      agreeOn_dropChange (h.shape.nodup_defsOf c) hin hd
    have hne : d.collection ≠ c := by
      intro hc
      refine hname (List.mem_map_of_mem (h.shape.mem_defsOf.mpr ⟨?_, hc⟩))
      exact hagree.1 ▸ hd
    have hlive : (s.clearRows engine c).live d.engine d.collection =
        s.live d.engine d.collection := live_clearRows hne
    exact ⟨⟨hC, hne⟩, hagree, hlive⟩
  · have hold : s.catalog.tombstoned (c', id) = true := by
      rw [← dropChange_tombstoned (s.catalog.defsOf c)]
      exact (Bool.and_eq_true_iff.mp htomb).1
    exact h.tombstones hold

lemma RebuiltOn.moveCollection (h : RebuiltOn A C s) {engine : IndexEngine}
    (hempty : s.liveRows engine c = []) : RebuiltOn A C (s.moveCollection A c engine) := by
  have hin : ∀ d ∈ s.catalog.defsOf c, s.catalog.defs.get d.name = some d :=
    fun d hd => (h.shape.mem_defsOf.mp hd).1
  have hshape : WellFormed (s.moveCollection A c engine).catalog := by
    refine h.shape.foldl_moveOne engine (c := c) (fun d hd => (h.shape.mem_defsOf.mp hd).2)
      (fun d hd old hold => ?_) []
    rw [← Option.some.inj ((hin d hd).symm.trans hold)]
    exact (h.shape.mem_defsOf.mp hd).2
  have hcat : (s.moveCollection A c engine).catalog =
      (runDefs (moveStep A engine) (s.catalog.defsOf c) (s.catalog, [])).1 := by
    rw [← moveChange_eq]
    rfl
  obtain ⟨hout, hmoved⟩ := runDefs_spec (Moved engine) (defChange_move A engine).apart
    (fun _ => moved_moveStep engine _ _) Moved.congr (h.shape.nodup_defsOf c) hin []
  rw [← hcat] at hout hmoved
  -- An index on the collection was moved, any other is as before.
  have hcases : ∀ {d}, (s.moveCollection A c engine).catalog.defs.get d.name = some d →
      (d.collection = c ∧ d.engine = engine ∧
        ∀ k, d.entryPrefix <+: k → k ∉ (s.moveCollection A c engine).catalog.entries) ∨
      (d.collection ≠ c ∧ AgreeOn d s.catalog (s.moveCollection A c engine).catalog) := by
    intro d hd
    by_cases hname : d.name ∈ (s.catalog.defsOf c).map IndexDef.name
    · obtain ⟨e, he, hen⟩ := List.mem_map.mp hname
      obtain ⟨hget, hnone⟩ := hmoved e he
      rw [hen, hd, Option.some.injEq] at hget
      subst hget
      exact .inl ⟨(h.shape.mem_defsOf.mp he).2, rfl, hnone⟩
    · have hagree := hout d hname
      refine .inr ⟨fun hc => hname (List.mem_map_of_mem ?_), hagree⟩
      exact h.shape.mem_defsOf.mpr ⟨hagree.1 ▸ hd, hc⟩
  refine ⟨hshape, fun {d} hd hC => ?_, fun {d e} hd he hsame hC => ?_, fun htomb => ?_⟩
  · rcases hcases hd with ⟨hc, hengine, hnone⟩ | ⟨-, hagree⟩
    · intro k hk
      refine iff_of_false (hnone k hk) ?_
      rintro ⟨row, hrow, -⟩
      have hlist : row ∈ s.liveRows engine c := by
        rw [← hc, ← hengine]
        exact hrow
      rw [hempty] at hlist
      exact absurd hlist List.not_mem_nil
    · exact (h.exact (hagree.1 ▸ hd) hC).of_agree hagree.2
  · rcases hcases hd with ⟨hc, hengine, -⟩ | ⟨hne, hagree⟩ <;>
      rcases hcases he with ⟨hc', hengine', -⟩ | ⟨hne', hagree'⟩
    · exact hengine.trans hengine'.symm
    · exact absurd (hsame.symm.trans hc) hne'
    · exact absurd (hsame.trans hc') hne
    · exact h.oneEngine (hagree.1 ▸ hd) (hagree'.1 ▸ he) hsame hC
  · rw [hcat, runDefs_tombstoned (moveStep_tombstoned engine)] at htomb
    exact h.tombstones htomb

end Ddl

end NodedbLite.Index
