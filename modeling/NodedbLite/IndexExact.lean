import NodedbLite.IndexRebuild

/-! Runs of the index system against a rebuild: what an index build and a commit of rows do to the
entries, and the conditions under which every call keeps the catalog equal to a rebuild. -/
namespace NodedbLite.Index

open Query (Value)
open IndexState

variable {Predicate : Type} {A : IndexApi Predicate}

section Build

variable {s : IndexState Predicate} {d : IndexDef Predicate} {rows : List (String × Value)}
  {k : Bytes}

lemma mem_entries_collecting {f : IndexState Predicate → IndexState Predicate} {P : Prop}
    (h : ∀ sink, k ∈ (f { s with sink }).entries ↔ P) (durable : Bool) :
    k ∈ (s.collecting durable f).1.entries ↔ P := by
  cases durable with
  | true => exact h (some [])
  | false => exact h s.sink

lemma collecting_defs {f : IndexState Predicate → IndexState Predicate}
    {m : SortedMap String (IndexDef Predicate)} (h : ∀ sink, (f { s with sink }).defs = m)
    (durable : Bool) : (s.collecting durable f).1.defs = m := by
  cases durable with
  | true => exact h (some [])
  | false => exact h s.sink

lemma mem_entries_declared (hwf : WellFormed s) (hre : Redeclares s d) :
    k ∈ (declared A d s).entries ↔ k ∈ s.entries ∧ ¬ d.entryPrefix <+: k := by
  rw [declared, putDef_entries, mem_entries_clearPrefix]
  cases hget : s.defs.get d.name with
  | none => rfl
  | some old =>
    have hpre : old.entryPrefix = d.entryPrefix :=
      entryPrefix_eq_of_names (hre old hget) (hwf.named hget)
    simp only [mem_entries_clearPrefix, hpre, and_assoc, and_self]

lemma mem_entries_installRow {row : String × Value} :
    k ∈ (installRow A d s row).entries ↔ k ∈ entryKeys A d row.1 row.2 ∨ k ∈ s.entries := by
  have hlast := SortedMap.lastWrite_map (f := IndexWriteOp.toWrite ∘ IndexWriteOp.put)
    (v := some []) (fun _ => ⟨rfl, rfl⟩) (entryKeys A d row.1 row.2).toList k
  rw [installRow, mem_entries_apply, List.map_map, hlast]
  simp only [SortedSet.mem_toList]
  split_ifs with hk <;> simp [hk]

lemma mem_entries_build (hwf : WellFormed s) (hre : Redeclares s d) :
    k ∈ (build A d rows s).entries ↔
      KeyOfRows A d {r | r ∈ rows} k ∨ k ∈ s.entries ∧ ¬ d.entryPrefix <+: k := by
  rw [build_eq, ← mem_entries_declared (A := A) hwf hre]
  generalize declared A d s = u
  induction rows generalizing u with
  | nil => simp [KeyOfRows]
  | cons row rows ih =>
    rw [List.foldl_cons, ih, mem_entries_installRow]
    simp only [KeyOfRows, Set.mem_ofPred_eq, List.mem_cons, exists_eq_or_imp]
    rw [or_assoc]
    exact or_left_comm

lemma build_tombstoned (d : IndexDef Predicate) (rows : List (String × Value))
    (s : IndexState Predicate) : (build A d rows s).tombstoned = s.tombstoned := by
  have hdeclared : (declared A d s).tombstoned = s.tombstoned := by
    rw [declared, putDef_tombstoned, clearPrefix_tombstoned]
    split
    · exact clearPrefix_tombstoned _
    · rfl
  rw [build_eq, ← hdeclared]
  generalize declared A d s = u
  induction rows generalizing u with
  | nil => rfl
  | cons row rows ih => exact (ih _).trans (apply_tombstoned _ _ _)

end Build

/-- The catalog is the one a rebuild makes. -/
abbrev Rebuilt (A : IndexApi Predicate) (s : IndexSys Predicate) : Prop :=
  RebuiltOn A (fun _ => True) s

section Install

variable {s : IndexSys Predicate} {d : IndexDef Predicate}

lemma install_defs {c : IndexState Predicate} {rows : List (String × Value)}
    {out : Installed Predicate} (hout : c.install A d rows = .ok out) :
    out.state.defs = c.defs.insert d.name d := by
  rw [(install_ok hout).2.1]
  exact collecting_defs (fun sink => build_defs d rows) d.durable

lemma install_tombstoned {c : IndexState Predicate} {rows : List (String × Value)}
    {out : Installed Predicate} (hout : c.install A d rows = .ok out) :
    out.state.tombstoned = c.tombstoned := by
  rw [(install_ok hout).2.1]
  exact collecting_tombstoned d.durable (build_tombstoned d rows)

lemma Rebuilt.installed (h : Rebuilt A s) (hre : Redeclares s.catalog d)
    (hengine : ∀ e, s.catalog.defs.get e.name = some e → e.collection = d.collection →
      e.engine = d.engine) {out : Installed Predicate}
    (hout : s.catalog.install A d (s.liveRows d.engine d.collection) = .ok out) :
    Rebuilt A { s with catalog := out.state } := by
  obtain ⟨-, hstate, -⟩ := install_ok hout
  have hdefs := install_defs hout
  have hentries : ∀ k, k ∈ out.state.entries ↔
      KeyOfRows A d (s.live d.engine d.collection) k ∨
        k ∈ s.catalog.entries ∧ ¬ d.entryPrefix <+: k := by
    intro k
    rw [hstate]
    exact mem_entries_collecting
      (fun sink => mem_entries_build (h.shape.withSink sink) hre) d.durable
  have hcases : ∀ {e}, out.state.defs.get e.name = some e →
      e = d ∨ e.name ≠ d.name ∧ s.catalog.defs.get e.name = some e := by
    intro e he
    rw [hdefs] at he
    have hins := SortedMap.get_insert s.catalog.defs d.name e.name d
    by_cases hname : e.name = d.name
    · exact .inl (Option.some.inj ((hins.trans (if_pos hname)).symm.trans he)).symm
    · exact .inr ⟨hname, (hins.trans (if_neg hname)).symm.trans he⟩
  refine ⟨h.shape.install hre hout, fun {e} he _ => ?_, fun {e f} he hf hsame _ => ?_,
    fun htomb => ?_⟩
  · rcases hcases he with rfl | ⟨hname, hget⟩
    · intro k hk
      rw [hentries]
      exact or_iff_left (fun hold => hold.2 hk)
    · refine (h.exact hget trivial).of_agree (fun k hk => (hentries k).trans ?_)
      have hnot : ¬ d.entryPrefix <+: k := fun hd => hname (name_eq_of_prefixes hk hd)
      constructor
      · rintro (⟨row, -, hrk⟩ | hold)
        · exact absurd (entryOf_of_mem_entryKeys hrk).under hnot
        · exact hold.1
      · exact fun hold => .inr ⟨hold, hnot⟩
  · rcases hcases he with rfl | ⟨-, hget⟩ <;> rcases hcases hf with rfl | ⟨-, hget'⟩
    · rfl
    · exact (hengine f hget' hsame.symm).symm
    · exact hengine e hget hsame
    · exact h.oneEngine hget hget' hsame trivial
  · rw [install_tombstoned hout] at htomb
    exact h.tombstones htomb

lemma Rebuilt.buildIndex (h : Rebuilt A s) (hre : Redeclares s.catalog d)
    (hengine : ∀ e, s.catalog.defs.get e.name = some e → e.collection = d.collection →
      e.engine = d.engine) (stored : Bool) : Rebuilt A (s.buildIndex A d stored) := by
  rw [IndexSys.buildIndex]
  cases hout : s.catalog.install A d (s.liveRows d.engine d.collection) with
  | error e => exact h
  | ok out =>
    have hbuilt := h.installed hre hengine hout
    dsimp only
    split_ifs with hdur hstored hfresh hbt
    · exact ⟨hbuilt.shape, hbuilt.exact, hbuilt.oneEngine, hbuilt.tombstones⟩
    · -- Forgetting the index leaves the others as the install left them.
      have hget : out.state.defs.get d.name = some d := by
        rw [install_defs hout]
        exact (SortedMap.get_insert _ d.name d.name d).trans (if_pos rfl)
      have hgone := get_dropStep (s := out.state) hget
      have hapart := apart_remove hget true
      refine hbuilt.frame (hbuilt.shape.forget d.name) (fun e he _ => ⟨trivial, ?_, rfl⟩)
        (fun htomb => hbuilt.tombstones ?_)
      · refine hapart.agreeOn (fun hname => ?_)
        have hnone : (out.state.forget d.name).defs.get d.name = none := by
          rw [dropStep, hdur] at hgone
          exact hgone
        rw [hname] at he
        cases hnone.symm.trans he
      · rw [← htomb]
        exact (congrFun (collecting_tombstoned true (fun _ => removeDef_tombstoned)) _).symm
    · exact hbuilt
    · refine hbuilt.tombstone (t := { s with catalog := _ }) rfl rfl rfl rfl hbt (fun c' id => ?_)
      by_cases hin : c' = d.collection ∧ id ∈ (s.crdt d.collection).keys.filter
          (fun id => ((s.history d.collection).get id).isNone)
      · rw [if_pos hin, hin.1]
        exact Option.isNone_iff_eq_none.mp (List.mem_filter.mp hin.2).2
      · rw [if_neg hin]
    · exact hbuilt

end Install

section Commit

variable {s : IndexSys Predicate} {engine : IndexEngine} {c : String} {C : String → Prop}

lemma mem_live_rows (he : engine ≠ .document) {r : String × Value} :
    r ∈ s.live engine c ↔
      ∃ key, docIdOfKey key = r.1 ∧ (s.rows engine c).get key = some r.2 := by
  have hlist : s.liveRows engine c =
      (s.rows engine c).entries.map fun e => (docIdOfKey e.1, e.2) := by
    cases engine with
    | document => exact absurd rfl he
    | strict => rfl
    | keyValue => rfl
  change r ∈ s.liveRows engine c ↔ _
  rw [hlist, List.mem_map]
  constructor
  · rintro ⟨e, hmem, rfl⟩
    exact ⟨e.1, rfl, SortedMap.get_eq_some_iff.mpr hmem⟩
  · rintro ⟨key, hid, hget⟩
    exact ⟨(key, r.2), SortedMap.get_eq_some_iff.mp hget, Prod.ext hid rfl⟩

/-- One row write of a batch, with the entries it implies. -/
def commitOne (A : IndexApi Predicate) (engine : IndexEngine) (s : IndexSys Predicate)
    (w : RowWrite) : IndexSys Predicate :=
  { s with
    rows := IndexSys.writeRow engine s.rows w
    catalog := commitImage A engine s.catalog w.image }

lemma rows_commitOne_self (w : RowWrite) :
    (commitOne A engine s w).rows engine w.collection =
      setRow (s.rows engine w.collection) w.key w.row := by
  change Function.update s.rows engine _ engine w.collection = _
  rw [Function.update_self, Function.update_self]

lemma writeRow_of_ne (w : RowWrite) {e : IndexEngine} (h : ¬ (e = engine ∧ c = w.collection)) :
    IndexSys.writeRow engine s.rows w e c = s.rows e c := by
  rw [IndexSys.writeRow]
  by_cases he : e = engine
  · subst he
    rw [Function.update_self, Function.update_of_ne (fun hc => h ⟨rfl, hc⟩)]
  · rw [Function.update_of_ne he]

lemma get_setRow_self {K : Type*} [LinearOrder K] (m : SortedMap K Value) (k : K)
    (new : Option Value) : (setRow m k new).get k = new := by
  cases new with
  | none => exact (SortedMap.get_erase m k k).trans (if_pos rfl)
  | some v => exact (SortedMap.get_insert m k k v).trans (if_pos rfl)

lemma live_commitOne_self (he : engine ≠ .document) (w : RowWrite) :
    (commitOne A engine s w).live engine w.collection =
      putRow (s.live engine w.collection) (docIdOfKey w.key) w.row := by
  ext r
  rw [mem_live_rows he, rows_commitOne_self]
  change _ ↔ r.1 ≠ docIdOfKey w.key ∧ r ∈ s.live engine w.collection ∨ _
  rw [mem_live_rows he]
  constructor
  · rintro ⟨key, hid, hget⟩
    by_cases hkey : key = w.key
    · rw [hkey, get_setRow_self] at hget
      exact .inr ⟨by rw [← hid, hkey], hget⟩
    · rw [get_setRow_of_ne hkey] at hget
      exact .inl ⟨fun hsame => hkey (docIdOfKey_injective (hid.trans hsame)), key, hid, hget⟩
  · rintro (⟨hne, key, hid, hget⟩ | ⟨hid, hrow⟩)
    · refine ⟨key, hid, ?_⟩
      rwa [get_setRow_of_ne (fun hkey => hne (by rw [← hid, hkey]))]
    · exact ⟨w.key, hid.symm, by rw [get_setRow_self, hrow]⟩

lemma commitImage_tombstoned (c : IndexState Predicate) (image : RowImage) :
    (commitImage A engine c image).tombstoned = c.tombstoned := by
  rw [commitImage]
  split_ifs
  · rfl
  · exact apply_tombstoned _ _ _

lemma RebuiltOn.commitOne (h : RebuiltOn A C s) (he : engine ≠ .document) (w : RowWrite) :
    RebuiltOn A C (commitOne A engine s w) := by
  have hdefs := commitImage_defs (A := A) (s := s.catalog) engine w.image
  refine ⟨h.shape.commitImage engine w.image, fun {d} hd hC => ?_, fun {d e} hd hd' => ?_,
    fun htomb => ?_⟩
  · rw [Index.commitOne, hdefs] at hd
    have hexact := h.exact hd hC
    by_cases hon : d.engine = engine ∧ d.collection = w.collection
    · obtain ⟨hengine, hcoll⟩ := hon
      have hmem : d ∈ s.catalog.defsOn w.image.collection engine :=
        h.shape.mem_defsOn.mpr ⟨hd, hcoll, hengine⟩
      have hsome : ¬ (s.catalog.defsOn w.image.collection engine).isEmpty := by
        rw [List.isEmpty_iff]
        exact List.ne_nil_of_mem hmem
      rw [hengine, hcoll, live_commitOne_self he]
      rw [hengine, hcoll] at hexact
      rw [Index.commitOne, commitImage, if_neg hsome]
      exact hexact.apply_plan h.shape h.shape.of_mem_defsOn hmem
    · rw [live_congr (t := Index.commitOne A engine s w) (s := s) (writeRow_of_ne w hon) rfl]
      rw [Index.commitOne, commitImage]
      split_ifs with hnone
      · exact hexact
      · refine hexact.apply_plan_of_ne h.shape h.shape.of_mem_defsOn (fun hcoll => ?_)
        -- A definition of the written engine on the same collection fixes the engine of `d`.
        obtain ⟨e, hmem⟩ := List.exists_mem_of_ne_nil _ (List.isEmpty_iff.not.mp hnone)
        obtain ⟨hget, hec, heng⟩ := h.shape.mem_defsOn.mp hmem
        exact hon ⟨(h.oneEngine hd hget (hcoll.trans hec.symm) hC).trans heng, hcoll⟩
  · rw [Index.commitOne, hdefs] at hd hd'
    exact h.oneEngine hd hd'
  · rw [Index.commitOne, commitImage_tombstoned] at htomb
    exact h.tombstones htomb

lemma foldl_commitOne (writes : List RowWrite) :
    writes.foldl (commitOne A engine) s =
      { s with
        rows := writes.foldl (IndexSys.writeRow engine) s.rows
        catalog := (writes.map RowWrite.image).foldl (commitImage A engine) s.catalog } := by
  induction writes generalizing s with
  | nil => rfl
  | cons w writes ih => exact ih

lemma RebuiltOn.foldl_commitOne (h : RebuiltOn A C s) (he : engine ≠ .document)
    (writes : List RowWrite) : RebuiltOn A C (writes.foldl (Index.commitOne A engine) s) := by
  induction writes generalizing s with
  | nil => exact h
  | cons w writes ih => exact ih (h.commitOne he w)

/-- An accepted commit writes its rows and brings their entries in line, one after another. -/
lemma commitRows_eq {t : IndexSys Predicate} {writes : List RowWrite} {stored : Bool}
    (hout : s.commitRows A engine writes stored = .ok t) :
    ∃ catalog store, t = { s with
        rows := writes.foldl (IndexSys.writeRow engine) s.rows, catalog, store } ∧
      catalog = { (writes.map RowWrite.image).foldl (commitImage A engine)
        { s.catalog with sink := some [] } with sink := s.catalog.sink } := by
  obtain ⟨changes, hchanges, -, rfl⟩ := commitRows_ok hout
  refine ⟨_, _, rfl, ?_⟩
  rw [← collecting_applyChanges, ← commitChanges_ok hchanges]

lemma RebuiltOn.commitRows {t : IndexSys Predicate} (h : RebuiltOn A C s)
    (he : engine ≠ .document) {writes : List RowWrite} {stored : Bool}
    (hout : s.commitRows A engine writes stored = .ok t) : RebuiltOn A C t := by
  obtain ⟨catalog, store, rfl, hcatalog⟩ := commitRows_eq hout
  have hsink : RebuiltOn A C { s with catalog := { s.catalog with sink := some [] } } :=
    ⟨h.shape.withSink _, h.exact, h.oneEngine, h.tombstones⟩
  have hfold := hsink.foldl_commitOne he writes
  rw [Index.foldl_commitOne] at hfold
  subst hcatalog
  exact ⟨hfold.shape.withSink _, hfold.exact, hfold.oneEngine, hfold.tombstones⟩

lemma RebuiltOn.expireRow (h : RebuiltOn A C s) (hnone : s.catalog.hasDefs c .keyValue = false)
    (key : Bytes) :
    RebuiltOn A C { s with rows := IndexSys.writeRow .keyValue s.rows ⟨c, key, none⟩ } := by
  refine ⟨h.shape, fun {d} hd hC => ?_, h.oneEngine, h.tombstones⟩
  have hother : ¬ (d.engine = .keyValue ∧ d.collection = c) := by
    rintro ⟨hengine, hcoll⟩
    have hmem : d ∈ s.catalog.defsOn c .keyValue := h.shape.mem_defsOn.mpr ⟨hd, hcoll, hengine⟩
    rw [hasDefs, Bool.not_eq_false', List.isEmpty_iff] at hnone
    exact List.ne_nil_of_mem hmem hnone
  have hlive : IndexSys.live { s with rows := IndexSys.writeRow .keyValue s.rows ⟨c, key, none⟩ }
      d.engine d.collection = s.live d.engine d.collection :=
    live_congr (writeRow_of_ne ⟨c, key, none⟩ hother) rfl
  rw [hlive]
  exact h.exact hd hC

end Commit

/-- A call keeps the catalog equal to a rebuild: an index is created only where the others cover
the same engine, a key-value row expires only where no index covers it, a collection moves only to
an engine that holds no rows of it, and the CRDT copy of a bitemporal collection with a document
index changes only in step with its history. -/
def KeepsRebuilt (s : IndexSys Predicate) : IndexLabel Predicate → Prop
  | .crdtChange c changes =>
    s.bitemporal c = true → s.catalog.hasDefs c .document = true → ∀ change ∈ changes,
      s.catalog.tombstoned (c, change.1) = true ∨
        (changes.foldl (fun rows c => setRow rows c.1 c.2) (s.crdt c)).get change.1 =
          (s.history c).get change.1
  | .clearCollection c => s.bitemporal c = true → s.catalog.hasDefs c .document = false
  | .dropDocument c stored =>
    stored = false → s.bitemporal c = true → s.catalog.hasDefs c .document = false
  | .expireRow c _ => s.catalog.hasDefs c .keyValue = false
  | .createIndex d _ =>
    ∀ e, s.catalog.defs.get e.name = some e → e.collection = d.collection → e.engine = d.engine
  | .moveCollection c engine stored => stored = true → s.liveRows engine c = []
  | .documentPut .. | .documentDelete .. | .commitRows .. | .reindex .. | .dropIndex ..
  | .dropStrict .. | .stageFlush | .commitFlush .. | .markFlushed => True

section Runs

open GuardedRun

variable {s t : IndexSys Predicate}

lemma rebuilt_opened (bitemporal : String → Bool) :
    Rebuilt A (IndexSys.opened bitemporal : IndexSys Predicate) where
  shape := wellFormed_empty
  exact h := by cases h
  oneEngine h := by cases h
  tombstones h := by cases h

lemma Rebuilt.off (h : Rebuilt A s) (c : String) :
    RebuiltOn A (fun c' => True ∧ c' ≠ c) s :=
  ⟨h.shape, fun hd _ => h.exact hd trivial, fun hd he hsame _ => h.oneEngine hd he hsame trivial,
    h.tombstones⟩

/-- Every call that meets the condition keeps the catalog equal to a rebuild. -/
theorem rebuilt_indexStep {l : IndexLabel Predicate} (h : Rebuilt A s) (hgood : KeepsRebuilt s l)
    (hstep : indexStep A s l = some t) : Rebuilt A t := by
  cases l with
  | documentPut c id row => exact Option.some.inj hstep ▸ h.documentPut c id row
  | documentDelete c id => exact Option.some.inj hstep ▸ h.documentDelete c id
  | crdtChange c changes => exact Option.some.inj hstep ▸ h.crdtChange hgood
  | clearCollection c => exact Option.some.inj hstep ▸ h.clearCollection hgood
  | commitRows engine writes stored =>
    rw [indexStep] at hstep
    split_ifs at hstep with hengine
    cases hout : s.commitRows A engine writes stored with
    | error e =>
      rw [hout] at hstep
      exact Option.some.inj hstep ▸ h
    | ok u =>
      rw [hout] at hstep
      obtain rfl := Option.some.inj hstep
      exact h.commitRows hengine hout
  | expireRow c key => exact Option.some.inj hstep ▸ h.expireRow hgood key
  | createIndex d stored =>
    obtain rfl := Option.some.inj hstep
    rw [IndexSys.createIndex]
    split_ifs with hname
    · exact h
    · exact h
    · rw [Option.not_isSome_iff_eq_none] at hname
      refine h.buildIndex (fun old hold => ?_) hgood stored
      cases hname.symm.trans hold
  | reindex name stored =>
    obtain rfl := Option.some.inj hstep
    rw [IndexSys.reindex]
    cases hd : s.catalog.defs.get name with
    | none => exact h
    | some d =>
      have hget : s.catalog.defs.get d.name = some d := (h.shape.named hd).symm ▸ hd
      exact h.buildIndex (h.shape.redeclares_of_get hd)
        (fun e he hsame => h.oneEngine he hget hsame trivial) stored
  | dropIndex name stored =>
    obtain rfl := Option.some.inj hstep
    split_ifs
    · exact h.dropIndex name
    · exact h
  | dropStrict c stored =>
    obtain rfl := Option.some.inj hstep
    split_ifs
    · exact (h.off c).dropCollectionWith .strict
    · exact h
  | dropDocument c stored =>
    obtain rfl := Option.some.inj hstep
    split_ifs with hstored
    · exact (h.clearCollection_off c).dropCollectionWith .keyValue
    · exact h.clearCollection (hgood (Bool.not_eq_true _ ▸ hstored))
  | moveCollection c engine stored =>
    obtain rfl := Option.some.inj hstep
    split_ifs with hstored
    · exact h.moveCollection (hgood hstored)
    · exact h
  | stageFlush =>
    rw [indexStep] at hstep
    split at hstep
    · exact Option.some.inj hstep ▸ ⟨h.shape, h.exact, h.oneEngine, h.tombstones⟩
    · cases hstep
  | commitFlush stored =>
    rw [indexStep] at hstep
    split at hstep
    · obtain rfl := Option.some.inj hstep
      split_ifs <;> exact ⟨h.shape, h.exact, h.oneEngine, h.tombstones⟩
    · cases hstep
  | markFlushed =>
    rw [indexStep] at hstep
    split at hstep
    · exact Option.some.inj hstep ▸
        ⟨h.shape.congr rfl rfl rfl, h.exact, h.oneEngine, h.tombstones⟩
    · cases hstep

/-- The entries are the union of the postings, each parses back to the collection, index and
document whose posting holds it, and each index holds the entry keys of its live rows. -/
structure EqualsRebuild (A : IndexApi Predicate) (s : IndexSys Predicate) : Prop where
  union : ∀ k, k ∈ s.catalog.entries ↔ ∃ doc, k ∈ s.catalog.postings doc
  parses : ∀ c id k, k ∈ s.catalog.postings (c, id) →
    ∃ d, s.catalog.defs.get d.name = some d ∧ splitEntry k = some (d.collection, d.name, id) ∧
      d.collection = c
  exact : ∀ d, s.catalog.defs.get d.name = some d → ∀ k,
    k ∈ s.catalog.entries ∧ d.entryPrefix <+: k ↔
      ∃ row ∈ s.liveRows d.engine d.collection, k ∈ entryKeys A d row.1 row.2

lemma Rebuilt.equalsRebuild (h : Rebuilt A s) : EqualsRebuild A s where
  union k := by
    constructor
    · intro hk
      obtain ⟨d, id, -, hof⟩ := h.shape.owned hk
      exact ⟨(d.collection, id), (h.shape.posted _ _ _).mpr ⟨hk, hof.parse⟩⟩
    · rintro ⟨⟨c, id⟩, hk⟩
      exact ((h.shape.posted c id k).mp hk).1
  parses c id k hk := by
    obtain ⟨hmem, hparse⟩ := (h.shape.posted c id k).mp hk
    obtain ⟨d, id', hget, hof⟩ := h.shape.owned hmem
    rw [hof.parse, Option.some.injEq, ParsedEntry.mk.injEq] at hparse
    exact ⟨d, hget, hparse.2 ▸ hof.split, hparse.1⟩
  exact d hd k := by
    constructor
    · rintro ⟨hk, hunder⟩
      exact (h.exact hd trivial k hunder).mp hk
    · rintro ⟨row, hrow, hk⟩
      have hunder := (entryOf_of_mem_entryKeys hk).under
      exact ⟨(h.exact hd trivial k hunder).mpr ⟨row, hrow, hk⟩, hunder⟩

lemma rebuilt_of_run {bitemporal : String → Bool}
    (h : Reaches (indexStep A) KeepsRebuilt (IndexSys.opened bitemporal) s) : Rebuilt A s :=
  h.invariant (rebuilt_opened bitemporal)
    (fun _ _ _ hs hgood hstep => rebuilt_indexStep hs hgood hstep)

/-- An index named `name` on the field `path` of collection `c`. -/
def fieldDef (name path : String) (hname : ShortName name) (unique : Bool)
    (engine : IndexEngine) : IndexDef Empty :=
  ⟨name, "c", path, unique, false, false, none, engine, hname, by decide⟩

def documentIndex : IndexDef Empty := fieldDef "i" "f" (by decide) false .document

def keyValueIndex : IndexDef Empty := fieldDef "j" "g" (by decide) false .keyValue

def documentCalls : List (IndexLabel Empty) :=
  [.documentPut "c" "a" (.object [("f", .string "x")]),
    .documentPut "c" "b" (.object [("f", .string "y")]),
    .documentPut "c" "a" (.object [("f", .string "z")]), .documentDelete "c" "b"]

/-- A key-value row whose key reads as the id of a document of the same collection. -/
def sharedIdCalls : List (IndexLabel Empty) :=
  [.createIndex documentIndex true, .documentPut "c" "6b31" (.object [("f", .string "x")]),
    .createIndex keyValueIndex true,
    .commitRows .keyValue [⟨"c", [0x6b, 0x31], some (.object [("g", .string "y")])⟩] true]

end Runs

end NodedbLite.Index
