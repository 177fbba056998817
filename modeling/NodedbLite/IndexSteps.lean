import NodedbLite.IndexShape

/-! What one call does to the catalog. A batch of row images is planned from the entries its
earlier images leave, so applying the plan is bringing the rows in line one after another; and
every call keeps the catalog well formed. -/
namespace NodedbLite.Index

open Query (Value)

variable {Predicate : Type} {A : IndexApi Predicate}

namespace IndexState

variable {s : IndexState Predicate} {c id : String}

lemma postings_apply (s : IndexState Predicate) (c id : String) (ops : List IndexWriteOp) :
    (s.apply c id ops).postings =
      Function.update s.postings (c, id) (afterOps (s.postings (c, id)) ops) := by
  induction ops generalizing s with
  | nil => exact (Function.update_eq_self (c, id) s.postings).symm
  | cons op ops ih =>
    have hone : (applyOne (c, id) s op).postings =
        Function.update s.postings (c, id) (afterOps (s.postings (c, id)) [op]) := by
      cases op <;> simp [applyOne, afterOps, postingAdd, postingRemove]
    rw [apply, List.foldl_cons]
    refine (ih (applyOne (c, id) s op)).trans ?_
    rw [hone, Function.update_idem, Function.update_self]
    rfl

lemma defsOn_congr {t : IndexState Predicate} (h : t.defs = s.defs) (c : String)
    (engine : IndexEngine) : t.defsOn c engine = s.defsOn c engine := by
  rw [defsOn, defsOn, defList, defList, h]

/-- Bring one row of a batch in line with its image. -/
def commitImage (A : IndexApi Predicate) (engine : IndexEngine) (s : IndexState Predicate)
    (image : RowImage) : IndexState Predicate :=
  let defs := s.defsOn image.collection engine
  if defs.isEmpty then s
  else s.apply image.collection image.docId
    (planIndexOps A defs image.docId (s.postings (image.collection, image.docId)) image.row)

lemma applyChanges_defs (changes : List RowEntryOps) : (s.applyChanges changes).defs = s.defs := by
  induction changes generalizing s with
  | nil => rfl
  | cons x changes ih => exact ih.trans (apply_defs _ _ _)

lemma applyChanges_concat (changes : List RowEntryOps) (x : RowEntryOps) :
    s.applyChanges (changes ++ [x]) = (s.applyChanges changes).apply x.1 x.2.1 x.2.2 := by
  simp [applyChanges, List.foldl_append]

lemma applyChanges_foldl_planImage (engine : IndexEngine) (images : List RowImage) (held : Held)
    (changes : List RowEntryOps)
    (hheld : ∀ doc, (held doc).getD (s.postings doc) = (s.applyChanges changes).postings doc) :
    s.applyChanges (images.foldl (planImage A s engine) (held, changes)).2 =
      images.foldl (commitImage A engine) (s.applyChanges changes) := by
  induction images generalizing held changes with
  | nil => rfl
  | cons image images ih =>
    have hdefs := defsOn_congr (applyChanges_defs changes (s := s)) image.collection engine
    rw [List.foldl_cons, List.foldl_cons]
    by_cases hnone : (s.defsOn image.collection engine).isEmpty
    · have hplan : planImage A s engine (held, changes) image = (held, changes) := if_pos hnone
      have hcommit : commitImage A engine (s.applyChanges changes) image =
          s.applyChanges changes := if_pos (by rw [hdefs]; exact hnone)
      rw [hplan, hcommit]
      exact ih held changes hheld
    · set doc := (image.collection, image.docId) with hdoc
      set planned := planIndexOps A (s.defsOn image.collection engine) image.docId
        ((s.applyChanges changes).postings doc) image.row with hplanned
      have hplan : planImage A s engine (held, changes) image =
          (Function.update held doc (some (afterOps ((s.applyChanges changes).postings doc) planned)),
            changes ++ [(image.collection, image.docId, planned)]) := by
        rw [planImage, if_neg hnone]
        simp only [← hdoc, hheld doc, ← hplanned]
      have hcommit : commitImage A engine (s.applyChanges changes) image =
          s.applyChanges (changes ++ [(image.collection, image.docId, planned)]) := by
        rw [commitImage, if_neg (by rw [hdefs]; exact hnone), hdefs, applyChanges_concat]
      rw [hplan, hcommit]
      refine ih _ _ (fun doc' => ?_)
      rw [applyChanges_concat, postings_apply]
      by_cases heq : doc' = doc
      · subst heq
        simp only [hdoc, Function.update_self, Option.getD_some]
      · rw [Function.update_of_ne heq, Function.update_of_ne heq]
        exact hheld doc'

/-- Applying the planned changes of a batch brings its rows in line in order. -/
theorem applyChanges_planImages (engine : IndexEngine) (images : List RowImage) :
    s.applyChanges (planImages A s engine images) = images.foldl (commitImage A engine) s :=
  applyChanges_foldl_planImage engine images (fun _ => none) [] (fun _ => rfl)

lemma commitImage_defs (engine : IndexEngine) (image : RowImage) :
    (commitImage A engine s image).defs = s.defs := by
  rw [commitImage]
  split_ifs
  · rfl
  · exact apply_defs _ _ _

lemma WellFormed.commitImage (h : WellFormed s) (engine : IndexEngine) (image : RowImage) :
    WellFormed (commitImage A engine s image) := by
  rw [IndexState.commitImage]
  split_ifs
  · exact h
  · refine (h.apply_plan (fun d hd => ?_) image.row).1
    obtain ⟨hget, hcoll, -⟩ := h.mem_defsOn.mp hd
    exact ⟨hget, hcoll⟩

lemma collecting_clearPrefix_defs (durable : Bool) (head : Bytes) :
    (s.collecting durable (·.clearPrefix head)).1.defs = s.defs := by
  cases durable with
  | true => exact clearPrefix_defs (s := { s with sink := some [] }) head
  | false => exact clearPrefix_defs head

lemma moveOne_defs (engine : IndexEngine) (ops : List WriteOp) (d : IndexDef Predicate) :
    (moveOne A engine (s, ops) d).1.defs = s.defs.insert d.name (d.withEngine engine) := by
  have hput : ∀ (t : IndexState Predicate) (durable : Bool),
      (t.collecting durable (putDef A · (d.withEngine engine))).1.defs =
        t.defs.insert d.name (d.withEngine engine) := by
    intro t durable
    cases durable <;> rfl
  have hmoved := hput (s.collecting d.durable (·.clearPrefix d.entryPrefix)).1
    (d.withEngine engine).durable
  rw [collecting_clearPrefix_defs] at hmoved
  exact hmoved

lemma WellFormed.foldl_moveOne (h : WellFormed s) (engine : IndexEngine)
    {ds : List (IndexDef Predicate)} (hds : ∀ d ∈ ds, d.collection = c)
    (hre : ∀ d ∈ ds, ∀ old, s.defs.get d.name = some old → old.collection = c)
    (ops : List WriteOp) : WellFormed (ds.foldl (IndexState.moveOne A engine) (s, ops)).1 := by
  induction ds generalizing s ops with
  | nil => exact h
  | cons d ds ih =>
    have hd := hds d List.mem_cons_self
    refine ih (h.moveOne engine (fun old hold => ?_) ops)
      (fun e he => hds e (List.mem_cons_of_mem _ he)) (fun e he old hold => ?_) _
    · exact (hre d List.mem_cons_self old hold).trans hd.symm
    · rw [moveOne_defs] at hold
      by_cases hname : e.name = d.name
      · have hself := (SortedMap.get_insert s.defs d.name e.name (d.withEngine engine)).trans
          (if_pos hname)
        rw [← Option.some.inj (hself.symm.trans hold)]
        exact hd
      · refine hre e (List.mem_cons_of_mem _ he) old ?_
        exact ((SortedMap.get_insert s.defs d.name e.name _).trans (if_neg hname)).symm.trans hold

end IndexState

open IndexState

variable {s t : IndexSys Predicate}

lemma commitRows_ok {engine : IndexEngine} {writes : List RowWrite} {stored : Bool}
    (h : s.commitRows A engine writes stored = .ok t) :
    ∃ changes, commitChanges A s.catalog engine (writes.map RowWrite.image) (s.readRow engine) =
        .ok changes ∧ stored = true ∧
      t = { s with
        rows := writes.foldl (IndexSys.writeRow engine) s.rows
        store := s.store.writeAll (entryWrites changes)
        catalog := (s.catalog.collecting true (·.applyChanges changes)).1 } := by
  rw [IndexSys.commitRows] at h
  cases hc : commitChanges A s.catalog engine (writes.map RowWrite.image) (s.readRow engine) with
  | error e => rw [hc] at h; cases h
  | ok changes =>
    rw [hc] at h
    cases stored with
    | true => exact ⟨changes, rfl, rfl, (Except.ok.inj h).symm⟩
    | false => cases h

/-- The changes of an accepted commit are the planned ones, none when nothing is indexed. -/
lemma commitChanges_ok {c : IndexState Predicate} {engine : IndexEngine} {images : List RowImage}
    {readRow : String → String → Option Value} {changes : List RowEntryOps}
    (h : commitChanges A c engine images readRow = .ok changes) :
    changes = planImages A c engine images := by
  rw [commitChanges] at h
  split_ifs at h with hany
  · rw [planChecked] at h
    cases hb : batchCandidates A c engine images with
    | error e => rw [hb] at h; cases h
    | ok candidates =>
      rw [hb] at h
      cases hf : confirm A candidates (fun c => readRow c.index.collection c.other) with
      | error e =>
        change (confirm A candidates _).map _ = _ at h
        rw [hf] at h
        cases h
      | ok u =>
        change (confirm A candidates _).map _ = _ at h
        rw [hf] at h
        exact (Except.ok.inj h).symm
  · -- No image has a definition to plan for.
    obtain rfl := Except.ok.inj h
    rw [planImages]
    generalize (fun _ => none : Held) = held
    induction images with
    | nil => rfl
    | cons image images ih =>
      rw [List.any_cons, Bool.or_eq_true, not_or] at hany
      have hempty : (c.defsOn image.collection engine).isEmpty = true := by
        simpa [hasDefs] using hany.1
      rw [List.foldl_cons, planImage, if_pos hempty]
      exact ih hany.2

lemma collecting_applyChanges {c : IndexState Predicate} {engine : IndexEngine}
    {images : List RowImage} :
    (c.collecting true (·.applyChanges (planImages A c engine images))).1 =
      { images.foldl (commitImage A engine) { c with sink := some [] } with sink := c.sink } := by
  have hplan : planImages A { c with sink := some [] } engine images =
      planImages A c engine images := rfl
  rw [← applyChanges_planImages, hplan]
  rfl

lemma IndexState.WellFormed.redeclares_of_get (h : WellFormed s.catalog) {name : String}
    {d : IndexDef Predicate} (hd : s.catalog.defs.get name = some d) :
    Redeclares s.catalog d := by
  intro old hold
  rw [h.named hd, hd] at hold
  rw [Option.some.inj hold]

end NodedbLite.Index
