import NodedbLite.ArrayRetain

/-! A retention pass that stops early. The manifest in storage changes only with the last call;
until then it lists the segments from before the pass, deleted ones included. -/
namespace NodedbLite.Arrays

variable {Coord Attr : Type} [LinearOrder Coord]

/-- A read of the engine reaches the version. -/
def Readable (db : ArrayDb Coord Attr) (name : String) (coord : Coord) (v : Version Attr) : Prop :=
  ∃ versions, db.coordVersions name coord v.stamp = .ok versions ∧ v ∈ versions

/-- The stored manifest names segments that are there, and a reopened engine still reads every
version at or after the horizon that it would have read before. -/
structure CrashSafe (name : String) (horizonMs : Int) (d d' : Storage Coord Attr) : Prop where
  listed : ∀ id ∈ (d'.loadManifest name).segments, (d'.getSegment name id).isSome = true
  kept : ∀ coord v, horizonMs ≤ v.stamp → Readable (.openStorage d) name coord v →
    Readable (.openStorage d') name coord v

section
variable {env : ArrayEnv Coord Attr} {name : String} {horizonMs : Int}

lemma retainSegments_exhausted {p : RetentionPass Coord Attr} (h : p.budget = some 0)
    (ids : List Nat) :
    (retainSegments env name horizonMs ids p).2.storage = p.storage ∧
      ((retainSegments env name horizonMs ids p).1 = .ok () →
        (retainSegments env name horizonMs ids p).2.budget = some 0) := by
  cases ids with
  | nil => exact ⟨rfl, fun _ => h⟩
  | cons id ids =>
    unfold retainSegments retainSegment
    rw [h, CallBudget.spend_zero]
    exact ⟨rfl, fun hok => by cases hok⟩

/-- A segment with no tile older than the horizon is left alone. -/
lemma retainSegment_untouched {p : RetentionPass Coord Attr} {id : Nat} {tiles : Segment Coord Attr}
    (hget : p.storage.getSegment name id = some tiles)
    (hall : ∀ e ∈ tiles, horizonMs ≤ e.1.systemFromMs) :
    retainSegment env name horizonMs id p = match p.budget.spend with
      | none => (.error callFailed, p)
      | some budget => (.ok (), { p with budget, newSegments := p.newSegments ++ [id] }) := by
  have hload : p.storage.loadSegment name id = .ok tiles := by
    unfold Storage.loadSegment
    rw [hget]
  have hallb : tiles.all (fun e => horizonMs ≤ e.1.systemFromMs) = true :=
    List.all_eq_true.mpr fun e he => decide_eq_true (hall e he)
  unfold retainSegment
  cases p.budget.spend with
  | none => rfl
  | some budget =>
    dsimp only
    rw [hload]
    dsimp only
    rw [if_pos hallb]

lemma retainSegments_untouched {ids : List Nat} {segments : List (Segment Coord Attr)}
    {p : RetentionPass Coord Attr} (hload : loadSegments p.storage name ids = .ok segments)
    (hall : ∀ tiles ∈ segments, ∀ e ∈ tiles, horizonMs ≤ e.1.systemFromMs) :
    (retainSegments env name horizonMs ids p).2.storage = p.storage ∧
      (retainSegments env name horizonMs ids p).2.nextId = p.nextId ∧
      ((retainSegments env name horizonMs ids p).1 = .ok () →
        (retainSegments env name horizonMs ids p).2.newSegments = p.newSegments ++ ids) := by
  induction ids generalizing segments p with
  | nil => exact ⟨rfl, rfl, fun _ => (List.append_nil _).symm⟩
  | cons id ids ih =>
    obtain ⟨tiles, rest, hget, hrest, rfl⟩ := loadSegments_cons_ok.mp hload
    unfold retainSegments
    rw [retainSegment_untouched hget (hall tiles List.mem_cons_self)]
    cases p.budget.spend with
    | none => exact ⟨rfl, rfl, fun hok => by cases hok⟩
    | some budget =>
      have hi := @ih rest { p with budget, newSegments := p.newSegments ++ [id] } hrest
        (fun t ht => hall t (List.mem_cons_of_mem _ ht))
      dsimp only at hi ⊢
      rw [List.append_assoc] at hi
      exact hi

/-- Where some segment has an older tile, a pass can stop right after deleting it. -/
lemma exists_stop (law : MergeLaw env) {ids : List Nat} {segments : List (Segment Coord Attr)}
    {d : Storage Coord Attr} (hload : loadSegments d name ids = .ok segments)
    (hasc : ∀ tiles ∈ segments, Ascending tiles)
    (hold : ∃ tiles ∈ segments, ∃ e ∈ tiles, e.1.systemFromMs < horizonMs) :
    ∃ n, ∃ id ∈ ids, ∀ p : RetentionPass Coord Attr, p.budget = some n → p.storage = d →
      (retainSegments env name horizonMs ids p).2.storage = d.deleteSegment name id ∧
      ((retainSegments env name horizonMs ids p).1 = .ok () →
        (retainSegments env name horizonMs ids p).2.budget = some 0) := by
  induction ids generalizing segments with
  | nil =>
    obtain rfl : segments = [] := (Except.ok.inj hload).symm
    obtain ⟨_, hmem, _⟩ := hold
    cases hmem
  | cons id ids ih =>
    obtain ⟨tiles, rest, hget, hrest, rfl⟩ := loadSegments_cons_ok.mp hload
    by_cases hall : ∀ e ∈ tiles, horizonMs ≤ e.1.systemFromMs
    · have hold' : ∃ t ∈ rest, ∃ e ∈ t, e.1.systemFromMs < horizonMs := by
        obtain ⟨t, ht, e, he, hlt⟩ := hold
        rcases List.mem_cons.mp ht with rfl | ht
        · exact absurd hlt (not_lt.mpr (hall e he))
        · exact ⟨t, ht, e, he, hlt⟩
      obtain ⟨n, jd, hjd, hstop⟩ := ih hrest (fun t ht => hasc t (List.mem_cons_of_mem _ ht)) hold'
      refine ⟨n + 1, jd, List.mem_cons_of_mem _ hjd, ?_⟩
      intro p hbudget hstorage
      unfold retainSegments
      rw [retainSegment_untouched (by rw [hstorage, hget]) hall, hbudget, CallBudget.spend_succ]
      exact hstop _ rfl hstorage
    · refine ⟨2, id, List.mem_cons_self, ?_⟩
      intro p hbudget hstorage
      obtain ⟨keep, hkeep, _⟩ := keepTiles_ok law (hasc tiles List.mem_cons_self) horizonMs
      have hloaded : p.storage.loadSegment name id = .ok tiles := by
        unfold Storage.loadSegment
        rw [hstorage, hget]
      have hnot : ¬ tiles.all (fun e => horizonMs ≤ e.1.systemFromMs) = true := by
        intro hb
        exact hall fun e he => of_decide_eq_true (List.all_eq_true.mp hb e he)
      have hdelete : retainSegment env name horizonMs id p
          = if keep = [] then (.ok (), { p with
              budget := some 0, storage := d.deleteSegment name id, rewritten := p.rewritten + 1 })
            else (.error callFailed, { p with
              budget := some 0, storage := d.deleteSegment name id, nextId := p.nextId + 1 }) := by
        unfold retainSegment
        rw [hbudget]
        simp only [CallBudget.spend_succ, CallBudget.spend_zero, hloaded, hkeep]
        rw [if_neg hnot, hstorage]
      unfold retainSegments
      rw [hdelete]
      split
      next p' heq =>
        split at heq
        next =>
          obtain ⟨_, rfl⟩ := Prod.mk.inj heq
          exact retainSegments_exhausted rfl ids
        next => cases (Prod.mk.inj heq).1
      next e p' heq =>
        split at heq
        next => cases (Prod.mk.inj heq).1
        next =>
          obtain ⟨_, rfl⟩ := Prod.mk.inj heq
          exact ⟨rfl, fun hok => by cases hok⟩

lemma openStorage_get (d : Storage Coord Attr) (name : String) :
    ((.openStorage d : ArrayDb Coord Attr).arrays.get name).map
        (fun st => (st.schema, st.manifest, st.memtable))
      = (d.catalog.get name).map (fun entry => (entry.schema, d.loadManifest name, .new)) := by
  unfold ArrayDb.openStorage
  dsimp only
  rw [SortedMap.get_mapValues, Option.map_map]
  rfl

lemma loadManifest_saveManifest (d : Storage Coord Attr) (name : String) (manifest : ArrayManifest) :
    (d.saveManifest name manifest).loadManifest name = manifest := by
  unfold Storage.loadManifest Storage.saveManifest
  rw [SortedMap.get_insert, if_pos rfl]
  rfl

lemma isSome_of_loadSegments {d : Storage Coord Attr} {ids : List Nat}
    {segments : List (Segment Coord Attr)} (h : loadSegments d name ids = .ok segments) {id : Nat}
    (hid : id ∈ ids) : (d.getSegment name id).isSome = true := by
  induction ids generalizing segments with
  | nil => cases hid
  | cons jd ids ih =>
    obtain ⟨tiles, rest, hget, hrest, rfl⟩ := loadSegments_cons_ok.mp h
    rcases List.mem_cons.mp hid with rfl | hid
    · rw [hget]
      rfl
    · exact ih hrest hid

lemma coordVersions_saveManifest {d : Storage Coord Attr} {name : String} (coord : Coord) (t : Int) :
    (.openStorage (d.saveManifest name (d.loadManifest name)) : ArrayDb Coord Attr).coordVersions
        name coord t
      = (.openStorage d : ArrayDb Coord Attr).coordVersions name coord t := by
  unfold ArrayDb.coordVersions
  have hleft := openStorage_get (d.saveManifest name (d.loadManifest name)) name
  have hright := openStorage_get d name
  rw [loadManifest_saveManifest] at hleft
  have hboth := hleft.trans hright.symm
  cases hst : (ArrayDb.openStorage d).arrays.get name with
  | none =>
    rw [hst, Option.map_none, Option.map_eq_none_iff] at hboth
    rw [hboth]
  | some st =>
    rw [hst, Option.map_some, Option.map_eq_some_iff] at hboth
    obtain ⟨st', hst', hsame⟩ := hboth
    obtain ⟨hschema, hrest⟩ := Prod.mk.inj hsame
    obtain ⟨hmanifest', hmemtable⟩ := Prod.mk.inj hrest
    rw [hst']
    dsimp only
    rw [hschema, hmanifest', hmemtable]
    rfl

lemma runRetention_snd_of_storage {auditRetainMs nowMs : Int} {budget : CallBudget}
    {d stopped : Storage Coord Attr} {manifest : ArrayManifest}
    (h : (retainSegments env name (saturatingSub nowMs auditRetainMs) manifest.segments
        ⟨budget, d, manifest.nextId, [], 0⟩).2.storage = stopped ∧
      ((retainSegments env name (saturatingSub nowMs auditRetainMs) manifest.segments
        ⟨budget, d, manifest.nextId, [], 0⟩).1 = .ok () →
        (retainSegments env name (saturatingSub nowMs auditRetainMs) manifest.segments
          ⟨budget, d, manifest.nextId, [], 0⟩).2.budget = some 0)) :
    (runRetention env name auditRetainMs nowMs budget d manifest).2.1 = stopped := by
  unfold runRetention
  dsimp only
  split
  next e p heq =>
    rw [heq] at h
    exact h.1
  next p heq =>
    rw [heq] at h
    rw [h.2 rfl]
    exact h.1

end

/-- A retention pass is safe to stop at every call exactly when it has nothing to rewrite. -/
theorem retention_crash_safe_iff {env : ArrayEnv Coord Attr} (law : MergeLaw env) {name : String}
    {d : Storage Coord Attr} {segments : List (Segment Coord Attr)}
    (hload : loadSegments d name (d.loadManifest name).segments = .ok segments)
    (hasc : ∀ tiles ∈ segments, Ascending tiles) (auditRetainMs nowMs : Int) :
    (∀ budget, CrashSafe name (saturatingSub nowMs auditRetainMs) d
      (runRetention env name auditRetainMs nowMs budget d (d.loadManifest name)).2.1)
      ↔ ∀ tiles ∈ segments, ∀ e ∈ tiles, saturatingSub nowMs auditRetainMs ≤ e.1.systemFromMs := by
  constructor
  · intro hsafe
    by_contra hnot
    have hold : ∃ tiles ∈ segments, ∃ e ∈ tiles,
        e.1.systemFromMs < saturatingSub nowMs auditRetainMs := by
      push Not at hnot
      exact hnot
    obtain ⟨n, id, hid, hstop⟩ := exists_stop law hload hasc hold
    have hstorage := runRetention_snd_of_storage (hstop _ rfl rfl)
    have hlisted := (hsafe (some n)).listed id
    rw [hstorage] at hlisted
    have hgone := hlisted hid
    rw [getSegment_deleteSegment, if_pos ⟨rfl, rfl⟩] at hgone
    cases hgone
  · intro hall budget
    obtain ⟨hstorage, hnext, hnew⟩ := @retainSegments_untouched _ _ _ env name
      (saturatingSub nowMs auditRetainMs) _ _
      ⟨budget, d, (d.loadManifest name).nextId, [], 0⟩ hload hall
    have hunchanged : (runRetention env name auditRetainMs nowMs budget d
          (d.loadManifest name)).2.1 = d ∨
        (runRetention env name auditRetainMs nowMs budget d (d.loadManifest name)).2.1
          = d.saveManifest name (d.loadManifest name) := by
      unfold runRetention
      dsimp only
      split
      next e p heq =>
        rw [heq] at hstorage
        exact .inl hstorage
      next p heq =>
        rw [heq] at hstorage hnext hnew
        have hmanifest : (⟨p.newSegments, p.nextId⟩ : ArrayManifest) = d.loadManifest name := by
          have hsegments : p.newSegments = (d.loadManifest name).segments := hnew rfl
          rw [hsegments]
          exact congrArg (ArrayManifest.mk _) hnext
        cases p.budget.spend with
        | none => exact .inl hstorage
        | some _ =>
          dsimp only
          rw [hmanifest, hstorage]
          exact .inr rfl
    rcases hunchanged with heq | heq
    · rw [heq]
      exact ⟨fun id hid => isSome_of_loadSegments hload hid, fun _ _ _ h => h⟩
    · rw [heq]
      refine ⟨?_, ?_⟩
      · intro id hid
        rw [loadManifest_saveManifest] at hid
        exact isSome_of_loadSegments hload hid
      · rintro coord v _ ⟨versions, hversions, hv⟩
        exact ⟨versions, (coordVersions_saveManifest coord v.stamp).trans hversions, hv⟩

/-- One version of a catalogued array, written and listed. -/
def liveStorage : Storage Nat Nat :=
  ({ Storage.empty with catalog := SortedMap.empty.insert "a" ⟨quadSchema, none⟩ }.writeSegment "a" 0
    liveSegment).saveManifest "a" ⟨[0], 1⟩

/-- With the horizon before the version there is nothing to rewrite, and the version stays readable. -/
theorem retention_crash_safe_live :
    Readable (.openStorage liveStorage) "a" 1 (.mk 0 10, .live ⟨0, 100, [7], 1⟩) ∧
      CrashSafe "a" 5 liveStorage
        (runRetention exactEnv "a" 100 105 (some 2) liveStorage (liveStorage.loadManifest "a")).2.1 := by
  refine ⟨⟨_, rfl, .head _⟩, ?_⟩
  have hload : loadSegments liveStorage "a" (liveStorage.loadManifest "a").segments
      = .ok [liveSegment] := rfl
  refine (retention_crash_safe_iff mergeLaw_exactEnv hload ?_ 100 105).mpr ?_ (some 2)
  · intro tiles htiles
    rw [List.mem_singleton.mp htiles]
    exact List.pairwise_singleton ..
  · intro tiles htiles e he
    rw [List.mem_singleton.mp htiles] at he
    rw [List.mem_singleton.mp he]
    decide

/-- Stopped after the delete, the pass leaves a manifest that lists a segment no more there. -/
theorem deleted_segment_listed : ¬ CrashSafe "a" 30 liveStorage
    (runRetention exactEnv "a" 100 130 (some 2) liveStorage (liveStorage.loadManifest "a")).2.1 := by
  intro h
  have hlisted := h.listed 0
  revert hlisted
  decide +kernel

end NodedbLite.Arrays
