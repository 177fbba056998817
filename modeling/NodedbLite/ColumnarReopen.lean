import NodedbLite.ColumnarScan

/-! Closing and reopening the columnar engine after `flush_all`. The flush leaves every row in
a listed segment; `restore` reads the segments back and starts with no delete recorded. -/
namespace NodedbLite.Columnar

open KeyedTable

variable {Schema Row Pk : Type} [DecidableEq Pk] {M : MutationEngine Schema Row Pk}

/-- The collection has nothing left in its memtable. -/
def Drained (eng : ColumnarEngine M) (name : String) : Prop :=
  ∀ c, eng.collections.get name = some c → M.memtable c.mutation = []

lemma flushCollection_drains {eng : ColumnarEngine M} {name : String}
    (hname : (eng.collections.get name).isSome) (now : Int) :
    ∃ eng', eng.flushCollection now none name = (.ok (), eng') ∧ Drained eng' name ∧
      (∀ other, Drained eng other → Drained eng' other) ∧
      ∀ other, (eng'.collections.get other).isSome = (eng.collections.get other).isSome := by
  obtain ⟨c, hc⟩ := Option.isSome_iff_exists.mp hname
  rcases flushCollection_ok hc now with ⟨hempty, heq⟩ | ⟨dels, heq⟩
  · refine ⟨eng, heq, ?_, fun _ h => h, fun _ => rfl⟩
    intro d hd
    rw [hc] at hd
    rw [← Option.some.inj hd, hempty]
  · have hdrained : M.memtable (c.drain now).2.mutation = [] :=
      (M.flushed _ _).2.1.trans (M.drain _).2.1
    have hget : ∀ other, (eng.withCollection name (c.drain now).2).collections.get other
        = if other = name then some (c.drain now).2 else eng.collections.get other :=
      fun other => SortedMap.get_insert ..
    refine ⟨_, heq, ?_, ?_, ?_⟩
    · intro d hd
      rw [hget, if_pos rfl] at hd
      rw [← Option.some.inj hd, hdrained]
    · intro other hother d hd
      rw [hget] at hd
      split at hd
      · rw [← Option.some.inj hd, hdrained]
      · exact hother d hd
    · intro other
      rw [hget]
      split
      next heq => rw [heq, hname]; rfl
      next => rfl

lemma flushNames_drains (now : Int) {names : List String} {eng : ColumnarEngine M}
    (hnames : ∀ name ∈ names, (eng.collections.get name).isSome) :
    ∃ eng', ColumnarEngine.flushNames now names eng = (.ok (), eng') ∧
      (∀ name ∈ names, Drained eng' name) ∧ (∀ other, Drained eng other → Drained eng' other) ∧
      ∀ other, (eng'.collections.get other).isSome = (eng.collections.get other).isSome := by
  induction names generalizing eng with
  | nil => exact ⟨eng, rfl, by simp, fun _ h => h, fun _ => rfl⟩
  | cons name names ih =>
    obtain ⟨mid, hmid, hdrained, hkept, hsame⟩ :=
      flushCollection_drains (hnames name List.mem_cons_self) now
    have hexist : ∀ other ∈ names, (mid.collections.get other).isSome := by
      intro other hother
      rw [hsame]
      exact hnames other (List.mem_cons_of_mem _ hother)
    obtain ⟨eng', hrest, hall, hkept', hsame'⟩ := ih hexist
    refine ⟨eng', ?_, ?_, fun other h => hkept' other (hkept other h), ?_⟩
    · unfold ColumnarEngine.flushNames
      rw [hmid]
      exact hrest
    · intro other hother
      rcases List.mem_cons.mp hother with rfl | hother
      · exact hkept' _ hdrained
      · exact hall other hother
    · intro other
      rw [hsame', hsame]

lemma flushAll_drains (eng : ColumnarEngine M) (now : Int) :
    ∃ eng', eng.flushAll now = (.ok (), eng') ∧ (∀ name, Drained eng' name) ∧
      ∀ other, (eng'.collections.get other).isSome = (eng.collections.get other).isSome := by
  have hkeys : ∀ name ∈ eng.collections.keys, (eng.collections.get name).isSome :=
    fun name hname => SortedMap.mem_keys.mp hname
  obtain ⟨eng', hflush, hall, _, hsame⟩ := flushNames_drains now hkeys
  refine ⟨eng', hflush, ?_, hsame⟩
  intro name c hc
  refine hall name (SortedMap.mem_keys.mpr ?_) c hc
  rw [← hsame, hc]
  rfl

/-- A mutation engine that holds no row in memory and has no delete recorded. -/
structure Blank (s : M.State) : Prop where
  memtable : M.memtable s = []
  marked : ∀ loc, M.marked s loc = false

lemma blank_rebuildPkFromColumn (segmentId : Nat) {rows : List Row} {rowIdx : Nat} {s : M.State}
    (h : Blank s) : Blank (rebuildPkFromColumn (M := M) segmentId rowIdx rows s) := by
  induction rows generalizing rowIdx s with
  | nil => exact h
  | cons row rows ih =>
    apply ih
    split
    next pk _ =>
      obtain ⟨hmem, hmarked⟩ := M.upsert s pk (.segment segmentId rowIdx)
      exact ⟨hmem.trans h.memtable, fun loc => by rw [hmarked, h.marked]⟩
    next => exact h

/-- A restored collection has the listed segments, an empty memtable and no delete recorded. -/
lemma blank_restoreCollection (storage : Storage Schema Row) (name : String)
    (stored : StoredSchema Schema) :
    Blank (restoreCollection M storage name stored).mutation := by
  unfold restoreCollection
  have hnew : Blank (M := M) (M.new stored.schema) :=
    ⟨M.new_memtable _, M.new_marked _⟩
  generalize M.new stored.schema = s at hnew
  dsimp only
  induction (storage.metas.get name).getD [] generalizing s with
  | nil => exact hnew
  | cons m segments ih =>
    apply ih
    dsimp only
    split
    next => exact hnew
    next =>
      split
      next => exact blank_rebuildPkFromColumn m.segmentId hnew
      next => exact hnew

/-- A name that is loaded already or still to come is there at the end, if its own step loads it and
no other step touches it. -/
lemma get_foldl_of_own {V : Type} {name : String} {v : V}
    {load : SortedMap String V → String → SortedMap String V}
    (hown : ∀ loaded, (load loaded name).get name = some v)
    (hother : ∀ loaded other, name ≠ other → (load loaded other).get name = loaded.get name)
    {names : List String} {loaded : SortedMap String V}
    (h : loaded.get name = some v ∨ name ∈ names) :
    (names.foldl load loaded).get name = some v := by
  induction names generalizing loaded with
  | nil => exact h.resolve_right List.not_mem_nil
  | cons other names ih =>
    apply ih
    by_cases heq : name = other
    · exact .inl (heq ▸ hown loaded)
    · rw [hother loaded other heq]
      exact h.imp_right fun h => (List.mem_cons.mp h).resolve_left heq

/-- Restoring: a listed collection whose schema is stored comes back. -/
lemma get_restore {storage : Storage Schema Row} {name : String} {stored : StoredSchema Schema}
    (hname : name ∈ storage.names) (hstored : storage.schemas.get name = some stored) :
    (ColumnarEngine.restore storage : ColumnarEngine M).collections.get name
      = some (restoreCollection M storage name stored) := by
  refine get_foldl_of_own (fun loaded => ?_) (fun loaded other hne => ?_) (.inr hname)
  · rw [hstored]
    exact (SortedMap.get_insert ..).trans (if_pos rfl)
  · split
    next => rw [SortedMap.get_insert, if_neg hne]
    next => rfl

lemma placed_of_drained {files : Files Row} {c : CollectionState M}
    (h : M.memtable c.mutation = []) :
    placed files c = c.segments.flatMap (placedSegment files) := by
  rw [placed, h]
  rfl

lemma rowsMarked_of_unmarked {placed : List (RowLocation × Row)} {marked : RowLocation → Bool}
    (h : ∀ loc, marked loc = false) : rowsMarked placed marked false = placed.map Prod.snd := by
  rw [rowsMarked]
  congr 1
  exact List.filter_eq_self.mpr fun e _ => by simp [h]

lemma liveRows_restore {sys : ColumnarSys M} (h : Sound sys)
    (hdrained : ∀ name, Drained sys.eng name) {name : String} {c : CollectionState M}
    (hc : sys.eng.collections.get name = some c) :
    liveRows (ColumnarEngine.restore sys.eng.storage : ColumnarEngine M) name
      = (placed (sys.eng.storage.loadSegmentBytes name) c).map Prod.snd := by
  obtain ⟨schema, hschema⟩ := h.schemas name c hc
  have hname : name ∈ sys.eng.storage.names := (h.names name).mpr (by rw [hc]; rfl)
  have hget := get_restore (M := M) hname hschema
  have hblank := blank_restoreCollection (M := M) sys.eng.storage name
    ⟨schema, c.profile, c.bitemporal⟩
  rw [liveRows_eq hget, rowsMarked_of_unmarked hblank.marked, placed_of_drained hblank.memtable,
    placed_of_drained (hdrained name c hc), ← h.segments_eq hc]
  rfl

/-- `flush_all` succeeds, and reopening the store then gives the live rows of a collection as
they were exactly when no row of it was ever deleted or replaced. -/
theorem reopen_keeps_live_rows_iff {sys : ColumnarSys M} (h : ColumnarReaches sys) (now : Int) :
    ∃ eng, sys.eng.flushAll now = (.ok (), eng) ∧
      ∀ name, (sys.eng.collections.get name).isSome →
        (liveRows eng name).Perm (sys.tables name).live ∧
        ((liveRows (ColumnarEngine.restore eng.storage : ColumnarEngine M) name).Perm
          (liveRows eng name) ↔ (sys.tables name).removed = []) := by
  obtain ⟨eng, hflush, hdrained, hsame⟩ := flushAll_drains sys.eng now
  refine ⟨eng, hflush, ?_⟩
  intro name hname
  have hsound : Sound ⟨eng, sys.tables⟩ := by
    have hflushed := h.sound.flushNames now sys.eng.collections.keys
    rwa [show ColumnarEngine.flushNames now sys.eng.collections.keys sys.eng = (.ok (), eng)
      from hflush] at hflushed
  rw [← hsame] at hname
  obtain ⟨c, hc⟩ := Option.isSome_iff_exists.mp hname
  have hkeeps := hsound.keeps name c hc
  have hlive : (liveRows eng name).Perm (sys.tables name).live := by
    rw [liveRows_eq hc]
    exact hkeeps.represents.live.symm
  refine ⟨hlive, ?_⟩
  rw [liveRows_restore hsound hdrained hc, ← hkeeps.represents.perm_live_iff]
  constructor
  · intro hperm
    exact hperm.trans hlive
  · intro hperm
    exact hperm.trans hlive.symm

/-- A run that has deleted nothing, flushed and reopened. -/
theorem reopen_keeps_live_rows_iff_run :
    ∃ sys : ColumnarSys (indexedMutation (Prod.fst : Nat × Nat → Nat)), ColumnarReaches sys ∧
      ∃ eng, sys.eng.flushAll 0 = (.ok (), eng) ∧
        (liveRows (ColumnarEngine.restore eng.storage :
          ColumnarEngine (indexedMutation (Prod.fst : Nat × Nat → Nat))) "t").Perm
          [(1, 10), (2, 20)] := by
  obtain ⟨sys, hreach, hname, hlive, hremoved⟩ := exists_reaches_twoInserts
  obtain ⟨eng, hflush, hall⟩ := reopen_keeps_live_rows_iff hreach 0
  obtain ⟨hkept, hsame⟩ := hall "t" hname
  rw [hlive] at hkept
  exact ⟨sys, hreach, eng, hflush, (hsame.mpr hremoved).trans hkept⟩

/-- A deleted row comes back: the row is flushed, deleted, and the store flushed and reopened. -/
theorem deleted_row_comes_back :
    ∃ sys : ColumnarSys (indexedMutation (Prod.fst : Nat × Nat → Nat)), ColumnarReaches sys ∧
      (sys.eng.flushAll 0).1.toOption = some () ∧
      liveRows (sys.eng.flushAll 0).2 "t" = [(2, 20)] ∧
      liveRows (ColumnarEngine.restore (sys.eng.flushAll 0).2.storage :
        ColumnarEngine (indexedMutation (Prod.fst : Nat × Nat → Nat))) "t"
          = [(1, 10), (2, 20)] := by
  have hrun : (GuardedRun.runAll columnarStep
      (ColumnarSys.init : ColumnarSys (indexedMutation (Prod.fst : Nat × Nat → Nat)))
        (twoInserts ++ [.delete "t" 1])).map
        (fun sys => ((sys.eng.flushAll 0).1.toOption, liveRows (sys.eng.flushAll 0).2 "t",
          liveRows (ColumnarEngine.restore (sys.eng.flushAll 0).2.storage :
            ColumnarEngine (indexedMutation (Prod.fst : Nat × Nat → Nat))) "t"))
      = some (some (), [(2, 20)], [(1, 10), (2, 20)]) := by decide +kernel
  obtain ⟨sys, hsys, hobs⟩ := Option.map_eq_some_iff.mp hrun
  have hreach := GuardedRun.Reaches.of_runAll (GuardedRun.goodAll_true _ _) hsys
  obtain ⟨hok, hlive, hback⟩ := by simpa using hobs
  exact ⟨sys, hreach, hok, hlive, hback⟩

end NodedbLite.Columnar
