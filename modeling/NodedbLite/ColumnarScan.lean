import NodedbLite.ColumnarRuns

/-! What the scans of a columnar collection return, and what a reopen brings back. Neither
`list_rows` nor `row_count` reads the delete bitmaps, and `restore` rebuilds the collections
without them, so a row that was deleted or replaced is listed, counted and restored like any
other. -/
namespace NodedbLite.Columnar

open KeyedTable

variable {Schema Row Pk : Type} [DecidableEq Pk] {M : MutationEngine Schema Row Pk}

lemma listRows_eq {eng : ColumnarEngine M} {name : String} {c : CollectionState M}
    (hc : eng.collections.get name = some c) :
    eng.listRows name
      = .ok ((placed (eng.storage.loadSegmentBytes name) c).map Prod.snd) := by
  unfold ColumnarEngine.listRows
  rw [lookup_eq_ok.mpr hc, placed_snd]
  rfl

lemma liveRows_eq {eng : ColumnarEngine M} {name : String} {c : CollectionState M}
    (hc : eng.collections.get name = some c) :
    liveRows eng name = rowsMarked (placed (eng.storage.loadSegmentBytes name) c)
      (M.marked c.mutation) false := by
  unfold liveRows
  rw [hc]

lemma sum_rowCount {files : Files Row} {segments : List SegmentMeta}
    (h : ∀ m ∈ segments, m.fullyDeletedAtMs = none ∧
      ∃ rows, files m.segmentId = some rows ∧ m.rowCount = rows.length) :
    ((segments.filter (fun m => m.fullyDeletedAtMs.isNone)).map (·.rowCount)).sum
      = (segments.flatMap (placedSegment files)).length := by
  induction segments with
  | nil => rfl
  | cons m segments ih =>
    obtain ⟨hlive, rows, hfile, hcount⟩ := h m List.mem_cons_self
    have hrest := ih (fun n hn => h n (List.mem_cons_of_mem _ hn))
    simp [hlive, hcount, placedSegment, hfile, hrest]

lemma Keeps.rowCount {eng : ColumnarEngine M} {name : String} {c : CollectionState M}
    {t : KeyedTable Row} (hc : eng.collections.get name = some c)
    (h : Keeps (eng.storage.loadSegmentBytes name) c t) :
    eng.rowCount name = (placed (eng.storage.loadSegmentBytes name) c).length := by
  unfold ColumnarEngine.rowCount
  rw [hc]
  dsimp only
  rw [sum_rowCount h.filed, placed, List.length_append, List.length_mapIdx]
  exact Nat.add_comm ..

/-- `list_rows` returns the rows of the table, each once, and `row_count` their number. -/
def ScansExactly (eng : ColumnarEngine M) (name : String) (t : KeyedTable Row) : Prop :=
  (∃ rows, eng.listRows name = .ok rows ∧ rows.Perm t.live) ∧ eng.rowCount name = t.live.length

/-- The scans of a collection are exact as long as no row of it was deleted or replaced, and
in no state after that. -/
theorem scans_exactly_iff {sys : ColumnarSys M} (h : ColumnarReaches sys) {name : String}
    (hname : (sys.eng.collections.get name).isSome) :
    ScansExactly sys.eng name (sys.tables name) ↔ (sys.tables name).removed = [] := by
  obtain ⟨c, hc⟩ := Option.isSome_iff_exists.mp hname
  have hkeeps := h.sound.keeps name c hc
  have hperm := hkeeps.represents.perm_live_iff
  constructor
  · rintro ⟨⟨rows, hrows, hlive⟩, _⟩
    rw [listRows_eq hc] at hrows
    obtain rfl := Except.ok.inj hrows
    exact hperm.mp hlive
  · intro hnone
    refine ⟨⟨_, listRows_eq hc, hperm.mpr hnone⟩, ?_⟩
    rw [hkeeps.rowCount hc, ← (hperm.mpr hnone).length_eq, List.length_map]

/-- Two rows of the collection `t`, keyed by their first number. -/
def twoInserts : List (ColumnarLabel Unit (Nat × Nat) Nat) :=
  [.create "t" () .plain false, .insert "t" (1, 10), .insert "t" (2, 20), .flush "t" 0]

lemma exists_reaches_twoInserts :
    ∃ sys : ColumnarSys (indexedMutation (Prod.fst : Nat × Nat → Nat)), ColumnarReaches sys ∧
      (sys.eng.collections.get "t").isSome ∧ (sys.tables "t").live = [(1, 10), (2, 20)] ∧
      (sys.tables "t").removed = [] := by
  have hrun : (GuardedRun.runAll columnarStep
      (ColumnarSys.init : ColumnarSys (indexedMutation (Prod.fst : Nat × Nat → Nat)))
        twoInserts).map
        (fun sys => ((sys.eng.collections.get "t").isSome, (sys.tables "t").live,
          (sys.tables "t").removed))
      = some (true, [(1, 10), (2, 20)], []) := by decide +kernel
  obtain ⟨sys, hsys, hobs⟩ := Option.map_eq_some_iff.mp hrun
  exact ⟨sys, GuardedRun.Reaches.of_runAll (GuardedRun.goodAll_true _ _) hsys, by simpa using hobs⟩

/-- A run that has deleted nothing. -/
theorem scans_exactly_iff_run : ∃ sys : ColumnarSys (indexedMutation (Prod.fst : Nat × Nat → Nat)),
    ColumnarReaches sys ∧ (sys.tables "t").live = [(1, 10), (2, 20)] ∧
      ScansExactly sys.eng "t" (sys.tables "t") := by
  obtain ⟨sys, hreach, hname, hlive, hremoved⟩ := exists_reaches_twoInserts
  exact ⟨sys, hreach, hlive, (scans_exactly_iff hreach hname).mpr hremoved⟩

/-- A flushed row that was deleted is listed and counted. -/
theorem deleted_row_listed : ∃ sys : ColumnarSys (indexedMutation (Prod.fst : Nat × Nat → Nat)),
    ColumnarReaches sys ∧ (sys.tables "t").live = [(2, 20)] ∧
      sys.eng.listRows "t" = .ok [(1, 10), (2, 20)] ∧ sys.eng.rowCount "t" = 2 ∧
      ¬ ScansExactly sys.eng "t" (sys.tables "t") := by
  have hrun : (GuardedRun.runAll columnarStep
      (ColumnarSys.init : ColumnarSys (indexedMutation (Prod.fst : Nat × Nat → Nat)))
        (twoInserts ++ [.delete "t" 1])).map
        (fun sys => ((sys.tables "t").live, (sys.eng.listRows "t").toOption,
          sys.eng.rowCount "t"))
      = some ([(2, 20)], some [(1, 10), (2, 20)], 2) := by decide +kernel
  obtain ⟨sys, hsys, hobs⟩ := Option.map_eq_some_iff.mp hrun
  obtain ⟨hlive, hrows, hcount⟩ := by simpa using hobs
  have hreach := GuardedRun.Reaches.of_runAll (GuardedRun.goodAll_true _ _) hsys
  refine ⟨sys, hreach, hlive, ?_, hcount, ?_⟩
  · cases hlist : sys.eng.listRows "t" with
    | error e =>
      rw [hlist] at hrows
      cases hrows
    | ok rows =>
      rw [hlist] at hrows
      rw [Option.some.inj hrows]
  · rintro ⟨_, hexact⟩
    rw [hcount, hlive] at hexact
    cases hexact

lemma exists_run (sys : ColumnarSys M) (labels : List (ColumnarLabel Schema Row Pk)) :
    ∃ sys', GuardedRun.runAll columnarStep sys labels = some sys' := by
  induction labels generalizing sys with
  | nil => exact ⟨sys, rfl⟩
  | cons label labels ih =>
    obtain ⟨next, hnext⟩ : ∃ next, columnarStep sys label = some next := by
      cases label <;> unfold columnarStep <;> dsimp only <;> try split
      all_goals exact ⟨_, rfl⟩
    obtain ⟨sys', hrun⟩ := ih next
    exact ⟨sys', by rw [GuardedRun.runAll, hnext, Option.bind_some, hrun]⟩

/-- After any calls the unmarked rows of a collection are its table, no two of them have one key,
and the key index finds the keys of the table and no others. -/
theorem key_index_exact (labels : List (ColumnarLabel Schema Row Pk)) :
    ∃ sys : ColumnarSys M, GuardedRun.runAll columnarStep .init labels = some sys ∧
      ∀ name c, sys.eng.collections.get name = some c →
        (liveRows sys.eng name).Perm (sys.tables name).live ∧
        ((liveRows sys.eng name).map (M.pkOf c.mutation)).Nodup ∧
        ∀ pk, (M.location c.mutation pk).isSome ↔
          ∃ row ∈ (sys.tables name).live, M.pkOf c.mutation row = pk := by
  obtain ⟨sys, hrun⟩ := exists_run ColumnarSys.init labels
  have hreach : ColumnarReaches sys :=
    GuardedRun.Reaches.of_runAll (GuardedRun.goodAll_true _ _) hrun
  refine ⟨sys, hrun, fun name c hc => ?_⟩
  have hrep := (hreach.sound.keeps name c hc).represents
  rw [liveRows_eq hc]
  refine ⟨hrep.live.symm, ?_, fun pk => ?_⟩
  · rw [rowsMarked, List.map_map]
    refine List.Nodup.map_on ?_ (hrep.places_nodup.of_map.filter _)
    intro e he f hf hkey
    obtain ⟨he, hlive⟩ := List.mem_filter.mp he
    obtain ⟨hf, hlive'⟩ := List.mem_filter.mp hf
    -- Both rows are where the index leads for their key.
    have hplace := (hrep.index_iff _ _).mpr ⟨e.2, he, hkey, of_decide_eq_true hlive⟩
    have hplace' := (hrep.index_iff _ _).mpr ⟨f.2, hf, rfl, of_decide_eq_true hlive'⟩
    exact List.inj_on_of_nodup_map hrep.places_nodup he hf
      (Option.some.inj (hplace.symm.trans hplace'))
  · simp only [Option.isSome_iff_exists, hrep.index_iff, hrep.live.mem_iff, rowsMarked,
      List.mem_map, List.mem_filter, decide_eq_true_eq]
    constructor
    · rintro ⟨loc, row, hmem, hkey, hlive⟩
      exact ⟨row, ⟨(loc, row), ⟨hmem, hlive⟩, rfl⟩, hkey⟩
    · rintro ⟨row, ⟨e, ⟨hmem, hlive⟩, rfl⟩, hkey⟩
      exact ⟨e.1, e.2, hmem, hkey, hlive⟩

end NodedbLite.Columnar
