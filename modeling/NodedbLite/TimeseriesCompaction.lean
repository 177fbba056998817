import NodedbLite.RemoveAt
import NodedbLite.SortedMap

/-! Compaction of the partitions of a timeseries collection: the sealed partitions are merged into one
descriptor, removed one by one from the list, and the merged one is put at its end. -/
namespace NodedbLite.Timeseries

open RemoveAt

/-- The states the engine itself gives to a partition, and those of the shared crate it never sets. -/
inductive PartitionState
  | sealed
  | merged
  | other (name : String)
  deriving DecidableEq

/-- The description of a partition. Its column statistics are always empty here. -/
structure PartitionMeta where
  minTs : Int64
  maxTs : Int64
  rowCount : UInt64
  sizeBytes : UInt64
  schemaVersion : Nat
  state : PartitionState
  intervalMs : UInt64
  lastFlushedWalLsn : UInt64
  maxSystemTs : Int64
  deriving DecidableEq

structure FlushedPartition where
  info : PartitionMeta
  keyPrefix : String
  deriving DecidableEq

structure CompactionResult where
  partitionsMerged : Nat
  partitionsCreated : Nat
  totalRows : UInt64
  deriving DecidableEq

structure TimeseriesEngine where
  compactionPartitionThreshold : UInt32
  collections : SortedMap String (List FlushedPartition)

section Compaction

def isSealed (p : FlushedPartition) : Bool := p.info.state = .sealed

/-- Positions of the sealed partitions, by their first timestamp. The sort is stable. -/
def mergeIndices (partitions : List FlushedPartition) : List Nat :=
  ((List.range partitions.length).filter (fun i => (partitions[i]?).any isSealed)).mergeSort
    (fun i j => decide ((partitions[i]?).elim 0 (·.info.minTs) ≤
      (partitions[j]?).elim 0 (·.info.minTs)))

/-- What the loop over the selected partitions adds up. -/
structure Totals where
  totalRows : UInt64
  totalSize : UInt64
  globalMinTs : Int64
  globalMaxTs : Int64

def Totals.add (t : Totals) (p : FlushedPartition) : Totals where
  totalRows := t.totalRows + p.info.rowCount
  totalSize := t.totalSize + p.info.sizeBytes
  globalMinTs := if p.info.minTs < t.globalMinTs then p.info.minTs else t.globalMinTs
  globalMaxTs := if t.globalMaxTs < p.info.maxTs then p.info.maxTs else t.globalMaxTs

def totals (selected : List FlushedPartition) : Totals :=
  selected.foldl Totals.add ⟨0, 0, Int64.maxValue, Int64.minValue⟩

def mergedPartition (collection : String) (t : Totals) : FlushedPartition where
  info :=
    { minTs := t.globalMinTs
      maxTs := t.globalMaxTs
      rowCount := t.totalRows
      sizeBytes := t.totalSize
      schemaVersion := 1
      state := .merged
      intervalMs := (t.globalMaxTs - t.globalMinTs).toUInt64
      lastFlushedWalLsn := 0
      maxSystemTs := 0 }
  keyPrefix := "ts:" ++ collection ++ ":" ++ t.globalMinTs.toInt.repr

/-- The partitions after the compaction of a list. -/
def replaceMerged (collection : String) (partitions : List FlushedPartition) :
    List FlushedPartition :=
  let selected := (mergeIndices partitions).filterMap (partitions[·]?)
  removeLoop (mergeIndices partitions).reverse 0 partitions ++
    [mergedPartition collection (totals selected)]

/-- Whether a list of partitions is compacted at all. -/
def triggers (threshold : UInt32) (partitions : List FlushedPartition) : Bool :=
  threshold ≠ 0 && threshold.toNat < partitions.length && 2 ≤ (mergeIndices partitions).length

def compactPartitions (e : TimeseriesEngine) (collection : String) :
    Option CompactionResult × TimeseriesEngine :=
  match e.collections.get collection with
  | none => (none, e)
  | some partitions =>
    if triggers e.compactionPartitionThreshold partitions then
      (some ⟨(mergeIndices partitions).length, 1,
        (totals ((mergeIndices partitions).filterMap (partitions[·]?))).totalRows⟩,
       { e with collections :=
          e.collections.insert collection (replaceMerged collection partitions) })
    else (none, e)

end Compaction

section Selection

variable (partitions : List FlushedPartition)

lemma mergeIndices_perm : (mergeIndices partitions).Perm (places isSealed partitions) :=
  List.mergeSort_perm _ _

lemma selected_perm :
    ((mergeIndices partitions).filterMap (partitions[·]?)).Perm (partitions.filter isSealed) := by
  rw [← filterMap_places]
  exact (mergeIndices_perm partitions).filterMap _

lemma length_mergeIndices : (mergeIndices partitions).length = partitions.countP isSealed := by
  rw [(mergeIndices_perm partitions).length_eq, length_places]

lemma mergeIndices_fits : Fits (mergeIndices partitions).reverse 0 partitions := by
  refine ⟨?_, fun i hi => ?_⟩
  · rw [List.length_reverse, length_mergeIndices]
    exact List.countP_le_length
  · have hmem := (mergeIndices_perm partitions).subset (List.mem_reverse.mp hi)
    exact List.mem_range.mp (List.mem_filter.mp hmem).1

end Selection

section Sums

/-- The rows of a list of partitions, as a 64-bit counter adds them up. -/
def rowTotal (partitions : List FlushedPartition) : UInt64 := (partitions.map (·.info.rowCount)).sum

/-- The first and the last timestamp of a list of partitions. -/
def TimeRange (partitions : List FlushedPartition) (first last : Int) : Prop :=
  IsLeast {t | ∃ p ∈ partitions, p.info.minTs.toInt = t} first ∧
    IsGreatest {t | ∃ p ∈ partitions, p.info.maxTs.toInt = t} last

lemma totals_append (selected : List FlushedPartition) (p : FlushedPartition) :
    totals (selected ++ [p]) = (totals selected).add p := by
  rw [totals, List.foldl_append]
  rfl

lemma totalRows_eq (selected : List FlushedPartition) :
    (totals selected).totalRows = rowTotal selected := by
  induction selected using List.reverseRecOn with
  | nil => rfl
  | append_singleton l p ih =>
    rw [totals_append, Totals.add, ih, rowTotal, rowTotal, List.map_append, List.sum_append]
    simp

/-- The two accumulators bound the timestamps and are reached, or are still what they started as. -/
lemma totals_bounds (selected : List FlushedPartition) :
    ((∀ p ∈ selected, (totals selected).globalMinTs.toInt ≤ p.info.minTs.toInt) ∧
      ((totals selected).globalMinTs = Int64.maxValue ∨
        ∃ p ∈ selected, p.info.minTs = (totals selected).globalMinTs)) ∧
    ((∀ p ∈ selected, p.info.maxTs.toInt ≤ (totals selected).globalMaxTs.toInt) ∧
      ((totals selected).globalMaxTs = Int64.minValue ∨
        ∃ p ∈ selected, p.info.maxTs = (totals selected).globalMaxTs)) := by
  induction selected using List.reverseRecOn with
  | nil => simp [totals]
  | append_singleton l p ih =>
    obtain ⟨⟨hmin, hminMem⟩, hmax, hmaxMem⟩ := ih
    rw [totals_append]
    simp only [Totals.add, List.mem_append, List.mem_singleton]
    refine ⟨?_, ?_⟩
    · split_ifs with hlt
      · refine ⟨?_, .inr ⟨p, .inr rfl, rfl⟩⟩
        rintro q (hq | rfl)
        · exact (Int64.lt_iff_toInt_lt.mp hlt).le.trans (hmin q hq)
        · exact le_rfl
      · refine ⟨?_, hminMem.imp_right fun ⟨q, hq, heq⟩ => ⟨q, .inl hq, heq⟩⟩
        rintro q (hq | rfl)
        · exact hmin q hq
        · exact not_lt.mp fun h => hlt (Int64.lt_iff_toInt_lt.mpr h)
    · split_ifs with hlt
      · refine ⟨?_, .inr ⟨p, .inr rfl, rfl⟩⟩
        rintro q (hq | rfl)
        · exact (hmax q hq).trans (Int64.lt_iff_toInt_lt.mp hlt).le
        · exact le_rfl
      · refine ⟨?_, hmaxMem.imp_right fun ⟨q, hq, heq⟩ => ⟨q, .inl hq, heq⟩⟩
        rintro q (hq | rfl)
        · exact hmax q hq
        · exact not_lt.mp fun h => hlt (Int64.lt_iff_toInt_lt.mpr h)

lemma totals_range {selected : List FlushedPartition} (hne : selected ≠ []) :
    TimeRange selected (totals selected).globalMinTs.toInt (totals selected).globalMaxTs.toInt := by
  obtain ⟨p, hp⟩ := List.exists_mem_of_ne_nil selected hne
  obtain ⟨⟨hmin, hminMem⟩, hmax, hmaxMem⟩ := totals_bounds selected
  refine ⟨⟨?_, ?_⟩, ?_, ?_⟩
  · rcases hminMem with heq | ⟨q, hq, heq⟩
    · refine ⟨p, hp, le_antisymm ?_ (hmin p hp)⟩
      rw [heq]
      exact Int64.toInt_le p.info.minTs
    · exact ⟨q, hq, congrArg Int64.toInt heq⟩
  · rintro t ⟨q, hq, rfl⟩
    exact hmin q hq
  · rcases hmaxMem with heq | ⟨q, hq, heq⟩
    · refine ⟨p, hp, le_antisymm (hmax p hp) ?_⟩
      rw [heq]
      exact Int64.le_toInt p.info.maxTs
    · exact ⟨q, hq, congrArg Int64.toInt heq⟩
  · rintro t ⟨q, hq, rfl⟩
    exact hmax q hq

/-- A set may be replaced by its least element where a least element is asked for. -/
lemma isLeast_union_iff {α : Type*} [PartialOrder α] {s u : Set α} {a : α} (ha : IsLeast s a)
    (x : α) : IsLeast (u ∪ s) x ↔ IsLeast (u ∪ {a}) x := by
  have hbounds : lowerBounds (u ∪ s) = lowerBounds (u ∪ {a}) := by
    rw [lowerBounds_union, lowerBounds_union, ha.lowerBounds_eq, lowerBounds_singleton]
  constructor
  · rintro ⟨hmem, hlow⟩
    refine ⟨hmem.imp_right fun hs => ?_, hbounds ▸ hlow⟩
    exact le_antisymm (hlow (.inr ha.1)) (ha.2 hs)
  · rintro ⟨hmem, hlow⟩
    refine ⟨hmem.imp_right fun h => ?_, hbounds ▸ hlow⟩
    exact (show x = a from h) ▸ ha.1

end Sums

section Conservation

/-- A compaction takes the sealed partitions out, keeps the others and adds one merged partition; the
rows and the time range stay. -/
structure Conserves (before after : List FlushedPartition) : Prop where
  replaced : ∃ new : FlushedPartition, new.info.state = .merged ∧
    after.Perm (before.filter (fun p => !isSealed p) ++ [new])
  rows : rowTotal after = rowTotal before
  range : ∀ first last, TimeRange after first last ↔ TimeRange before first last

/-- Of the sealed partitions behind one that is not sealed, each starts before those in front of it.
Where partitions stand in order of their first timestamps there is at most one. -/
def LateDescend (partitions : List FlushedPartition) : Prop :=
  ((partitions.dropWhile isSealed).filter isSealed).Pairwise
    (fun p q => q.info.minTs < p.info.minTs)

instance (partitions : List FlushedPartition) : Decidable (LateDescend partitions) :=
  inferInstanceAs (Decidable (List.Pairwise _ _))

lemma rowTotal_perm {a b : List FlushedPartition} (h : a.Perm b) : rowTotal a = rowTotal b :=
  (h.map _).sum_eq

lemma rowTotal_append (a b : List FlushedPartition) :
    rowTotal (a ++ b) = rowTotal a + rowTotal b := by
  rw [rowTotal, List.map_append, List.sum_append]
  rfl

lemma rowTotal_merged (collection : String) (t : Totals) :
    rowTotal [mergedPartition collection t] = t.totalRows := by
  simp [rowTotal, mergedPartition]

lemma timeRange_perm {a b : List FlushedPartition} (h : a.Perm b) (first last : Int) :
    TimeRange a first last ↔ TimeRange b first last := by
  simp only [TimeRange, h.mem_iff]

lemma timeRange_replace {kept old : List FlushedPartition} {new : FlushedPartition}
    (hnew : TimeRange old new.info.minTs.toInt new.info.maxTs.toInt) (first last : Int) :
    TimeRange (kept ++ [new]) first last ↔ TimeRange (kept ++ old) first last := by
  have hsplit : ∀ (g : FlushedPartition → Int) (a b : List FlushedPartition),
      {t | ∃ p ∈ a ++ b, g p = t} = {t | ∃ p ∈ a, g p = t} ∪ {t | ∃ p ∈ b, g p = t} := by
    intro g a b
    ext t
    simp only [List.mem_append, Set.mem_ofPred_eq, Set.mem_union, or_and_right, exists_or]
  have hsingle : ∀ g : FlushedPartition → Int, {t | ∃ p ∈ [new], g p = t} = {g new} := by
    intro g
    ext t
    simp [eq_comm]
  simp only [TimeRange, hsplit, hsingle]
  exact and_congr (isLeast_union_iff hnew.1 first).symm
    (isLeast_union_iff (α := Intᵒᵈ) hnew.2 last).symm

variable {collection : String} {partitions : List FlushedPartition}

/-- The partitions are removed in the order of the positions exactly if their timestamps go down. -/
lemma hitsOnly_mergeIndices_iff :
    HitsOnly isSealed (mergeIndices partitions).reverse 0 partitions ↔ LateDescend partitions := by
  have hstands := stands_of_perm
    ((mergeIndices partitions).reverse_perm.trans (mergeIndices_perm partitions))
  have hiff := hitsOnly_iff hstands
  rw [List.takeWhile_append_dropWhile] at hiff
  have hafter : ∀ i, partitions[(partitions.takeWhile isSealed).length + i]? =
      (partitions.dropWhile isSealed)[i]? := by
    intro i
    have h : (partitions.takeWhile isSealed ++ partitions.dropWhile isSealed)[
        (partitions.takeWhile isSealed).length + i]? = _ :=
      List.getElem?_append_right (Nat.le_add_right _ i)
    rwa [List.takeWhile_append_dropWhile, Nat.add_sub_cancel_left] at h
  have hlate : LateDescend partitions ↔ (places isSealed (partitions.dropWhile isSealed)).Pairwise
      (fun i j => ∀ p, (partitions.dropWhile isSealed)[i]? = some p →
        ∀ q, (partitions.dropWhile isSealed)[j]? = some q → q.info.minTs < p.info.minTs) := by
    rw [LateDescend, ← filterMap_places, List.pairwise_filterMap]
  rw [hiff, List.filter_reverse, List.pairwise_reverse, mergeIndices, mergeSort_descends_iff, hlate]
  · refine (iff_of_eq (congrArg _ (filter_places_late partitions))).trans
      (List.pairwise_map.trans (List.Pairwise.iff_of_mem fun {i j} hi hj => ?_))
    have hi := List.mem_range.mp (List.mem_filter.mp hi).1
    have hj := List.mem_range.mp (List.mem_filter.mp hj).1
    simp only [hafter, List.getElem?_eq_getElem hi, List.getElem?_eq_getElem hj, Option.elim_some,
      decide_eq_false_iff_not, Option.some.injEq, forall_eq']
    exact Int64.not_le
  · intro i j k hij hjk
    exact decide_eq_true (Int64.le_trans (of_decide_eq_true hij) (of_decide_eq_true hjk))
  · intro i j
    simpa using Int64.le_total _ _
  · exact List.pairwise_lt_range.filter _

lemma conserves_of_hitsOnly
    (h : HitsOnly isSealed (mergeIndices partitions).reverse 0 partitions)
    (hne : 2 ≤ (mergeIndices partitions).length) :
    Conserves partitions (replaceMerged collection partitions) := by
  have hselected := selected_perm partitions
  have hsplit := List.filter_append_perm isSealed partitions
  have hkept : removeLoop (mergeIndices partitions).reverse 0 partitions =
      partitions.filter (fun p => !isSealed p) :=
    removeLoop_of_hitsOnly h (by rw [List.length_reverse, length_mergeIndices])
  have hnonempty : (mergeIndices partitions).filterMap (partitions[·]?) ≠ [] := by
    intro hnil
    rw [length_mergeIndices, List.countP_eq_length_filter, ← hselected.length_eq, hnil] at hne
    exact absurd hne (by decide)
  rw [replaceMerged, hkept]
  refine ⟨⟨_, rfl, List.Perm.refl _⟩, ?_, fun first last => ?_⟩
  · rw [← rowTotal_perm hsplit, rowTotal_append, rowTotal_append, rowTotal_merged, totalRows_eq,
      rowTotal_perm hselected, UInt64.add_comm]
  · refine (timeRange_replace (totals_range hnonempty) first last).trans ?_
    exact timeRange_perm ((hselected.append_left _).trans (List.perm_append_comm.trans hsplit)) _ _

lemma hitsOnly_of_conserves
    (h : Conserves partitions (replaceMerged collection partitions)) :
    HitsOnly isSealed (mergeIndices partitions).reverse 0 partitions := by
  obtain ⟨new, hnew, hperm⟩ := h.replaced
  refine hitsOnly_of_countP (mergeIndices_fits partitions) ?_
  have hcount := hperm.countP_eq (fun p => !isSealed p)
  have hmerged : isSealed new = false := by simp [isSealed, hnew]
  have hlast : ∀ t, isSealed (mergedPartition collection t) = false := fun _ => rfl
  rw [replaceMerged] at hcount
  simp only [List.countP_append, List.countP_singleton, hlast, hmerged, Bool.not_false, if_true,
    List.countP_filter, Bool.and_self] at hcount
  exact Nat.add_right_cancel hcount

/-- A compaction that runs conserves the partitions exactly if the sealed ones behind one that is not
sealed go back in time; any other call changes nothing. -/
theorem compaction_conserves_iff (e : TimeseriesEngine) (collection : String)
    {partitions : List FlushedPartition} (hget : e.collections.get collection = some partitions) :
    if triggers e.compactionPartitionThreshold partitions then
      ∃ after, (compactPartitions e collection).2.collections.get collection = some after ∧
        (Conserves partitions after ↔ LateDescend partitions)
    else compactPartitions e collection = (none, e) := by
  split_ifs with htrigger
  · refine ⟨replaceMerged collection partitions, ?_, ?_⟩
    · simp [compactPartitions, hget, htrigger]
    · have hlen : 2 ≤ (mergeIndices partitions).length := by
        simp only [triggers, Bool.and_eq_true, decide_eq_true_eq] at htrigger
        exact htrigger.2
      rw [← hitsOnly_mergeIndices_iff]
      exact ⟨hitsOnly_of_conserves, fun h => conserves_of_hitsOnly h hlen⟩
  · simp [compactPartitions, hget, htrigger]

/-- A partition with the given state, rows and timestamps. -/
def partitionOf (state : PartitionState) (rows : UInt64) (minTs maxTs : Int64) :
    FlushedPartition :=
  ⟨⟨minTs, maxTs, rows, 16, 1, state, (maxTs - minTs).toUInt64, 0, 0⟩,
    "ts:m:" ++ minTs.toInt.repr⟩

/-- An engine with one collection, compacted above two partitions. -/
def engineOf (partitions : List FlushedPartition) : TimeseriesEngine :=
  ⟨2, SortedMap.empty.insert "m" partitions⟩

/-- A sealed partition before a merged one and one behind it. -/
def sealedAround : List FlushedPartition :=
  [partitionOf .sealed 1 10 19, partitionOf .merged 5 0 9, partitionOf .sealed 2 20 29]

/-- The merged partition of an earlier compaction before two sealed ones. -/
def mergedFirst : List FlushedPartition :=
  [partitionOf .merged 5 0 9, partitionOf .sealed 1 10 19, partitionOf .sealed 2 20 29]

theorem compaction_conserves_sealed_around :
    ∃ after, (compactPartitions (engineOf sealedAround) "m").2.collections.get "m" = some after ∧
      Conserves sealedAround after := by
  have htrigger : triggers (engineOf sealedAround).compactionPartitionThreshold sealedAround =
      true := by
    rw [triggers, length_mergeIndices]
    decide
  have h := @compaction_conserves_iff (engineOf sealedAround) "m" sealedAround (by rfl)
  rw [if_pos htrigger] at h
  obtain ⟨after, hafter, hiff⟩ := h
  exact ⟨after, hafter, hiff.mpr (by decide)⟩

/-- The second compaction drops the merged partition of the first and keeps a partition it merged: of
eight rows four are left, one of them twice. -/
theorem merged_partition_dropped :
    ∃ after, (compactPartitions (engineOf mergedFirst) "m").2.collections.get "m" = some after ∧
      rowTotal after = 4 ∧ rowTotal mergedFirst = 8 ∧ ¬Conserves mergedFirst after := by
  have hindices : mergeIndices mergedFirst = [1, 2] :=
    List.mergeSort_of_pairwise (by decide)
  have hafter : rowTotal (replaceMerged "m" mergedFirst) = 4 := by
    rw [replaceMerged, hindices]
    decide +kernel
  have htrigger : triggers (engineOf mergedFirst).compactionPartitionThreshold mergedFirst = true := by
    rw [triggers, length_mergeIndices]
    decide
  have hget : (engineOf mergedFirst).collections.get "m" = some mergedFirst := rfl
  refine ⟨replaceMerged "m" mergedFirst, ?_, hafter, by decide +kernel, fun h => ?_⟩
  · simp [compactPartitions, hget, htrigger]
  · exact absurd (hafter.symm.trans h.rows) (by decide +kernel)

end Conservation

end NodedbLite.Timeseries
