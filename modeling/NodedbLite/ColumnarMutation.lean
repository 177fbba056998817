import NodedbLite.ColumnarStore

/-! A mutation engine with one memtable, one bitmap per segment and an index by key: the
least that does what `MutationEngine` asks for. -/
namespace NodedbLite.Columnar

/-- Its state. -/
structure IndexedRows (Row Pk : Type) [LinearOrder Pk] where
  memtable : List Row
  memtableBitmap : Finset Nat
  bitmaps : SortedMap Nat (Finset Nat)
  index : SortedMap Pk RowLocation

namespace IndexedRows

variable {Row Pk : Type} [LinearOrder Pk]

def bitmap (s : IndexedRows Row Pk) (segmentId : Nat) : Finset Nat :=
  (s.bitmaps.get segmentId).getD ∅

def marked (s : IndexedRows Row Pk) : RowLocation → Bool
  | .memtable rowIndex => decide (rowIndex ∈ s.memtableBitmap)
  | .segment segmentId rowIndex => decide (rowIndex ∈ s.bitmap segmentId)

lemma marked_memtable_iff {s : IndexedRows Row Pk} {i : Nat} :
    s.marked (.memtable i) = true ↔ i ∈ s.memtableBitmap := decide_eq_true_iff

lemma marked_segment_iff {s : IndexedRows Row Pk} {id i : Nat} :
    s.marked (.segment id i) = true ↔ i ∈ s.bitmap id := decide_eq_true_iff

/-- Record a row as deleted. -/
def mark (s : IndexedRows Row Pk) : RowLocation → IndexedRows Row Pk
  | .memtable rowIndex => { s with memtableBitmap := insert rowIndex s.memtableBitmap }
  | .segment segmentId rowIndex =>
    { s with bitmaps := s.bitmaps.insert segmentId (insert rowIndex (s.bitmap segmentId)) }

@[simp] lemma mark_memtable (s : IndexedRows Row Pk) (loc : RowLocation) :
    (s.mark loc).memtable = s.memtable := by cases loc <;> rfl

lemma mem_bitmap_mark {s : IndexedRows Row Pk} {id i jd j : Nat} :
    j ∈ (s.mark (.segment id i)).bitmap jd ↔ j ∈ s.bitmap jd ∨ (jd = id ∧ j = i) := by
  simp only [mark, bitmap, SortedMap.get_insert]
  by_cases hid : jd = id
  · subst hid
    simp [or_comm]
  · simp [hid]

lemma marked_mark (s : IndexedRows Row Pk) (loc l : RowLocation) :
    (s.mark loc).marked l = (s.marked l || decide (l = loc)) := by
  rw [Bool.eq_iff_iff, Bool.or_eq_true, decide_eq_true_iff]
  cases loc with
  | memtable i =>
    cases l with
    | memtable j =>
      rw [marked_memtable_iff, marked_memtable_iff]
      simp [mark, or_comm]
    | segment jd j =>
      rw [marked_segment_iff, marked_segment_iff]
      simp [mark, bitmap]
  | segment id i =>
    cases l with
    | memtable j =>
      rw [marked_memtable_iff, marked_memtable_iff]
      simp [mark]
    | segment jd j =>
      rw [marked_segment_iff, marked_segment_iff, mem_bitmap_mark]
      simp

def delete (s : IndexedRows Row Pk) (pk : Pk) : Except ColumnarError (IndexedRows Row Pk) :=
  match s.index.get pk with
  | none => .error (.primaryKeyNotFound "primary key not found")
  | some loc => .ok { s.mark loc with index := s.index.erase pk }

def insert (pkOf : Row → Pk) (s : IndexedRows Row Pk) (row : Row) : IndexedRows Row Pk :=
  let prior := match s.index.get (pkOf row) with
    | none => s
    | some loc => s.mark loc
  { prior with
    memtable := s.memtable ++ [row]
    index := s.index.insert (pkOf row) (.memtable s.memtable.length) }

def flushed (s : IndexedRows Row Pk) (segmentId : Nat) : IndexedRows Row Pk :=
  { s with
    memtableBitmap := ∅
    bitmaps := s.bitmaps.insert segmentId (s.bitmap segmentId ∪ s.memtableBitmap)
    index := s.index.mapValues (fun _ => RowLocation.relocate segmentId) }

lemma marked_insert (pkOf : Row → Pk) (s : IndexedRows Row Pk) (row : Row) (l : RowLocation) :
    (s.insert pkOf row).marked l
      = (s.marked l || decide (s.index.get (pkOf row) = some l)) := by
  unfold insert
  cases hprior : s.index.get (pkOf row) with
  | none => cases l <;> simp <;> rfl
  | some loc =>
    have hmark := marked_mark s loc l
    have hsame : (some loc = some l) = (l = loc) := by simp [eq_comm]
    simp only [hsame]
    cases l <;> exact hmark

lemma marked_flushed (s : IndexedRows Row Pk) (segmentId id i : Nat) :
    (s.flushed segmentId).marked (.segment id i)
      = (s.marked (.segment id i) || (decide (id = segmentId) && s.marked (.memtable i))) := by
  rw [Bool.eq_iff_iff, Bool.or_eq_true, Bool.and_eq_true, decide_eq_true_iff, marked_segment_iff,
    marked_segment_iff, marked_memtable_iff]
  simp only [flushed, bitmap, SortedMap.get_insert]
  by_cases hid : id = segmentId
  · subst hid
    simp
  · simp [hid]

end IndexedRows

open IndexedRows in
/-- The mutation engine of these states, for rows with their key at `pkOf`. -/
def indexedMutation {Row Pk : Type} [LinearOrder Pk] (pkOf : Row → Pk) :
    MutationEngine Unit Row Pk where
  State := IndexedRows Row Pk
  new _ := ⟨[], ∅, .empty, .empty⟩
  pkOf _ := pkOf
  memtable := memtable
  memtableBitmap := memtableBitmap
  deleteBitmaps := bitmaps
  location s pk := s.index.get pk
  insert s row := .ok (s.insert pkOf row)
  delete := delete
  update s pk row := (s.delete pk).map (fun mid => mid.insert pkOf row)
  drainOptimized s := { s with memtable := [] }
  onMemtableFlushed := flushed
  pkIndexUpsert s pk loc := { s with index := s.index.insert pk loc }
  columnPk row := some (pkOf row)
  new_memtable _ := rfl
  new_marked _ loc := by cases loc <;> simp [MutationOps.marked]
  new_location _ _ := rfl
  insert_ok := by
    intro s row s' h
    obtain rfl := Except.ok.inj h
    refine ⟨rfl, rfl, ?_, ?_⟩
    · intro loc
      have hmark := marked_insert pkOf s row loc
      cases loc <;> exact hmark
    · intro pk
      exact SortedMap.get_insert ..
  delete_ok := by
    intro s pk s' h
    unfold IndexedRows.delete at h
    split at h
    next => cases h
    next loc hloc =>
      obtain rfl := Except.ok.inj h
      refine ⟨rfl, mark_memtable s loc, loc, hloc, ?_, ?_⟩
      · intro l
        have hmark := marked_mark s loc l
        cases l <;> exact hmark
      · intro k
        exact SortedMap.get_erase ..
  update_ok := by
    intro s pk row s' h
    cases hdelete : s.delete pk with
    | error e =>
      rw [hdelete] at h
      cases h
    | ok mid =>
      rw [hdelete] at h
      exact ⟨mid, rfl, h⟩
  drain s := by
    refine ⟨rfl, rfl, ?_, rfl⟩
    funext loc
    cases loc <;> rfl
  flushed s segmentId := by
    refine ⟨rfl, rfl, ?_, ?_, ?_⟩
    · intro i
      simp [MutationOps.marked, IndexedRows.flushed]
    · intro id i
      exact marked_flushed s segmentId id i
    · intro pk
      exact SortedMap.get_mapValues ..
  upsert s pk loc := by
    refine ⟨rfl, ?_⟩
    funext l
    cases l <;> rfl

end NodedbLite.Columnar
