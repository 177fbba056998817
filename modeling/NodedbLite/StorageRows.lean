import NodedbLite.Results
import NodedbLite.BudgetScan
import NodedbLite.PrefixScan

/-! The rows of the storage engine. All namespaces share one ordered tree, in which every key is
preceded by the byte of its namespace; the tree itself is an ordered map. -/
namespace NodedbLite.Storage

open PrefixScan

/-- A namespace byte below 0xFF, so that the next byte marks its end. -/
structure Namespace where
  byte : UInt8
  byte_lt : byte < 255
  deriving DecidableEq

def prefixKey (ns : Namespace) (key : Bytes) : Bytes := ns.byte :: key

def stripPrefix (composite : Bytes) : Bytes := if 1 < composite.length then composite.drop 1 else []

abbrev KvPair := Bytes × Bytes

abbrev Tree := SortedMap Bytes Bytes

/-- `usize::MAX`. -/
def usizeMax : Nat := 2 ^ 64 - 1

def saturatingAdd (a b : Nat) : Nat := min (a + b) usizeMax

def checkedAdd (a b : Nat) : Option Nat := if a + b ≤ usizeMax then some (a + b) else none

/-- Prefix records and the budget that excludes the next record. -/
structure PrefixScan where
  entries : List KvPair
  limit : Option BudgetScan.Limit
  deriving DecidableEq

def checkPrefixCursor (pfx : Bytes) (afterKey : Option Bytes) : Except ScanError Unit :=
  if afterKey.any (fun key => !pfx.isPrefixOf key) then .error (.badRequest pfx afterKey)
  else .ok ()

inductive WriteOp
  | put (ns : Namespace) (key value : Bytes)
  | delete (ns : Namespace) (key : Bytes)
  deriving DecidableEq

/-- The write of a composite key that an operation of a batch makes. -/
def WriteOp.composite : WriteOp → SortedMap.Write Bytes Bytes
  | .put ns key value => .put (prefixKey ns key) value
  | .delete ns key => .delete (prefixKey ns key)

section Rows

def strip (row : KvPair) : KvPair := (stripPrefix row.1, row.2)

def getRows (t : Tree) (ns : Namespace) (key : Bytes) : Option Bytes := t.get (prefixKey ns key)

def putRows (t : Tree) (ns : Namespace) (key value : Bytes) : Tree :=
  t.insert (prefixKey ns key) value

def deleteRows (t : Tree) (ns : Namespace) (key : Bytes) : Tree := t.erase (prefixKey ns key)

def isPut : SortedMap.Write Bytes Bytes → Bool
  | .put .. => true
  | .delete _ => false

/-- Batches with a key twice are applied in order, others as sorted puts and then sorted deletes. -/
def batchWriteRows (t : Tree) (ops : List WriteOp) : Tree :=
  let writes := ops.map WriteOp.composite
  if (writes.map SortedMap.Write.key).Nodup then
    let puts := (writes.filter isPut).mergeSort (fun a b => a.key ≤ b.key)
    let deletes := (writes.filter (fun w => !isPut w)).mergeSort (fun a b => a.key ≤ b.key)
    (t.writeAll puts).writeAll deletes
  else t.writeAll writes

def scanPrefixRows (t : Tree) (ns : Namespace) (pfx : Bytes) : List KvPair :=
  (entriesUnder t (prefixKey ns pfx)).map strip

/-- Where a continuation starts: at the first key after the cursor. -/
def continueFrom (ns : Namespace) (pfx : Bytes) (afterKey : Option Bytes) : Bytes :=
  match afterKey with
  | some key => prefixKey ns key ++ [0]
  | none => prefixKey ns pfx

/-- The rows a prefix scan with a cursor ranges over. -/
def rowsAfter (t : Tree) (ns : Namespace) (pfx : Bytes) (afterKey : Option Bytes) : List KvPair :=
  (entriesUnder t (prefixKey ns pfx)).filter (fun e => continueFrom ns pfx afterKey ≤ e.1)

def rowBytes (row : KvPair) : Nat := row.1.length + row.2.length

/-- The bytes used after a row, if they can be counted and stay within the budget. -/
def nextBytes (maxBytes used : Nat) (row : KvPair) : Option Nat :=
  ((checkedAdd row.1.length row.2.length).bind (checkedAdd used)).filter (fun n => n ≤ maxBytes)

/-- The rows kept from a raw scan, and whether one was excluded. -/
def keepRows (maxBytes : Nat) (limit : Option BudgetScan.Limit) :
    List KvPair → Nat → List KvPair × Option BudgetScan.Limit
  | [], _ => ([], limit)
  | row :: rows, used =>
    match nextBytes maxBytes used row with
    | none => ([], some .bytes)
    | some next =>
      let (kept, limit) := keepRows maxBytes limit rows next
      (row :: kept, limit)

/-- The end of a budgeted scan: a continuation that would return nothing because of the byte budget
is refused. -/
def finishScan (pfx : Bytes) (afterKey : Option Bytes) (maxBytes : Nat) (rejectOversized : Bool)
    (kept : List KvPair × Option BudgetScan.Limit) : Except ScanError PrefixScan :=
  if rejectOversized && kept.1.isEmpty && kept.2 = some .bytes then
    .error (.backpressure pfx afterKey maxBytes none)
  else .ok ⟨kept.1, kept.2⟩

def scanBudgeted (t : Tree) (ns : Namespace) (pfx : Bytes) (afterKey : Option Bytes)
    (maxRecords maxBytes : Nat) (rejectOversized : Bool) : Except ScanError PrefixScan :=
  if maxRecords = 0 then .ok ⟨[], none⟩
  else do
    checkPrefixCursor pfx afterKey
    let raw := BudgetScan.read rowBytes (rowsAfter t ns pfx afterKey) maxRecords
      (saturatingAdd maxBytes maxRecords)
    finishScan pfx afterKey maxBytes rejectOversized (keepRows maxBytes raw.2 (raw.1.map strip) 0)

end Rows

section Spec

variable (t : Tree) (ns : Namespace)

/-- A batch leaves what its operations leave one after the other. -/
theorem batchWriteRows_eq (ops : List WriteOp) :
    batchWriteRows t ops = t.writeAll (ops.map WriteOp.composite) := by
  rw [batchWriteRows]
  dsimp only
  split_ifs with hnodup
  · rw [← SortedMap.writeAll_append]
    refine (t.writeAll_of_perm ?_ hnodup).symm
    refine (List.filter_append_perm isPut _).symm.trans ?_
    exact (List.mergeSort_perm _ _).symm.append (List.mergeSort_perm _ _).symm
  · rfl

/-- The number of different composite keys of a batch, which the engine compares with its length. -/
def uniqueCount (ops : List WriteOp) : Nat := (ops.map (·.composite.key)).dedup.length

/-- One operation, made by the engine's call for a single row. -/
def writeRow (t : Tree) : WriteOp → Tree
  | .put ns key value => putRows t ns key value
  | .delete ns key => deleteRows t ns key

lemma writeRow_eq (op : WriteOp) : writeRow t op = t.write op.composite := by
  cases op <;> rfl

/-- The count of different keys falls short exactly for the batches that have a key twice. -/
lemma uniqueCount_lt_iff (ops : List WriteOp) :
    uniqueCount ops < ops.length ↔
      ¬((ops.map WriteOp.composite).map SortedMap.Write.key).Nodup := by
  have hle := (List.dedup_sublist (ops.map (·.composite.key))).length_le
  rw [List.length_map] at hle
  rw [List.map_map, ← List.dedup_eq_self, uniqueCount]
  constructor
  · intro hlt heq
    rw [show ops.map (·.composite.key) = ops.map (SortedMap.Write.key ∘ WriteOp.composite) from rfl,
      heq, List.length_map] at hlt
    exact lt_irrefl _ hlt
  · intro hne
    refine lt_of_le_of_ne hle fun hlen => hne ?_
    exact (List.dedup_sublist _).eq_of_length (hlen.trans (List.length_map _).symm)

/-- A batch leaves the tree that its operations leave one by one, and it takes the sorted path only
if no key is repeated. -/
theorem batch_write_in_order (ops : List WriteOp) :
    batchWriteRows t ops = ops.foldl writeRow t ∧
      (¬uniqueCount ops < ops.length ↔
        ((ops.map WriteOp.composite).map SortedMap.Write.key).Nodup) := by
  refine ⟨?_, by rw [uniqueCount_lt_iff, not_not]⟩
  have hstep : writeRow = fun t op => t.write op.composite := by
    funext t op
    exact writeRow_eq t op
  rw [batchWriteRows_eq, SortedMap.writeAll, List.foldl_map, hstep]

lemma stripPrefix_prefixKey {ns : Namespace} (key : Bytes) :
    stripPrefix (prefixKey ns key) = key := by
  cases key <;> simp [stripPrefix, prefixKey]

/-- The rows whose composite key meets a condition, in key order. -/
def rowsWhere (t : Tree) (p : Bytes → Bool) : List KvPair := t.entries.filter (fun e => p e.1)

/-- The composite keys of a namespace that extend a prefix. -/
def underKey (ns : Namespace) (pfx : Bytes) : Bytes → Bool := (prefixKey ns pfx).isPrefixOf

def afterCursor (ns : Namespace) (pfx : Bytes) (afterKey : Option Bytes) (k : Bytes) : Bool :=
  underKey ns pfx k && decide (continueFrom ns pfx afterKey ≤ k)

/-- The condition keeps to the keys of one namespace. -/
def Within (ns : Namespace) (p : Bytes → Bool) : Prop := ∀ k, p k = true → ∃ key, k = prefixKey ns key

lemma within_underKey (pfx : Bytes) : Within ns (underKey ns pfx) := by
  intro k hk
  obtain ⟨rest, rfl⟩ := List.isPrefixOf_iff_prefix.mp hk
  exact ⟨pfx ++ rest, rfl⟩

lemma within_afterCursor (pfx : Bytes) (afterKey : Option Bytes) :
    Within ns (afterCursor ns pfx afterKey) := fun k hk =>
  within_underKey ns pfx k (Bool.and_eq_true_iff.mp hk).1

lemma scanPrefixRows_eq (pfx : Bytes) :
    scanPrefixRows t ns pfx = (rowsWhere t (underKey ns pfx)).map strip := rfl

lemma rowsAfter_eq (pfx : Bytes) (afterKey : Option Bytes) :
    rowsAfter t ns pfx afterKey = rowsWhere t (afterCursor ns pfx afterKey) := by
  rw [rowsAfter, entriesUnder, List.filter_filter, rowsWhere]
  apply List.filter_congr
  intro e _
  rw [afterCursor, underKey, Bool.and_comm]

end Spec

section Budgets

variable {maxBytes : Nat}

lemma nextBytes_eq (hmax : maxBytes ≤ usizeMax) (used : Nat) (row : KvPair) :
    nextBytes maxBytes used row =
      if used + rowBytes row ≤ maxBytes then some (used + rowBytes row) else none := by
  rw [nextBytes, checkedAdd, rowBytes]
  by_cases hfits : used + (row.1.length + row.2.length) ≤ maxBytes
  · rw [if_pos hfits, if_pos (by omega), Option.bind_some, checkedAdd, if_pos (by omega),
      Option.filter_some, if_pos (decide_eq_true hfits)]
  · rw [if_neg hfits, Option.filter_eq_none_iff]
    intro n hn
    obtain ⟨m, hm, hnm⟩ := Option.bind_eq_some_iff.mp hn
    obtain ⟨-, heq⟩ := Option.ite_none_right_eq_some.mp hm
    obtain ⟨-, heq'⟩ := Option.ite_none_right_eq_some.mp hnm
    simp only [Option.some.injEq] at heq heq'
    simp only [decide_eq_true_eq]
    omega

lemma keepRows_eq (hmax : maxBytes ≤ usizeMax) (limit : Option BudgetScan.Limit)
    (rows : List KvPair) (used : Nat) :
    keepRows maxBytes limit rows used = BudgetScan.fit rowBytes maxBytes limit rows used := by
  induction rows generalizing used with
  | nil => rfl
  | cons row rows ih =>
    rw [keepRows, nextBytes_eq hmax, BudgetScan.fit]
    by_cases hfits : used + rowBytes row ≤ maxBytes
    · rw [if_pos hfits, if_pos hfits]
      dsimp only
      rw [ih]
    · rw [if_neg hfits, if_neg hfits]

lemma saturatingAdd_enough {a b total : Nat} (htotal : total ≤ usizeMax) :
    a + b ≤ saturatingAdd a b ∨ total ≤ saturatingAdd a b := by
  rw [saturatingAdd]
  omega

lemma rowBytes_strip {ns : Namespace} {key value : Bytes} :
    rowBytes (prefixKey ns key, value) = rowBytes (strip (prefixKey ns key, value)) + 1 := by
  cases key <;> simp [rowBytes, strip, stripPrefix, prefixKey] <;> omega

/-- The namespace bytes do not count, and two cuts make one. -/
theorem scanBudgeted_eq (t : Tree) (ns : Namespace) (pfx : Bytes) (afterKey : Option Bytes)
    (maxRecords : Nat) (hmax : maxBytes ≤ usizeMax) (rejectOversized : Bool)
    (hfits : ((rowsWhere t (afterCursor ns pfx afterKey)).map rowBytes).sum ≤ usizeMax) :
    scanBudgeted t ns pfx afterKey maxRecords maxBytes rejectOversized =
      if maxRecords = 0 then .ok ⟨[], none⟩
      else checkPrefixCursor pfx afterKey >>= fun _ =>
        finishScan pfx afterKey maxBytes rejectOversized (BudgetScan.read rowBytes
          ((rowsWhere t (afterCursor ns pfx afterKey)).map strip) maxRecords maxBytes) := by
  have hslack : ∀ row ∈ rowsWhere t (afterCursor ns pfx afterKey),
      rowBytes (strip row) ≤ rowBytes row ∧ rowBytes row ≤ rowBytes (strip row) + 1 := by
    rintro ⟨k, value⟩ hrow
    obtain ⟨key, rfl⟩ := within_afterCursor ns pfx afterKey k (List.mem_filter.mp hrow).2
    rw [rowBytes_strip]
    exact ⟨Nat.le_succ _, le_rfl⟩
  have henough : maxBytes - 0 + 1 * maxRecords ≤ saturatingAdd maxBytes maxRecords ∨
      ((rowsWhere t (afterCursor ns pfx afterKey)).map rowBytes).sum ≤
        saturatingAdd maxBytes maxRecords := by
    rw [Nat.sub_zero, Nat.one_mul]
    exact saturatingAdd_enough hfits
  rw [scanBudgeted, rowsAfter_eq]
  dsimp only
  rw [keepRows_eq hmax, BudgetScan.fit_map, BudgetScan.fit_read hslack (Nat.zero_le _) henough,
    Nat.sub_zero, ← BudgetScan.read_map]

end Budgets

end NodedbLite.Storage
