import NodedbLite.StorageRows

/-! One namespace of the storage at a time: what a batch leaves of it, what a prefix scan lists and
where a budgeted scan goes on. -/
namespace NodedbLite.Storage

variable {t : Tree} {ns ns' : Namespace} {pfx key key' value : Bytes}

lemma prefixKey_inj : prefixKey ns key = prefixKey ns' key' ↔ ns = ns' ∧ key = key' := by
  cases ns
  cases ns'
  simp [prefixKey]

lemma prefixKey_lt_iff : prefixKey ns key < prefixKey ns key' ↔ key < key' := by
  simp [prefixKey]

lemma strip_prefixKey : strip (prefixKey ns key, value) = (key, value) := by
  rw [strip, stripPrefix_prefixKey]

lemma getRows_batchWriteRows (t : Tree) (ops : List WriteOp) (ns : Namespace) (key : Bytes) :
    getRows (batchWriteRows t ops) ns key
      = (SortedMap.lastWrite (ops.map WriteOp.composite) (prefixKey ns key)).getD
        (getRows t ns key) := by
  rw [batchWriteRows_eq, getRows, SortedMap.get_writeAll]
  rfl

lemma exists_of_mem_rowsWhere {p : Bytes → Bool} (hp : Within ns p) {row : KvPair}
    (h : row ∈ rowsWhere t p) : row = (prefixKey ns (strip row).1, (strip row).2) := by
  obtain ⟨k, v⟩ := row
  obtain ⟨key, rfl⟩ := hp k (List.mem_filter.mp h).2
  rw [strip_prefixKey]

lemma mem_map_strip {p : Bytes → Bool} (hp : Within ns p) :
    (key, value) ∈ (rowsWhere t p).map strip ↔
      getRows t ns key = some value ∧ p (prefixKey ns key) = true := by
  rw [List.mem_map]
  constructor
  · rintro ⟨row, hrow, heq⟩
    have hform := exists_of_mem_rowsWhere hp hrow
    rw [heq] at hform
    rw [hform] at hrow
    obtain ⟨hmem, hcond⟩ := List.mem_filter.mp hrow
    exact ⟨SortedMap.get_eq_some_iff.mpr hmem, hcond⟩
  · rintro ⟨hget, hcond⟩
    exact ⟨(prefixKey ns key, value),
      List.mem_filter.mpr ⟨SortedMap.get_eq_some_iff.mp hget, hcond⟩, strip_prefixKey⟩

lemma map_strip_sorted {p : Bytes → Bool} (hp : Within ns p) :
    ((rowsWhere t p).map strip).Pairwise (fun a b => a.1 < b.1) := by
  rw [List.pairwise_map]
  apply (t.sorted.filter _).imp_of_mem
  intro a b ha hb hlt
  rw [exists_of_mem_rowsWhere hp ha, exists_of_mem_rowsWhere hp hb] at hlt
  exact prefixKey_lt_iff.mp hlt

lemma mem_scanPrefixRows :
    (key, value) ∈ scanPrefixRows t ns pfx ↔ getRows t ns key = some value ∧ pfx <+: key := by
  rw [scanPrefixRows_eq, mem_map_strip (within_underKey ns pfx), underKey,
    List.isPrefixOf_iff_prefix, prefixKey, prefixKey, List.cons_prefix_cons]
  simp

lemma scanPrefixRows_sorted (t : Tree) (ns : Namespace) (pfx : Bytes) :
    (scanPrefixRows t ns pfx).Pairwise (fun a b => a.1 < b.1) := by
  rw [scanPrefixRows_eq]
  exact map_strip_sorted (within_underKey ns pfx)

lemma eq_of_sorted {K V : Type*} [LinearOrder K] {l m : List (K × V)}
    (hl : l.Pairwise (fun a b => a.1 < b.1)) (hm : m.Pairwise (fun a b => a.1 < b.1))
    (h : ∀ e, e ∈ l ↔ e ∈ m) : l = m := by
  have hperm : l.Perm m := (List.perm_ext_iff_of_nodup (SortedMap.nodup_of_sorted hl)
    (SortedMap.nodup_of_sorted hm)).mpr h
  exact hperm.eq_of_pairwise (fun a b _ _ hab hba => absurd hab (lt_asymm hba)) hl hm

lemma append_zero_le_iff {a b : Bytes} : a ++ [0] ≤ b ↔ a < b := by
  induction a generalizing b with
  | nil =>
    cases b with
    | nil => simp
    | cons y b =>
      have hzero : ¬ y < 0 := not_lt.mpr (UInt8.le_iff_toNat_le.mpr (Nat.zero_le _))
      rw [List.nil_append, ← not_lt, List.cons_lt_cons_iff]
      simp [hzero]
  | cons x a ih =>
    cases b with
    | nil => simp
    | cons y b =>
      rw [List.cons_append, ← not_lt, List.cons_lt_cons_iff, List.cons_lt_cons_iff]
      rcases lt_trichotomy x y with hlt | rfl | hgt
      · simp [hlt, hlt.not_gt, hlt.ne']
      · simp [← ih]
      · simp [hgt, hgt.not_gt, hgt.ne']

lemma scanPrefixRows_self (h : getRows t ns key = some value) :
    ∃ rest, scanPrefixRows t ns key = (key, value) :: rest := by
  have hmem : (key, value) ∈ scanPrefixRows t ns key :=
    mem_scanPrefixRows.mpr ⟨h, List.prefix_refl key⟩
  have hsorted := scanPrefixRows_sorted t ns key
  cases hrows : scanPrefixRows t ns key with
  | nil =>
    rw [hrows] at hmem
    cases hmem
  | cons row rest =>
    have hrow : row ∈ scanPrefixRows t ns key := hrows ▸ List.mem_cons_self
    rw [hrows] at hmem hsorted
    rcases List.mem_cons.mp hmem with rfl | hlater
    · exact ⟨rest, rfl⟩
    · have hle := PrefixScan.le_of_isPrefix (mem_scanPrefixRows.mp hrow).2
      exact absurd ((List.pairwise_cons.mp hsorted).1 _ hlater) (not_lt.mpr hle)

/-- A cursor leaves the rows behind it. -/
def rowsPast (cursor : Option Bytes) (rows : List KvPair) : List KvPair :=
  rows.filter (fun row => cursor.all (fun key => key < row.1))

lemma rowsPast_append {seen rest : List KvPair}
    (h : (seen ++ rest).Pairwise (fun a b => a.1 < b.1)) :
    rowsPast (seen.getLast?.map Prod.fst) (seen ++ rest) = rest := by
  obtain ⟨hseen, -, hbetween⟩ := List.pairwise_append.mp h
  unfold rowsPast
  rw [List.filter_append]
  cases seen using List.reverseRecOn with
  | nil => simp
  | append_singleton seen row =>
    have hlast : (seen ++ [row]).getLast? = some row := by simp
    rw [hlast, Option.map_some]
    have hnone : (seen ++ [row]).filter
        (fun r => (some row.1).all (fun key => decide (key < r.1))) = [] := by
      rw [List.filter_eq_nil_iff]
      intro r hr
      have hle : r.1 ≤ row.1 := by
        rcases List.mem_append.mp hr with hr | hr
        · exact ((List.pairwise_append.mp hseen).2.2 r hr row List.mem_cons_self).le
        · rw [List.mem_singleton.mp hr]
      simpa using hle
    have hall : rest.filter (fun r => (some row.1).all (fun key => decide (key < r.1))) = rest := by
      rw [List.filter_eq_self]
      intro r hr
      simpa using hbetween row (List.mem_append_right _ List.mem_cons_self) r hr
    rw [hnone, hall, List.nil_append]

lemma scanPrefixRows_congr {t' : Tree} (h : ∀ key, getRows t' ns key = getRows t ns key)
    (pfx : Bytes) : scanPrefixRows t' ns pfx = scanPrefixRows t ns pfx := by
  apply eq_of_sorted (scanPrefixRows_sorted ..) (scanPrefixRows_sorted ..)
  rintro ⟨key, value⟩
  rw [mem_scanPrefixRows, mem_scanPrefixRows, h]

lemma map_strip_afterCursor (t : Tree) (ns : Namespace) (pfx : Bytes) (cursor : Option Bytes) :
    (rowsWhere t (afterCursor ns pfx cursor)).map strip
      = rowsPast cursor (scanPrefixRows t ns pfx) := by
  apply eq_of_sorted (map_strip_sorted (within_afterCursor ns pfx cursor))
    ((scanPrefixRows_sorted t ns pfx).filter _)
  rintro ⟨key, value⟩
  rw [mem_map_strip (within_afterCursor ns pfx cursor), List.mem_filter, mem_scanPrefixRows,
    afterCursor, Bool.and_eq_true, underKey, List.isPrefixOf_iff_prefix, prefixKey, prefixKey,
    List.cons_prefix_cons, decide_eq_true_eq]
  cases cursor with
  | none =>
    simp only [continueFrom, Option.all_none, true_and, and_true]
    constructor
    · rintro ⟨hget, hpfx, _⟩
      exact ⟨hget, hpfx⟩
    · rintro ⟨hget, hpfx⟩
      refine ⟨hget, hpfx, ?_⟩
      exact PrefixScan.le_of_isPrefix (List.cons_prefix_cons.mpr ⟨rfl, hpfx⟩)
  | some after =>
    have hle : prefixKey ns after ++ [0] ≤ ns.byte :: key ↔ after < key := by
      rw [append_zero_le_iff]
      exact prefixKey_lt_iff
    simp only [continueFrom, Option.all_some, decide_eq_true_eq, hle, true_and, and_assoc]

section Pages

/-- The bytes of a row with that of its namespace. -/
def storedBytes (row : KvPair) : Nat := rowBytes row + 1

variable {cursor : Option Bytes} {maxRecords maxBytes : Nat} {row : KvPair} {rest : List KvPair}

/-- The rows behind the cursor, read with a byte more for each and then cut to the budget. -/
lemma scanBudgeted_eq_fit (hbytes : maxBytes ≤ usizeMax)
    (hcursor : cursor.all (fun key => pfx.isPrefixOf key) = true) :
    scanBudgeted t ns pfx cursor (maxRecords + 1) maxBytes true =
      finishScan pfx cursor maxBytes true
        (let raw := BudgetScan.read storedBytes
          (rowsPast cursor (scanPrefixRows t ns pfx)) (maxRecords + 1)
          (saturatingAdd maxBytes (maxRecords + 1))
        BudgetScan.fit rowBytes maxBytes raw.2 raw.1 0) := by
  have hsize : ∀ row ∈ rowsWhere t (afterCursor ns pfx cursor),
      rowBytes row = storedBytes (strip row) := by
    intro row hrow
    rw [exists_of_mem_rowsWhere (within_afterCursor ns pfx cursor) hrow]
    exact rowBytes_strip
  have hcheck : checkPrefixCursor pfx cursor = .ok () := by
    unfold checkPrefixCursor
    cases cursor with
    | none => rfl
    | some key => simp_all
  unfold scanBudgeted
  rw [if_neg (Nat.succ_ne_zero _), hcheck, rowsAfter_eq]
  change finishScan _ _ _ _ (keepRows maxBytes _ _ 0) = _
  rw [keepRows_eq hbytes, BudgetScan.read_congr hsize, ← map_strip_afterCursor,
    BudgetScan.read_map]

lemma scanBudgeted_nil (hbytes : maxBytes ≤ usizeMax)
    (hcursor : cursor.all (fun key => pfx.isPrefixOf key) = true)
    (hrest : rowsPast cursor (scanPrefixRows t ns pfx) = []) :
    scanBudgeted t ns pfx cursor (maxRecords + 1) maxBytes true = .ok ⟨[], none⟩ := by
  rw [scanBudgeted_eq_fit hbytes hcursor, hrest]
  rfl

lemma scanBudgeted_reject (hbytes : maxBytes ≤ usizeMax)
    (hcursor : cursor.all (fun key => pfx.isPrefixOf key) = true)
    (hrest : rowsPast cursor (scanPrefixRows t ns pfx) = row :: rest)
    (hlarge : maxBytes < rowBytes row) :
    scanBudgeted t ns pfx cursor (maxRecords + 1) maxBytes true
      = .error (.backpressure pfx cursor maxBytes none) := by
  rw [scanBudgeted_eq_fit hbytes hcursor, hrest]
  dsimp only
  by_cases hraw : storedBytes row ≤ saturatingAdd maxBytes (maxRecords + 1)
  · rw [BudgetScan.read_cons_of_le hraw, BudgetScan.fit, if_neg (by omega)]
    rfl
  · rw [BudgetScan.read_cons_of_lt (not_le.mp hraw)]
    rfl

lemma scanBudgeted_page (hbytes : maxBytes ≤ usizeMax)
    (hcursor : cursor.all (fun key => pfx.isPrefixOf key) = true)
    (hrest : rowsPast cursor (scanPrefixRows t ns pfx) = row :: rest)
    (hfits : rowBytes row ≤ maxBytes) (hrow : rowBytes row < usizeMax) :
    ∃ page limit, scanBudgeted t ns pfx cursor (maxRecords + 1) maxBytes true
      = .ok ⟨row :: page, limit⟩ ∧ page <+: rest ∧ ∀ r ∈ page, rowBytes r ≤ maxBytes := by
  have hraw : storedBytes row ≤ saturatingAdd maxBytes (maxRecords + 1) := by
    rw [storedBytes, saturatingAdd]
    omega
  rw [scanBudgeted_eq_fit hbytes hcursor, hrest]
  dsimp only
  rw [BudgetScan.read_cons_of_le hraw, BudgetScan.fit, if_pos (by omega)]
  refine ⟨_, _, rfl, (BudgetScan.fit_isPrefix ..).trans (BudgetScan.read_isPrefix _), ?_⟩
  intro r hr
  have hsize := BudgetScan.size_le_of_mem_fit hr
  omega

end Pages

end NodedbLite.Storage
