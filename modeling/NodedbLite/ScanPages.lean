import NodedbLite.StorageViews

/-! Budgeted prefix scans read page by page: what one page holds, and what a caller gets who resumes
after the last key of each page until a scan reports no limit. -/
namespace NodedbLite.Storage

variable {t : Tree} {ns : Namespace} {pfx : Bytes} {cursor : Option Bytes}
  {maxRecords maxBytes : Nat}

/-- Resume after the last key of each page, for at most `fuel` pages. -/
def scanPages (t : Tree) (ns : Namespace) (pfx : Bytes) (maxRecords maxBytes : Nat) :
    Nat → Option Bytes → Option (Except ScanError (List KvPair))
  | 0, _ => none
  | fuel + 1, cursor =>
    match scanBudgeted t ns pfx cursor maxRecords maxBytes true with
    | .error e => some (.error e)
    | .ok page =>
      if page.limit = none then some (.ok page.entries)
      else (scanPages t ns pfx maxRecords maxBytes fuel (page.entries.getLast?.map Prod.fst)).map
        (Except.map (page.entries ++ ·))

/-- The rows under the prefix behind the cursor. -/
abbrev rowsLeft (t : Tree) (ns : Namespace) (pfx : Bytes) (cursor : Option Bytes) : List KvPair :=
  rowsPast cursor (scanPrefixRows t ns pfx)

/-- The bytes of all rows under the prefix can be counted, as those of any store in memory can. -/
def Countable (t : Tree) (ns : Namespace) (pfx : Bytes) : Prop :=
  ((rowsWhere t (underKey ns pfx)).map rowBytes).sum ≤ usizeMax

/-- The cursor extends the prefix. -/
def CursorUnder (pfx : Bytes) (cursor : Option Bytes) : Prop :=
  cursor.all (fun key => pfx.isPrefixOf key) = true

lemma scanBudgeted_eq_read (hmax : maxBytes ≤ usizeMax) (hcount : Countable t ns pfx)
    (hcursor : CursorUnder pfx cursor) (rejectOversized : Bool) :
    scanBudgeted t ns pfx cursor (maxRecords + 1) maxBytes rejectOversized =
      finishScan pfx cursor maxBytes rejectOversized
        (BudgetScan.read rowBytes (rowsLeft t ns pfx cursor) (maxRecords + 1) maxBytes) := by
  have hsub : (rowsWhere t (afterCursor ns pfx cursor)).Sublist (rowsWhere t (underKey ns pfx)) := by
    refine List.monotone_filter_right _ (fun e he => ?_)
    exact (Bool.and_eq_true_iff.mp he).1
  have hfits : ((rowsWhere t (afterCursor ns pfx cursor)).map rowBytes).sum ≤ usizeMax :=
    ((hsub.map rowBytes).sum_le_sum (fun _ _ => Nat.zero_le _)).trans hcount
  have hcheck : checkPrefixCursor pfx cursor = .ok () := by
    unfold checkPrefixCursor
    cases cursor with
    | none => rfl
    | some key => simp_all [CursorUnder]
  rw [scanBudgeted_eq t ns pfx cursor _ hmax _ hfits, if_neg (Nat.succ_ne_zero _), hcheck,
    map_strip_afterCursor]
  rfl

/-- A page is the longest run of the rows left that fits both budgets, and it has a limit exactly if
rows remain. -/
structure IsPage (rows : List KvPair) (maxRecords maxBytes : Nat) (page : PrefixScan) : Prop where
  run : page.entries <+: rows
  records : page.entries.length ≤ maxRecords
  bytes : (page.entries.map rowBytes).sum ≤ maxBytes
  longest : ∀ other, other <+: rows → other.length ≤ maxRecords →
    (other.map rowBytes).sum ≤ maxBytes → other <+: page.entries
  limit : page.limit = none ↔ page.entries = rows

/-- The scan fails only if the first row alone exceeds the byte budget. -/
lemma scanBudgeted_cases (maxRecords : Nat) (hmax : maxBytes ≤ usizeMax) (hcount : Countable t ns pfx)
    (hcursor : CursorUnder pfx cursor) (rejectOversized : Bool) :
    (∃ page, scanBudgeted t ns pfx cursor (maxRecords + 1) maxBytes rejectOversized = .ok page ∧
      IsPage (rowsLeft t ns pfx cursor) (maxRecords + 1) maxBytes page ∧
      (rejectOversized = true → page.limit ≠ none → page.entries ≠ [])) ∨
    rejectOversized = true ∧
      scanBudgeted t ns pfx cursor (maxRecords + 1) maxBytes rejectOversized =
        .error (.backpressure pfx cursor maxBytes none) ∧
      ∃ row rest, rowsLeft t ns pfx cursor = row :: rest ∧ maxBytes < rowBytes row := by
  rw [scanBudgeted_eq_read hmax hcount hcursor]
  generalize hrows : rowsLeft t ns pfx cursor = rows
  have hpage : IsPage rows (maxRecords + 1) maxBytes
      ⟨(BudgetScan.read rowBytes rows (maxRecords + 1) maxBytes).1,
        (BudgetScan.read rowBytes rows (maxRecords + 1) maxBytes).2⟩ :=
    ⟨BudgetScan.read_isPrefix rows, BudgetScan.length_read_le rows, BudgetScan.sum_read_le rows,
      fun _ => BudgetScan.isPrefix_read, BudgetScan.limit_eq_none_iff rows⟩
  cases rows with
  | nil =>
    refine .inl ⟨_, ?_, hpage, fun _ hlimit => absurd ?_ hlimit⟩
    · rw [finishScan, if_neg (by simp)]
    · simp
  | cons row rest =>
    by_cases hlarge : maxBytes < rowBytes row
    · have hread : BudgetScan.read rowBytes (row :: rest) (maxRecords + 1) maxBytes =
          ([], some .bytes) := BudgetScan.read_cons_of_lt hlarge
      cases rejectOversized with
      | false => exact .inl ⟨_, rfl, hpage, fun hfalse => nomatch hfalse⟩
      | true =>
        refine .inr ⟨rfl, ?_, row, rest, rfl, hlarge⟩
        rw [hread]
        rfl
    · have hne : (BudgetScan.read rowBytes (row :: rest) (maxRecords + 1) maxBytes).1 ≠ [] :=
        fun hnil => hlarge (BudgetScan.read_eq_nil_iff.mp hnil)
      refine .inl ⟨_, ?_, hpage, fun _ _ => hne⟩
      rw [finishScan, if_neg]
      simp [hne]

lemma exists_append_rowsLeft (t : Tree) (ns : Namespace) (pfx : Bytes) (cursor : Option Bytes) :
    ∃ seen, scanPrefixRows t ns pfx = seen ++ rowsLeft t ns pfx cursor := by
  have hsplit := SortedMap.filter_append_filter_not
    (p := fun row : KvPair => !(cursor.all (fun key => decide (key < row.1))))
    (l := scanPrefixRows t ns pfx) ?_
  · simp only [Bool.not_not] at hsplit
    exact ⟨_, hsplit.symm⟩
  · refine (scanPrefixRows_sorted t ns pfx).imp (fun {a b} hlt => ?_)
    cases cursor with
    | none => simp
    | some key =>
      simp only [Option.all_some, Bool.not_eq_true', decide_eq_false_iff_not, not_lt]
      exact fun hb => hlt.le.trans hb

/-- A cursor at the last row of a page leaves the rows after the page. -/
lemma rowsLeft_last {entries rest : List KvPair} (hrows : rowsLeft t ns pfx cursor = entries ++ rest)
    (hne : entries ≠ []) : rowsLeft t ns pfx (entries.getLast?.map Prod.fst) = rest := by
  obtain ⟨seen, hseen⟩ := exists_append_rowsLeft t ns pfx cursor
  rw [hrows, ← List.append_assoc] at hseen
  have hsorted := scanPrefixRows_sorted t ns pfx
  have hlast : (seen ++ entries).getLast? = entries.getLast? := List.getLast?_append_of_ne_nil _ hne
  rw [rowsLeft, hseen, ← hlast]
  rw [hseen] at hsorted
  exact rowsPast_append hsorted

lemma cursorUnder_last {entries : List KvPair} (hrun : entries <+: rowsLeft t ns pfx cursor) :
    CursorUnder pfx (entries.getLast?.map Prod.fst) := by
  rw [CursorUnder, Option.all_map]
  cases hlast : entries.getLast? with
  | none => rfl
  | some row =>
    have hmem := hrun.subset (List.mem_of_getLast? hlast)
    exact List.isPrefixOf_iff_prefix.mpr (mem_scanPrefixRows.mp (List.mem_filter.mp hmem).1).2

/-- Page after page, the caller gets every row left once, or the error of one that is too large. -/
lemma scanPages_eq (maxRecords : Nat) (hmax : maxBytes ≤ usizeMax) (hcount : Countable t ns pfx) {fuel : Nat}
    (hcursor : CursorUnder pfx cursor) (hfuel : (rowsLeft t ns pfx cursor).length < fuel) :
    ((∀ row ∈ rowsLeft t ns pfx cursor, rowBytes row ≤ maxBytes) →
      scanPages t ns pfx (maxRecords + 1) maxBytes fuel cursor =
        some (.ok (rowsLeft t ns pfx cursor))) ∧
    ((∃ row ∈ rowsLeft t ns pfx cursor, maxBytes < rowBytes row) →
      ∃ e, scanPages t ns pfx (maxRecords + 1) maxBytes fuel cursor = some (.error e)) := by
  induction fuel generalizing cursor with
  | zero => cases hfuel
  | succ fuel ih =>
    rw [scanPages]
    rcases scanBudgeted_cases maxRecords hmax hcount hcursor true with
      ⟨page, hscan, hpage, hprogress⟩ | ⟨-, hscan, row, rest, hrows, hlarge⟩
    · rw [hscan]
      dsimp only
      split_ifs with hlimit
      · have hall := hpage.limit.mp hlimit
        refine ⟨fun _ => by rw [hall], fun ⟨row, hrow, hlarge⟩ => ?_⟩
        have hle := List.le_sum_of_mem (List.mem_map_of_mem (f := rowBytes) (hall ▸ hrow))
        exact absurd (hle.trans hpage.bytes) (not_le.mpr hlarge)
      · obtain ⟨rest, hrest⟩ := hpage.run
        have hne := hprogress rfl hlimit
        have hleft := rowsLeft_last hrest.symm hne
        have hlength : rest.length < fuel := by
          have hpos := List.length_pos_of_ne_nil hne
          rw [← hrest, List.length_append] at hfuel
          omega
        obtain ⟨hok, herror⟩ := ih (cursorUnder_last hpage.run) (by rw [hleft]; exact hlength)
        rw [hleft] at hok herror
        rw [← hrest]
        refine ⟨fun hall => ?_, fun ⟨row, hrow, hlarge⟩ => ?_⟩
        · rw [hok (fun row hrow => hall row (List.mem_append_right _ hrow))]
          rfl
        · rcases List.mem_append.mp hrow with hrow | hrow
          · have hle := List.le_sum_of_mem (List.mem_map_of_mem (f := rowBytes) hrow)
            exact absurd (hle.trans hpage.bytes) (not_le.mpr hlarge)
          · obtain ⟨e, he⟩ := herror ⟨row, hrow, hlarge⟩
            exact ⟨e, by rw [he]; rfl⟩
    · rw [hscan]
      refine ⟨fun hall => ?_, fun _ => ⟨_, rfl⟩⟩
      have hrow : row ∈ rowsLeft t ns pfx cursor := by
        rw [hrows]
        exact .head _
      exact absurd (hall row hrow) (not_le.mpr hlarge)

/-- With a positive record budget and a cursor under the prefix: a scan returns the longest run of rows
that fits both budgets, with no limit exactly if no row remains, and fails only if the first row is too
large; resuming until there is no limit gives every row once, if none is too large. -/
theorem prefix_scans_maximal_and_resumable (t : Tree) (ns : Namespace) (pfx : Bytes)
    (cursor : Option Bytes) (maxRecords maxBytes : Nat) (hmax : maxBytes ≤ usizeMax)
    (hcount : Countable t ns pfx) (hrecords : 0 < maxRecords) (hcursor : CursorUnder pfx cursor) :
    (∀ rejectOversized, match scanBudgeted t ns pfx cursor maxRecords maxBytes rejectOversized with
      | .ok page => IsPage (rowsLeft t ns pfx cursor) maxRecords maxBytes page
      | .error _ => ∃ row rest, rowsLeft t ns pfx cursor = row :: rest ∧ maxBytes < rowBytes row) ∧
    ∀ fuel, (rowsLeft t ns pfx cursor).length < fuel →
      if ∀ row ∈ rowsLeft t ns pfx cursor, rowBytes row ≤ maxBytes then
        scanPages t ns pfx maxRecords maxBytes fuel cursor = some (.ok (rowsLeft t ns pfx cursor))
      else ∃ e, scanPages t ns pfx maxRecords maxBytes fuel cursor = some (.error e) := by
  obtain ⟨maxRecords, rfl⟩ := Nat.exists_eq_succ_of_ne_zero hrecords.ne'
  refine ⟨fun rejectOversized => ?_, fun fuel hfuel => ?_⟩
  · rcases scanBudgeted_cases maxRecords hmax hcount hcursor rejectOversized with
      ⟨page, hscan, hpage, -⟩ | ⟨-, hscan, hrow⟩
    · rw [hscan]
      exact hpage
    · rw [hscan]
      exact hrow
  · obtain ⟨hok, herror⟩ := scanPages_eq maxRecords hmax hcount hcursor hfuel
    split_ifs with hall
    · exact hok hall
    · push Not at hall
      exact herror hall

/-- Two rows under one prefix. -/
def twoRows : Tree := ⟨[([1, 112, 97], [5]), ([1, 112, 98], [6])], by decide⟩

theorem prefix_scans_resumable_two :
    scanPages twoRows ⟨1, by decide⟩ [112] 1 3 3 none = some (.ok [([112, 97], [5]), ([112, 98], [6])]) ∧
      ∀ row ∈ rowsLeft twoRows ⟨1, by decide⟩ [112] none, rowBytes row ≤ 3 := by
  have hfits : ∀ row ∈ rowsLeft twoRows ⟨1, by decide⟩ [112] none, rowBytes row ≤ 3 := by decide
  have hpages := (prefix_scans_maximal_and_resumable twoRows ⟨1, by decide⟩ [112] none 1 3
    (by decide) (by unfold Countable; decide) Nat.one_pos rfl).2 3 (by decide)
  rw [if_pos hfits] at hpages
  exact ⟨hpages, hfits⟩

/-- A scan for no records reports no limit, whatever rows there are. -/
theorem no_records_reports_completion :
    scanPages twoRows ⟨1, by decide⟩ [112] 0 3 1 none = some (.ok []) ∧
      rowsLeft twoRows ⟨1, by decide⟩ [112] none ≠ [] := by
  decide

end NodedbLite.Storage
