import NodedbLite.DocReads

/-! Rebuilding the pointers from the history. The pages and the batches of pointer writes do not
show in the result, as long as every row fits into a page. -/
namespace NodedbLite.Document

open Storage

abbrev PointerEntry := String × Int × VersionTag

/-- One entry of the history: the document in hand, and those that are done. -/
def collectStep (acc : Option PointerEntry × List PointerEntry) (e : PointerEntry) :
    Option PointerEntry × List PointerEntry :=
  match acc.1 with
  | none => (some e, acc.2)
  | some previous =>
    if previous.1 ≠ e.1 then (some e, acc.2 ++ [previous])
    else (if previous.2.1 ≤ e.2.1 then some (previous.1, e.2) else some previous, acc.2)

def collect (es : List PointerEntry) : Option PointerEntry × List PointerEntry :=
  es.foldl collectStep (none, [])

/-- All pointers to write, in order. -/
def collected (es : List PointerEntry) : List PointerEntry :=
  (collect es).2 ++ (collect es).1.toList

/-- Of one document the times do not go down. -/
def TimesRise (es : List PointerEntry) : Prop := es.Pairwise (fun a b => a.1 = b.1 → a.2.1 ≤ b.2.1)

lemma collect_concat (es : List PointerEntry) (e : PointerEntry) :
    collect (es ++ [e]) = collectStep (collect es) e := by
  simp [collect]

lemma collect_mem (es : List PointerEntry) :
    (∀ p, (collect es).1 = some p → p ∈ es) ∧ ∀ p ∈ (collect es).2, p ∈ es := by
  induction es using List.reverseRecOn with
  | nil =>
    constructor
    · intro p hp
      cases hp
    · intro p hp
      cases hp
  | append_singleton es e ih =>
    obtain ⟨hlatest, hdone⟩ := ih
    have hold : ∀ p ∈ (collect es).2, p ∈ es ++ [e] :=
      fun p hp => List.mem_append_left _ (hdone p hp)
    have hself : e ∈ es ++ [e] := List.mem_append_right _ List.mem_cons_self
    rw [collect_concat]
    unfold collectStep
    cases hcurrent : (collect es).1 with
    | none =>
      refine ⟨fun p hp => ?_, hold⟩
      rw [← Option.some.inj hp]
      exact hself
    | some previous =>
      have hprevious := hlatest previous hcurrent
      dsimp only
      split
      next =>
        constructor
        · intro p hp
          rw [← Option.some.inj hp]
          exact hself
        · intro p hp
          rcases List.mem_append.mp hp with hp | hp
          · exact hold p hp
          · rw [List.mem_singleton.mp hp]
            exact List.mem_append_left _ hprevious
      next hsame =>
        have hid : previous.1 = e.1 := not_not.mp hsame
        refine ⟨fun p hp => ?_, hold⟩
        rw [hid] at hp
        split at hp
        next =>
          rw [← Option.some.inj hp]
          exact hself
        next =>
          rw [← Option.some.inj hp]
          exact List.mem_append_left _ hprevious

lemma getLast?_collected {es : List PointerEntry} (h : TimesRise es) (id : String) :
    ((collected es).filter (fun p => p.1 = id)).getLast?
      = (es.filter (fun p => p.1 = id)).getLast? := by
  induction es using List.reverseRecOn with
  | nil => rfl
  | append_singleton es e ih =>
    obtain ⟨hrise, -, hlast⟩ := List.pairwise_append.mp h
    have hbefore := ih hrise
    have hmem := (collect_mem es).1
    unfold collected at hbefore ⊢
    rw [collect_concat, List.filter_append es]
    unfold collectStep
    cases hcurrent : (collect es).1 with
    | none =>
      rw [hcurrent] at hbefore
      by_cases hid : e.1 = id
      · simp [hid]
      · simpa [hid] using hbefore
    | some previous =>
      rw [hcurrent] at hbefore
      dsimp only
      by_cases hsame : previous.1 = e.1
      · rw [if_neg (not_not.mpr hsame),
          if_pos (hlast previous (hmem previous hcurrent) e List.mem_cons_self hsame)]
        by_cases hid : e.1 = id
        · have hentry : (previous.1, e.2) = e := by rw [hsame]
          simp [hentry, hid]
        · have hne : previous.1 ≠ id := fun heq => hid (hsame.symm.trans heq)
          simpa [hid, hne, hsame] using hbefore
      · rw [if_pos hsame]
        by_cases hid : e.1 = id
        · simp [hid]
        · simpa [hid] using hbefore

variable {sp : DocSpaces} {t : Tree} {c : String}

lemma composite_pointerOp (sp : DocSpaces) (c : String) (p : PointerEntry) :
    (pointerOp sp c p).composite.key = prefixKey sp.latestVersion (latestVersionKey c p.1) ∧
      (pointerOp sp c p).composite.value
        = if p.2.2 = .live then some (formatSysFrom p.2.1) else none := by
  unfold pointerOp
  split
  next hlive => exact ⟨rfl, rfl⟩
  next hdead => exact ⟨rfl, rfl⟩

/-- The writes of pointers. -/
def pointerWrites (sp : DocSpaces) (c : String) (ps : List PointerEntry) :
    List (SortedMap.Write Bytes Bytes) :=
  ps.map (fun p => (pointerOp sp c p).composite)

/-- The state after some entries: what is written and queued are the pointers of the documents
that are done. -/
structure InStep (sp : DocSpaces) (t : Tree) (c : String) (es : List PointerEntry)
    (s : BackfillState) : Prop where
  latest : s.latest = (collect es).1
  tree : s.tree.writeAll (s.operations.map WriteOp.composite)
    = t.writeAll (pointerWrites sp c (collect es).2)
  history : ∀ key, getRows s.tree sp.documentHistory key = getRows t sp.documentHistory key
  queued : ∀ op ∈ s.operations, ∃ p, op = pointerOp sp c p

lemma getRows_writeAll_pointers (ops : List WriteOp) (hops : ∀ op ∈ ops, ∃ p, op = pointerOp sp c p)
    (t : Tree) (key : Bytes) :
    getRows (t.writeAll (ops.map WriteOp.composite)) sp.documentHistory key
      = getRows t sp.documentHistory key := by
  unfold getRows
  apply SortedMap.get_writeAll_of_not_written
  intro w hw
  obtain ⟨op, hop, rfl⟩ := List.mem_map.mp hw
  obtain ⟨p, rfl⟩ := hops op hop
  rw [(composite_pointerOp sp c p).1, Ne, prefixKey_inj]
  exact fun hboth => sp.ne hboth.1.symm

section
variable {es : List PointerEntry} {s : BackfillState} {maxRecords maxBytes : Nat}

lemma InStep.queue {previous : PointerEntry} {done : List PointerEntry}
    (hcost : pointerCost c previous ≤ maxBytes)
    (htree : s.tree.writeAll (s.operations.map WriteOp.composite)
      = t.writeAll (pointerWrites sp c done))
    (hhistory : ∀ key, getRows s.tree sp.documentHistory key = getRows t sp.documentHistory key)
    (hqueued : ∀ op ∈ s.operations, ∃ p, op = pointerOp sp c p) :
    ∃ s', queuePointer sp c previous maxRecords maxBytes s = .ok s' ∧ s'.latest = s.latest ∧
      s'.cursor = s.cursor ∧
      s'.tree.writeAll (s'.operations.map WriteOp.composite)
        = t.writeAll (pointerWrites sp c (done ++ [previous])) ∧
      (∀ key, getRows s'.tree sp.documentHistory key = getRows t sp.documentHistory key) ∧
      (∀ op ∈ s'.operations, ∃ p, op = pointerOp sp c p) ∧ s'.operations ≠ [] := by
  have hwrites : pointerWrites sp c (done ++ [previous])
      = pointerWrites sp c done ++ [(pointerOp sp c previous).composite] := by
    simp [pointerWrites]
  unfold queuePointer
  dsimp only
  rw [if_neg (by omega)]
  refine ⟨_, rfl, ?_⟩
  split
  next =>
    -- the queue is written first
    refine ⟨rfl, rfl, ?_, ?_, ?_, by simp⟩
    · dsimp only
      rw [batchWriteRows_eq, hwrites, SortedMap.writeAll_append, ← htree]
      rfl
    · intro key
      dsimp only
      rw [batchWriteRows_eq, getRows_writeAll_pointers _ hqueued, hhistory]
    · intro op hop
      exact ⟨previous, List.mem_singleton.mp (by simpa using hop)⟩
  next =>
    refine ⟨rfl, rfl, ?_, hhistory, ?_, by simp⟩
    · dsimp only
      rw [List.map_append, SortedMap.writeAll_append, htree, hwrites, SortedMap.writeAll_append]
      rfl
    · intro op hop
      rcases List.mem_append.mp hop with hop | hop
      · exact hqueued op hop
      · exact ⟨previous, List.mem_singleton.mp hop⟩

lemma InStep.row (h : InStep sp t c es s) {row : KvPair} {e : PointerEntry}
    (he : pointerEntry (collPrefix c) row = some e)
    (hcost : ∀ p, (collect es).1 = some p → pointerCost c p ≤ maxBytes) :
    ∃ s', backfillRow sp c maxRecords maxBytes s row = .ok s' ∧ s'.cursor = some row.1 ∧
      InStep sp t c (es ++ [e]) s' := by
  unfold backfillRow
  dsimp only
  rw [he]
  dsimp only
  have hlatest := h.latest
  cases hcurrent : (collect es).1 with
  | none =>
    rw [hcurrent] at hlatest
    rw [hlatest]
    refine ⟨_, rfl, rfl, ?_, ?_, h.history, h.queued⟩
    · rw [collect_concat, collectStep, hcurrent]
      rfl
    · rw [collect_concat, collectStep, hcurrent]
      exact h.tree
  | some previous =>
    rw [hcurrent] at hlatest
    rw [hlatest]
    dsimp only
    by_cases hsame : previous.1 = e.1
    · rw [if_neg (not_not.mpr hsame)]
      refine ⟨_, rfl, rfl, ?_, ?_, h.history, h.queued⟩
      · rw [collect_concat, collectStep, hcurrent]
        dsimp only [BackfillState.note]
        rw [if_neg (not_not.mpr hsame)]
      · rw [collect_concat, collectStep, hcurrent]
        dsimp only
        rw [if_neg (not_not.mpr hsame)]
        exact h.tree
    · rw [if_pos hsame]
      obtain ⟨s', hqueue, hnone, hcursor, htree, hhistory, hqueued, _⟩ :=
        InStep.queue (s := { s with cursor := some row.1, latest := none })
          (hcost previous hcurrent) h.tree h.history h.queued
      rw [hqueue]
      refine ⟨_, rfl, hcursor, ?_, ?_, hhistory, hqueued⟩
      · rw [collect_concat, collectStep, hcurrent]
        dsimp only [BackfillState.note]
        rw [hnone, if_pos hsame]
      · rw [collect_concat, collectStep, hcurrent]
        dsimp only
        rw [if_pos hsame]
        exact htree

/-- The entries of the rows. -/
def entriesOf (c : String) (rows : List KvPair) : List PointerEntry :=
  rows.filterMap (pointerEntry (collPrefix c))

lemma InStep.rows {rows : List KvPair} (h : InStep sp t c es s)
    (hsome : ∀ row ∈ rows, ∃ e, pointerEntry (collPrefix c) row = some e)
    (hcost : ∀ p ∈ es ++ entriesOf c rows, pointerCost c p ≤ maxBytes) :
    ∃ s', rows.foldlM (backfillRow sp c maxRecords maxBytes) s = .ok s' ∧
      InStep sp t c (es ++ entriesOf c rows) s' ∧
      s'.cursor = (rows.getLast?.map Prod.fst).or s.cursor := by
  induction rows generalizing es s with
  | nil =>
    refine ⟨s, rfl, ?_, rfl⟩
    have hnil : entriesOf c [] = [] := rfl
    rw [hnil, List.append_nil]
    exact h
  | cons row rows ih =>
    obtain ⟨e, he⟩ := hsome row List.mem_cons_self
    have hentries : es ++ entriesOf c (row :: rows) = (es ++ [e]) ++ entriesOf c rows := by
      simp [entriesOf, he]
    rw [hentries] at hcost ⊢
    have hlatest : ∀ p, (collect es).1 = some p → pointerCost c p ≤ maxBytes := fun p hp =>
      hcost p (List.mem_append_left _ (List.mem_append_left _ ((collect_mem es).1 p hp)))
    obtain ⟨s₁, hone, hcursor, hstep⟩ : ∃ s₁, backfillRow sp c maxRecords maxBytes s row = .ok s₁ ∧
        s₁.cursor = some row.1 ∧ InStep sp t c (es ++ [e]) s₁ := h.row he hlatest
    obtain ⟨s₂, hrest, hstep', hcursor'⟩ := ih hstep
      (fun r hr => hsome r (List.mem_cons_of_mem _ hr)) hcost
    refine ⟨s₂, ?_, hstep', ?_⟩
    · rw [List.foldlM_cons, hone]
      exact hrest
    · rw [hcursor', hcursor, List.getLast?_cons]
      cases rows.getLast? <;> simp

/-- A page whose rows fit, behind the rows that were read before. -/
lemma InStep.page {seen page : List KvPair} (h : InStep sp t c (entriesOf c seen) s)
    (hsome : ∀ row ∈ seen ++ page, ∃ e, pointerEntry (collPrefix c) row = some e ∧
      pointerCost c e ≤ maxBytes)
    (hcursor : s.cursor = seen.getLast?.map Prod.fst) :
    ∃ s', page.foldlM (backfillRow sp c maxRecords maxBytes) s = .ok s' ∧
      InStep sp t c (entriesOf c (seen ++ page)) s' ∧
      s'.cursor = (seen ++ page).getLast?.map Prod.fst := by
  have hjoin : entriesOf c (seen ++ page) = entriesOf c seen ++ entriesOf c page :=
    List.filterMap_append
  obtain ⟨s', hfold, hstep, hcursor'⟩ : ∃ s', page.foldlM (backfillRow sp c maxRecords maxBytes) s
      = .ok s' ∧ InStep sp t c (entriesOf c seen ++ entriesOf c page) s' ∧
      s'.cursor = (page.getLast?.map Prod.fst).or s.cursor := by
    apply h.rows
    · intro row hrow
      obtain ⟨e, he, _⟩ := hsome row (List.mem_append_right _ hrow)
      exact ⟨e, he⟩
    · intro p hp
      rw [← hjoin] at hp
      obtain ⟨row, hrow, hp⟩ := List.mem_filterMap.mp hp
      obtain ⟨e, he, hcost⟩ := hsome row hrow
      rw [he] at hp
      obtain rfl := Option.some.inj hp
      exact hcost
  refine ⟨s', hfold, hjoin ▸ hstep, ?_⟩
  rw [hcursor', hcursor, List.getLast?_append]
  cases page.getLast? <;> rfl

/-- All pages: the loop comes to its end if every row fits, and to an error if not. -/
lemma backfillLoop_eq {rows : List KvPair} (hrows : scanPrefixRows t sp.documentHistory
      (collPrefix c) = rows)
    (hsome : ∀ row ∈ rows, ∃ e, pointerEntry (collPrefix c) row = some e ∧
      pointerCost c e ≤ rowBytes row)
    (hbytes : maxBytes ≤ usizeMax)
    (hsmall : ∀ row ∈ rows, rowBytes row ≤ maxBytes → rowBytes row < usizeMax)
    {fuel : Nat} {seen rest : List KvPair} (hsplit : rows = seen ++ rest)
    (hfits : ∀ row ∈ seen, rowBytes row ≤ maxBytes) (h : InStep sp t c (entriesOf c seen) s)
    (hcursor : s.cursor = seen.getLast?.map Prod.fst) (hfuel : rest.length < fuel) :
    ((∀ row ∈ rest, rowBytes row ≤ maxBytes) → ∃ s', InStep sp t c (entriesOf c rows) s' ∧
      backfillLoop sp c (maxRecords + 1) maxBytes fuel s
        = some (backfillFinish sp c (maxRecords + 1) maxBytes s')) ∧
    ((∃ row ∈ rest, maxBytes < rowBytes row) →
      ∃ e, backfillLoop sp c (maxRecords + 1) maxBytes fuel s = some (.error e)) := by
  induction fuel generalizing s seen rest with
  | zero => omega
  | succ fuel ih =>
    have hsorted : (seen ++ rest).Pairwise (fun a b => a.1 < b.1) := by
      rw [← hsplit, ← hrows]
      exact scanPrefixRows_sorted ..
    have hunder : s.cursor.all (fun key => (collPrefix c).isPrefixOf key) = true := by
      rw [hcursor]
      cases hlast : seen.getLast? with
      | none => rfl
      | some row =>
        have hmem : row ∈ rows := hsplit ▸ List.mem_append_left _ (List.mem_of_getLast? hlast)
        rw [← hrows] at hmem
        simpa using (mem_scanPrefixRows.mp hmem).2
    have hpast : rowsPast s.cursor (scanPrefixRows s.tree sp.documentHistory (collPrefix c))
        = rest := by
      rw [scanPrefixRows_congr h.history, hrows, hsplit, hcursor, rowsPast_append hsorted]
    unfold backfillLoop
    cases rest with
    | nil =>
      rw [scanBudgeted_nil hbytes hunder hpast]
      constructor
      · intro _
        rw [List.append_nil] at hsplit
        exact ⟨s, hsplit ▸ h, rfl⟩
      · rintro ⟨row, hrow, _⟩
        cases hrow
    | cons row rest =>
      by_cases hrow : rowBytes row ≤ maxBytes
      · -- the page has the row, and the rest of the rows is read from its last key on
        have hmem : row ∈ rows := hsplit ▸ List.mem_append_right _ List.mem_cons_self
        obtain ⟨page, limit, hscan, ⟨later, rfl⟩, hsizes⟩ := @scanBudgeted_page _ _ _ _ maxRecords _ _ _
          hbytes hunder hpast hrow (hsmall row hmem hrow)
        have hall : rows = (seen ++ row :: page) ++ later := by
          rw [hsplit, List.append_assoc, List.cons_append]
        rw [hscan]
        dsimp only
        rw [if_neg (List.cons_ne_nil _ _)]
        have hfits' : ∀ r ∈ seen ++ row :: page, rowBytes r ≤ maxBytes := by
          intro r hr
          rcases List.mem_append.mp hr with hr | hr
          · exact hfits r hr
          · rcases List.mem_cons.mp hr with rfl | hr
            · exact hrow
            · exact hsizes r hr
        obtain ⟨s', hfold, hstep, hcursor'⟩ : ∃ s', (row :: page).foldlM
            (backfillRow sp c (maxRecords + 1) maxBytes) s = .ok s' ∧
            InStep sp t c (entriesOf c (seen ++ row :: page)) s' ∧
            s'.cursor = (seen ++ row :: page).getLast?.map Prod.fst := by
          refine h.page (fun r hr => ?_) hcursor
          obtain ⟨e, he, hcost⟩ := hsome r (hall ▸ List.mem_append_left _ hr)
          exact ⟨e, he, hcost.trans (hfits' r hr)⟩
        have hlength : later.length < fuel := by
          simp only [List.length_cons, List.length_append] at hfuel
          omega
        obtain ⟨hend, herror⟩ := ih hall hfits' hstep hcursor' hlength
        rw [hfold]
        constructor
        · intro hrest
          exact hend (fun r hr => hrest r (List.mem_cons_of_mem _ (List.mem_append_right _ hr)))
        · rintro ⟨r, hr, hlarge⟩
          rcases List.mem_cons.mp hr with rfl | hr
          · omega
          · rcases List.mem_append.mp hr with hr | hr
            · exact absurd (hsizes r hr) (not_le.mpr hlarge)
            · exact herror ⟨r, hr, hlarge⟩
      · rw [scanBudgeted_reject hbytes hunder hpast (not_le.mp hrow)]
        constructor
        · intro hall
          exact absurd (hall row List.mem_cons_self) hrow
        · intro _
          exact ⟨_, rfl⟩

lemma InStep.finish (h : InStep sp t c es s)
    (hcost : ∀ p, (collect es).1 = some p → pointerCost c p ≤ maxBytes) :
    backfillFinish sp c maxRecords maxBytes s
      = .ok (t.writeAll (pointerWrites sp c (collected es))) := by
  have hwritten : ∀ s' : BackfillState, (if s'.operations = [] then s'.tree
      else batchWriteRows s'.tree s'.operations)
        = s'.tree.writeAll (s'.operations.map WriteOp.composite) := by
    intro s'
    split
    next hnil =>
      rw [hnil]
      rfl
    next => exact batchWriteRows_eq ..
  have hlatest := h.latest
  unfold backfillFinish collected
  cases hcurrent : (collect es).1 with
  | none =>
    rw [hcurrent] at hlatest
    rw [hlatest, Option.toList_none, List.append_nil, ← h.tree, ← hwritten]
    rfl
  | some previous =>
    rw [hcurrent] at hlatest
    obtain ⟨s', hqueue, _, _, htree, _⟩ : ∃ s', queuePointer sp c previous maxRecords maxBytes s
        = .ok s' ∧ s'.latest = s.latest ∧ s'.cursor = s.cursor ∧
      s'.tree.writeAll (s'.operations.map WriteOp.composite)
        = t.writeAll (pointerWrites sp c ((collect es).2 ++ [previous])) ∧
      (∀ key, getRows s'.tree sp.documentHistory key = getRows t sp.documentHistory key) ∧
      (∀ op ∈ s'.operations, ∃ p, op = pointerOp sp c p) ∧ s'.operations ≠ [] :=
      InStep.queue (hcost previous hcurrent) h.tree h.history h.queued
    rw [hlatest]
    dsimp only
    rw [hqueue, Option.toList_some, ← htree, ← hwritten]
    rfl

end

lemma lastWrite_pointerWrites (d : String) (ps : List PointerEntry) :
    SortedMap.lastWrite (pointerWrites sp c ps) (prefixKey sp.latestVersion (latestVersionKey c d))
      = ((ps.filter (fun p => p.1 = d)).getLast?).map (fun p =>
        if p.2.2 = .live then some (formatSysFrom p.2.1) else none) := by
  induction ps using List.reverseRecOn with
  | nil => rfl
  | append_singleton ps p ih =>
    obtain ⟨hkey, hvalue⟩ := composite_pointerOp sp c p
    have hconcat : pointerWrites sp c (ps ++ [p])
        = pointerWrites sp c ps ++ [(pointerOp sp c p).composite] := by
      simp [pointerWrites]
    rw [hconcat, SortedMap.lastWrite_concat, hkey, hvalue, ih, List.filter_append]
    by_cases hid : p.1 = d
    · rw [if_pos (by rw [hid])]
      simp [hid]
    · rw [if_neg (fun heq => hid (latestVersionKey_injective c (prefixKey_inj.mp heq).2))]
      simp [hid]

lemma pointerEntry_row {d : String} {s : Int} {v : DecodedVersion}
    (hd : (0 : UInt8) ∉ Bytes.ofString d) (hs : InI64 s) (hv : v.Typed) :
    pointerEntry (collPrefix c) (historyKey c d s, encodeValue v) = some (d, s, v.tag) ∧
      pointerCost c (d, s, v.tag) ≤ rowBytes (historyKey c d s, encodeValue v) := by
  constructor
  · unfold pointerEntry
    rw [idOfKey_historyKey hd, decodeValue_encodeValue hv, parseSysFrom_historyKey c d hs]
    rfl
  · have hkey : (historyKey c d s).length
        = (latestVersionKey c d).length + 1 + (formatSysFrom s).length := by
      simp [historyKey, docPrefix, latestVersionKey]
      omega
    have hcost : pointerCost c (d, s, v.tag)
        ≤ (latestVersionKey c d).length + (formatSysFrom s).length := by
      unfold pointerCost saturatingAdd
      dsimp only
      split <;> omega
    unfold rowBytes
    dsimp only
    omega

/-- The whole backfill: the pointers of all documents, or an error if a row does not fit. -/
lemma backfillPages_eq {rows : List KvPair} (hrows : scanPrefixRows t sp.documentHistory
      (collPrefix c) = rows)
    (hsome : ∀ row ∈ rows, ∃ e, pointerEntry (collPrefix c) row = some e ∧
      pointerCost c e ≤ rowBytes row)
    {maxRecords maxBytes fuel : Nat} (hbytes : maxBytes ≤ usizeMax)
    (hsmall : ∀ row ∈ rows, rowBytes row ≤ maxBytes → rowBytes row < usizeMax)
    (hfuel : rows.length < fuel) :
    ((∀ row ∈ rows, rowBytes row ≤ maxBytes) →
      backfillPages sp t c (maxRecords + 1) maxBytes fuel
        = some (.ok (t.writeAll (pointerWrites sp c (collected (entriesOf c rows)))))) ∧
    ((∃ row ∈ rows, maxBytes < rowBytes row) →
      ∃ e, backfillPages sp t c (maxRecords + 1) maxBytes fuel = some (.error e)) := by
  have hstart : InStep sp t c (entriesOf c []) ⟨t, none, none, [], 0⟩ := by
    refine ⟨rfl, rfl, fun _ => rfl, ?_⟩
    intro op hop
    cases hop
  obtain ⟨hend, herror⟩ := @backfillLoop_eq _ _ _ _ maxRecords _ _ hrows hsome hbytes hsmall _ _ _
    (List.nil_append rows).symm (fun row hrow => by cases hrow) hstart rfl hfuel
  refine ⟨fun hfits => ?_, herror⟩
  obtain ⟨s', hstep, hloop⟩ := hend hfits
  refine hloop.trans (congrArg some (hstep.finish (fun p hp => ?_)))
  obtain ⟨row, hrow, hp⟩ := List.mem_filterMap.mp ((collect_mem _).1 p hp)
  obtain ⟨e, he, hcost⟩ := hsome row hrow
  rw [he] at hp
  obtain rfl := Option.some.inj hp
  exact hcost.trans (hfits row hrow)

lemma getRows_history_pointerWrites (ps : List PointerEntry) (key : Bytes) :
    getRows (t.writeAll (pointerWrites sp c ps)) sp.documentHistory key
      = getRows t sp.documentHistory key := by
  have hops : pointerWrites sp c ps = (ps.map (pointerOp sp c)).map WriteOp.composite := by
    simp [pointerWrites]
  rw [hops]
  apply @getRows_writeAll_pointers sp c
  intro op hop
  obtain ⟨p, _, rfl⟩ := List.mem_map.mp hop
  exact ⟨p, rfl⟩

lemma getRows_latest_pointerWrites (ps : List PointerEntry) (d : String) :
    getRows (t.writeAll (pointerWrites sp c ps)) sp.latestVersion (latestVersionKey c d)
      = match (ps.filter (fun p => p.1 = d)).getLast? with
        | some p => if p.2.2 = .live then some (formatSysFrom p.2.1) else none
        | none => getRows t sp.latestVersion (latestVersionKey c d) := by
  unfold getRows
  rw [SortedMap.get_writeAll, lastWrite_pointerWrites d]
  cases (ps.filter (fun p => p.1 = d)).getLast? <;> rfl

variable {ws : List DocWrite} {d : String}

lemma Keeps.pointerEntry (h : Keeps sp ws t) {e : Int × DecodedVersion}
    (he : e ∈ (docVersions ws c d).entries) :
    Document.pointerEntry (collPrefix c) (rowOf c d e) = some (d, e.1, e.2.tag) ∧
      pointerCost c (d, e.1, e.2.tag) ≤ rowBytes (rowOf c d e) := by
  obtain ⟨hn, htime, htyped⟩ := h.entry he
  exact pointerEntry_row hn.docId htime.inI64 htyped

lemma Keeps.timesRise (h : Keeps sp ws t) (hc : colon ∉ Bytes.ofString c) :
    TimesRise (entriesOf c (scanPrefixRows t sp.documentHistory (collPrefix c))) := by
  unfold TimesRise entriesOf
  rw [List.pairwise_filterMap]
  apply (scanPrefixRows_sorted t sp.documentHistory (collPrefix c)).imp_of_mem
  intro a b ha hb hlt p hp q hq hid
  obtain ⟨d, e, he, rfl⟩ := (h.mem_collRows hc).mp ha
  obtain ⟨d', e', he', rfl⟩ := (h.mem_collRows hc).mp hb
  rw [(h.pointerEntry he).1] at hp
  rw [(h.pointerEntry he').1] at hq
  obtain rfl := Option.some.inj hp
  obtain rfl := Option.some.inj hq
  obtain rfl : d = d' := hid
  exact ((historyKey_lt_iff c d (h.entry he).2.1 (h.entry he').2.1).mp hlt).le

/-- The backfill of a collection, over any pointers: it comes to its end exactly if every row of
the collection fits into a page, and then the pointers are those of the newest versions. -/
theorem Keeps.backfill (h : Keeps sp ws t) (hc : colon ∉ Bytes.ofString c) {t₀ : Tree}
    (hhistory : ∀ key, getRows t₀ sp.documentHistory key = getRows t sp.documentHistory key)
    {maxRecords maxBytes fuel : Nat} (hmax : maxBytes + (maxRecords + 1) ≤ usizeMax)
    (hfuel : (scanPrefixRows t sp.documentHistory (collPrefix c)).length < fuel) :
    ((∀ d, ∀ e ∈ (docVersions ws c d).entries, rowBytes (rowOf c d e) ≤ maxBytes) →
      ∃ t', backfillPages sp t₀ c (maxRecords + 1) maxBytes fuel = some (.ok t') ∧
        (∀ key, getRows t' sp.documentHistory key = getRows t sp.documentHistory key) ∧
        ∀ d, Named c d → getRows t' sp.latestVersion (latestVersionKey c d)
          = match newestVersion (docVersions ws c d) with
            | some e => if e.2.isLive then some (formatSysFrom e.1) else none
            | none => getRows t₀ sp.latestVersion (latestVersionKey c d)) ∧
    ((∃ d, ∃ e ∈ (docVersions ws c d).entries, maxBytes < rowBytes (rowOf c d e)) →
      ∃ e, backfillPages sp t₀ c (maxRecords + 1) maxBytes fuel = some (.error e)) := by
  have hrows : scanPrefixRows t₀ sp.documentHistory (collPrefix c)
      = scanPrefixRows t sp.documentHistory (collPrefix c) := scanPrefixRows_congr hhistory _
  have hsome : ∀ row ∈ scanPrefixRows t sp.documentHistory (collPrefix c),
      ∃ e, Document.pointerEntry (collPrefix c) row = some e ∧ pointerCost c e ≤ rowBytes row := by
    intro row hrow
    obtain ⟨d, e, he, rfl⟩ := (h.mem_collRows hc).mp hrow
    exact ⟨_, h.pointerEntry he⟩
  have hentries : ∀ d, (entriesOf c (scanPrefixRows t sp.documentHistory (collPrefix c))).filter
      (fun p => p.1 = d) = (docVersions ws c d).entries.map (fun e => (d, e.1, e.2.tag)) :=
    h.filter_collRows hc (fun d e he => (h.pointerEntry he).1)
  have hrise := h.timesRise hc
  have hbytes : maxBytes ≤ usizeMax := by omega
  have hsmall : ∀ row ∈ scanPrefixRows t sp.documentHistory (collPrefix c),
      rowBytes row ≤ maxBytes → rowBytes row < usizeMax := by
    intro row _ hfits
    omega
  obtain ⟨hend, herror⟩ := @backfillPages_eq _ _ _ _ hrows hsome maxRecords _ _ hbytes hsmall hfuel
  constructor
  · intro hfits
    have hall : ∀ row ∈ scanPrefixRows t sp.documentHistory (collPrefix c),
        rowBytes row ≤ maxBytes := by
      intro row hrow
      obtain ⟨d, e, he, rfl⟩ := (h.mem_collRows hc).mp hrow
      exact hfits d e he
    refine ⟨_, hend hall, fun key => ?_, fun d _ => ?_⟩
    · rw [getRows_history_pointerWrites, hhistory key]
    · rw [getRows_latest_pointerWrites, getLast?_collected hrise, hentries d, List.getLast?_map,
        newestVersion]
      cases (docVersions ws c d).entries.getLast? with
      | none => rfl
      | some e => simp [DecodedVersion.isLive]
  · rintro ⟨d, e, he, hlarge⟩
    exact herror ⟨rowOf c d e, (h.mem_collRows hc).mpr ⟨d, e, he, rfl⟩, hlarge⟩

end NodedbLite.Document
