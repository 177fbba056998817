import NodedbLite.DocAnswers

/-! Backfill over any history of a collection. Keys keep the rows of a document together, so the
document in hand is done when the next one begins, whatever the page; among its rows the largest
time wins, also where the order of the keys is not that of the times. -/
namespace NodedbLite.Document

open Storage

/-- `isize::MAX`, which no vector's length exceeds. -/
def isizeMax : Nat := 2 ^ 63 - 1

/-- A row that is a version of a document. -/
structure IsVersion (c d : String) (s : Int) (v : DecodedVersion) (row : KvPair) : Prop where
  docId : (0 : UInt8) ∉ Bytes.ofString d
  time : InI64 s
  typed : v.Typed
  eq : row = (historyKey c d s, encodeValue v)

/-- The rows of a collection's history. -/
structure HistoryOf (sp : DocSpaces) (c : String) (t : Tree) : Prop where
  version : ∀ row ∈ scanPrefixRows t sp.documentHistory (collPrefix c), ∃ d s v, IsVersion c d s v row
  allocated : ∀ row ∈ scanPrefixRows t sp.documentHistory (collPrefix c),
    row.1.length ≤ isizeMax ∧ row.2.length ≤ isizeMax

/-- A version of a document that no other version is newer than. -/
structure Newest (sp : DocSpaces) (t : Tree) (c d : String) (s : Int) (v : DecodedVersion) :
    Prop where
  time : InI64 s
  typed : v.Typed
  row : getRows t sp.documentHistory (historyKey c d s) = some (encodeValue v)
  newest : ∀ s' row, InI64 s' → getRows t sp.documentHistory (historyKey c d s') = some row → s' ≤ s

/-- Entries in which those of one document follow each other. -/
inductive Grouped : List PointerEntry → Prop
  | nil : Grouped []
  | concat {es : List PointerEntry} {e : PointerEntry} (h : Grouped es)
      (hid : e.1 ∈ es.map Prod.fst → es.getLast?.map Prod.fst = some e.1) : Grouped (es ++ [e])

/-- An entry of a document with its largest time. -/
structure Tops (es : List PointerEntry) (id : String) (p : PointerEntry) : Prop where
  mem : p ∈ es
  sameId : p.1 = id
  top : ∀ q ∈ es, q.1 = id → q.2.1 ≤ p.2.1

section Groups

variable {es : List PointerEntry} {e p : PointerEntry} {id : String}

lemma collect_id (es : List PointerEntry) :
    (collect es).1.map Prod.fst = es.getLast?.map Prod.fst := by
  cases es using List.reverseRecOn with
  | nil => rfl
  | append_singleton es e =>
    rw [collect_concat, collectStep, List.getLast?_concat]
    cases (collect es).1 with
    | none => rfl
    | some previous =>
      dsimp only
      by_cases hsame : previous.1 = e.1
      · rw [if_neg (not_not.mpr hsame)]
        split <;> simp [hsame]
      · rw [if_pos hsame]

lemma collected_concat (es : List PointerEntry) (e : PointerEntry) :
    es.getLast?.map Prod.fst ≠ some e.1 ∧ collected (es ++ [e]) = collected es ++ [e] ∨
    ∃ done previous, collected es = done ++ [previous] ∧ previous.1 = e.1 ∧
      collected (es ++ [e]) = done ++ [if previous.2.1 ≤ e.2.1 then e else previous] := by
  have hid := collect_id es
  unfold collected
  rw [collect_concat, collectStep]
  cases hcurrent : (collect es).1 with
  | none =>
    rw [hcurrent] at hid
    left
    rw [← hid]
    simp
  | some previous =>
    rw [hcurrent] at hid
    rw [← hid]
    dsimp only
    by_cases hsame : previous.1 = e.1
    · right
      refine ⟨(collect es).2, previous, rfl, hsame, ?_⟩
      have hentry : (previous.1, e.2) = e := by rw [hsame]
      rw [if_neg (not_not.mpr hsame), hentry]
      split <;> rfl
    · left
      rw [if_pos hsame]
      simpa using hsame

lemma Tops.concat_of_ne (h : Tops es id p) (hne : e.1 ≠ id) : Tops (es ++ [e]) id p := by
  refine ⟨List.mem_append_left _ h.mem, h.sameId, ?_⟩
  intro q hq hqid
  rcases List.mem_append.mp hq with hq | hq
  · exact h.top q hq hqid
  · rw [List.mem_singleton.mp hq] at hqid
    exact absurd hqid hne

lemma Tops.concat (h : Tops es id p) (he : e.1 = id) :
    Tops (es ++ [e]) id (if p.2.1 ≤ e.2.1 then e else p) := by
  have hself : e ∈ es ++ [e] := List.mem_append_right _ List.mem_cons_self
  split
  next hle =>
    refine ⟨hself, he, fun q hq hqid => ?_⟩
    rcases List.mem_append.mp hq with hq | hq
    · exact (h.top q hq hqid).trans hle
    · rw [List.mem_singleton.mp hq]
  next hlt =>
    refine ⟨List.mem_append_left _ h.mem, h.sameId, fun q hq hqid => ?_⟩
    rcases List.mem_append.mp hq with hq | hq
    · exact h.top q hq hqid
    · rw [List.mem_singleton.mp hq]
      exact (not_le.mp hlt).le

/-- Of grouped entries one pointer is written for each document, that of its largest time. -/
theorem filter_collected (h : Grouped es) (id : String) :
    id ∉ es.map Prod.fst ∧ (collected es).filter (fun p => p.1 = id) = [] ∨
    ∃ p, Tops es id p ∧ (collected es).filter (fun p => p.1 = id) = [p] := by
  induction h with
  | nil => exact .inl ⟨List.not_mem_nil, rfl⟩
  | @concat es e h hid ih =>
    rcases collected_concat es e with ⟨hlast, hconcat⟩ | ⟨done, previous, hes, hsame, hconcat⟩
    · -- the first entry of its document
      have hfresh : e.1 ∉ es.map Prod.fst := fun hmem => hlast (hid hmem)
      rw [hconcat, List.filter_append]
      by_cases he : e.1 = id
      · subst he
        right
        obtain ⟨_, hnone⟩ | ⟨p, htop, _⟩ := ih
        · refine ⟨e, ⟨by simp, rfl, ?_⟩, by simp [hnone]⟩
          intro q hq hqid
          rcases List.mem_append.mp hq with hq | hq
          · exact absurd (List.mem_map.mpr ⟨q, hq, hqid⟩) hfresh
          · rw [List.mem_singleton.mp hq]
        · exact absurd (List.mem_map.mpr ⟨p, htop.mem, htop.sameId⟩) hfresh
      · rcases ih with ⟨hnone, hempty⟩ | ⟨p, htop, hone⟩
        · left
          refine ⟨?_, by simp [hempty, he]⟩
          rw [List.map_append, List.mem_append, not_or]
          exact ⟨hnone, by simpa using Ne.symm he⟩
        · exact .inr ⟨p, htop.concat_of_ne he, by simp [hone, he]⟩
    · rw [hes, List.filter_append] at ih
      rw [hconcat, List.filter_append]
      by_cases he : e.1 = id
      · right
        have hprevious : previous.1 = id := hsame.trans he
        rcases ih with ⟨_, hempty⟩ | ⟨p, htop, hone⟩
        · simp [hprevious] at hempty
        · obtain ⟨hdone, rfl⟩ : done.filter (fun p => p.1 = id) = [] ∧ previous = p := by
            simpa [hprevious, List.append_eq_singleton_iff] using hone
          refine ⟨_, htop.concat he, ?_⟩
          rw [hdone]
          split <;> simp [he, hprevious]
      · have hprevious : previous.1 ≠ id := fun heq => he (hsame.symm.trans heq)
        have hkept : (if previous.2.1 ≤ e.2.1 then e else previous).1 ≠ id := by
          split
          · exact he
          · exact hprevious
        rcases ih with ⟨hnone, hempty⟩ | ⟨p, htop, hone⟩
        · left
          refine ⟨?_, by simpa [hprevious, hkept] using hempty⟩
          rw [List.map_append, List.mem_append, not_or]
          exact ⟨hnone, by simpa using Ne.symm he⟩
        · exact .inr ⟨p, htop.concat_of_ne he, by simpa [hprevious, hkept] using hone⟩

end Groups

variable {sp : DocSpaces} {t : Tree} {c d : String} {s : Int} {v : DecodedVersion} {row : KvPair}

lemma IsVersion.pointerEntry (h : IsVersion c d s v row) :
    Document.pointerEntry (collPrefix c) row = some (d, s, v.tag) ∧
      pointerCost c (d, s, v.tag) ≤ rowBytes row := by
  rw [h.eq]
  exact pointerEntry_row h.docId h.time h.typed

lemma IsVersion.docPrefix (h : IsVersion c d s v row) : Document.docPrefix c d <+: row.1 := by
  rw [h.eq]
  exact List.prefix_append ..

lemma IsVersion.docId_eq_of_between {d' : String} {s' s'' : Int} {v' v'' : DecodedVersion}
    {a b : KvPair} (ha : IsVersion c d s v a) (hrow : IsVersion c d' s' v' row)
    (hb : IsVersion c d s'' v'' b) (har : a.1 ≤ row.1) (hrb : row.1 < b.1) : d = d' := by
  have hp : Document.docPrefix c d <+: row.1 := by
    by_contra hnot
    exact PrefixScan.not_isPrefix_of_lt ((PrefixScan.le_of_isPrefix ha.docPrefix).trans har) hnot hrb
      hb.docPrefix
  rw [hrow.eq] at hp
  exact docId_of_docPrefix ha.docId hrow.docId hp

lemma mem_entriesOf {rows : List KvPair} (hrows : ∀ row ∈ rows, ∃ d s v, IsVersion c d s v row)
    {p : PointerEntry} : p ∈ entriesOf c rows ↔
      ∃ row ∈ rows, ∃ d s v, IsVersion c d s v row ∧ p = (d, s, v.tag) := by
  constructor
  · intro hp
    obtain ⟨row, hrow, hp⟩ := List.mem_filterMap.mp hp
    obtain ⟨d, s, v, hv⟩ := hrows row hrow
    rw [hv.pointerEntry.1] at hp
    exact ⟨row, hrow, d, s, v, hv, (Option.some.inj hp).symm⟩
  · rintro ⟨row, hrow, d, s, v, hv, rfl⟩
    exact List.mem_filterMap.mpr ⟨row, hrow, hv.pointerEntry.1⟩

lemma grouped_entriesOf {rows : List KvPair} (hsorted : rows.Pairwise (fun a b => a.1 < b.1))
    (hrows : ∀ row ∈ rows, ∃ d s v, IsVersion c d s v row) : Grouped (entriesOf c rows) := by
  have hconcat : ∀ rows row, entriesOf c (rows ++ [row])
      = entriesOf c rows ++ (pointerEntry (collPrefix c) row).toList := by
    intro rows row
    cases hentry : pointerEntry (collPrefix c) row <;> simp [entriesOf, hentry]
  induction rows using List.reverseRecOn with
  | nil => exact .nil
  | append_singleton rows row ih =>
    obtain ⟨hbefore, -, hlast⟩ := List.pairwise_append.mp hsorted
    have hrows' : ∀ r ∈ rows, ∃ d s v, IsVersion c d s v r :=
      fun r hr => hrows r (List.mem_append_left _ hr)
    obtain ⟨d, s, v, hv⟩ := hrows row (List.mem_append_right _ List.mem_cons_self)
    rw [hconcat, hv.pointerEntry.1]
    refine (ih hbefore hrows').concat (fun hmem => ?_)
    obtain ⟨p, hp, hid⟩ := List.mem_map.mp hmem
    obtain ⟨a, ha, d', s', v', ha', rfl⟩ := (mem_entriesOf hrows').mp hp
    obtain rfl : d' = d := hid
    cases rows using List.reverseRecOn with
    | nil => cases ha
    | append_singleton rows y =>
      obtain ⟨e, u, w, hy⟩ := hrows' y (List.mem_append_right _ List.mem_cons_self)
      have hle : a.1 ≤ y.1 := by
        rcases List.mem_append.mp ha with ha | ha
        · exact ((List.pairwise_append.mp hbefore).2.2 a ha y List.mem_cons_self).le
        · rw [List.mem_singleton.mp ha]
      have hlt : y.1 < row.1 :=
        hlast y (List.mem_append_right _ List.mem_cons_self) row List.mem_cons_self
      rw [hconcat, hy.pointerEntry.1, ha'.docId_eq_of_between hy hv hle hlt]
      simp

lemma HistoryOf.isVersion (h : HistoryOf sp c t) (hd : (0 : UInt8) ∉ Bytes.ofString d)
    (hs : InI64 s) {value : Bytes}
    (hrow : getRows t sp.documentHistory (historyKey c d s) = some value) :
    ∃ v, IsVersion c d s v (historyKey c d s, value) ∧
      (d, s, v.tag) ∈ entriesOf c (scanPrefixRows t sp.documentHistory (collPrefix c)) := by
  have hp : collPrefix c <+: historyKey c d s := by
    rw [historyKey_eq, collPrefix]
    exact (List.prefix_append_right_inj _).mpr (List.cons_prefix_cons.mpr ⟨rfl, List.nil_prefix⟩)
  have hmem := mem_scanPrefixRows.mpr ⟨hrow, hp⟩
  obtain ⟨d', s', v, hv⟩ := h.version _ hmem
  obtain ⟨hkey, hvalue⟩ := Prod.mk.inj hv.eq
  have hp' : docPrefix c d <+: historyKey c d' s' := hkey ▸ List.prefix_append _ (formatSysFrom s)
  obtain rfl : d = d' := docId_of_docPrefix hd hv.docId hp'
  have htime := congrArg parseSysFrom hkey
  rw [parseSysFrom_historyKey c d hs, parseSysFrom_historyKey c d hv.time] at htime
  obtain rfl := Option.some.inj htime
  exact ⟨v, hv, (mem_entriesOf h.version).mpr ⟨_, hmem, d, s, v, hv, rfl⟩⟩

lemma HistoryOf.newest (h : HistoryOf sp c t) {p : PointerEntry}
    (hp : Tops (entriesOf c (scanPrefixRows t sp.documentHistory (collPrefix c))) d p) :
    ∃ v, Newest sp t c d p.2.1 v ∧ p.2.2 = v.tag := by
  obtain ⟨row, hrow, d', s, v, hv, rfl⟩ := (mem_entriesOf h.version).mp hp.mem
  obtain rfl : d' = d := hp.sameId
  rw [hv.eq] at hrow
  refine ⟨v, ⟨hv.time, hv.typed, (mem_scanPrefixRows.mp hrow).1, ?_⟩, rfl⟩
  intro s' value hs' hvalue
  obtain ⟨v', _, hentry⟩ := h.isVersion hv.docId hs' hvalue
  exact hp.top _ hentry rfl

/-- The pages do not show in what the backfill leaves: under all budgets that hold each row it ends
with the pointers of the newest versions that are live, and with none for the other documents that
have versions. -/
theorem backfill_independent_of_paging (h : HistoryOf sp c t) :
    ∃ t', (∀ maxRecords maxBytes fuel, 0 < maxRecords → maxBytes ≤ usizeMax →
        (∀ row ∈ scanPrefixRows t sp.documentHistory (collPrefix c), rowBytes row ≤ maxBytes) →
        (scanPrefixRows t sp.documentHistory (collPrefix c)).length < fuel →
        backfillPages sp t c maxRecords maxBytes fuel = some (.ok t')) ∧
      (∀ key, getRows t' sp.documentHistory key = getRows t sp.documentHistory key) ∧
      ∀ d, (0 : UInt8) ∉ Bytes.ofString d →
        ((∃ s value, InI64 s ∧ getRows t sp.documentHistory (historyKey c d s) = some value) →
          ∃ s v, Newest sp t c d s v ∧ getRows t' sp.latestVersion (latestVersionKey c d)
            = if v.isLive then some (formatSysFrom s) else none) ∧
        ((∀ s, InI64 s → getRows t sp.documentHistory (historyKey c d s) = none) →
          getRows t' sp.latestVersion (latestVersionKey c d)
            = getRows t sp.latestVersion (latestVersionKey c d)) := by
  have hsome : ∀ row ∈ scanPrefixRows t sp.documentHistory (collPrefix c),
      ∃ e, pointerEntry (collPrefix c) row = some e ∧ pointerCost c e ≤ rowBytes row := by
    intro row hrow
    obtain ⟨d, s, v, hv⟩ := h.version row hrow
    exact ⟨_, hv.pointerEntry⟩
  have hgrouped := grouped_entriesOf (scanPrefixRows_sorted t sp.documentHistory (collPrefix c))
    h.version
  refine ⟨t.writeAll (pointerWrites sp c (collected (entriesOf c
    (scanPrefixRows t sp.documentHistory (collPrefix c))))), ?_, ?_, ?_⟩
  · intro maxRecords maxBytes fuel hrecords hbytes hfits hfuel
    obtain ⟨n, rfl⟩ := Nat.exists_eq_succ_of_ne_zero hrecords.ne'
    refine (backfillPages_eq rfl hsome hbytes ?_ hfuel).1 hfits
    intro row hrow _
    obtain ⟨hkey, hvalue⟩ := h.allocated row hrow
    unfold rowBytes usizeMax
    unfold isizeMax at hkey hvalue
    omega
  · exact getRows_history_pointerWrites _
  · intro d hd
    rw [getRows_latest_pointerWrites]
    rcases filter_collected hgrouped d with ⟨hnone, hempty⟩ | ⟨p, htop, hone⟩
    · rw [hempty]
      refine ⟨?_, fun _ => rfl⟩
      rintro ⟨s, value, hs, hvalue⟩
      obtain ⟨v, _, hentry⟩ := h.isVersion hd hs hvalue
      exact absurd (List.mem_map.mpr ⟨_, hentry, rfl⟩) hnone
    · rw [hone]
      obtain ⟨v, hnewest, htag⟩ := h.newest htop
      refine ⟨fun _ => ⟨_, v, hnewest, ?_⟩, fun hno => ?_⟩
      · simp [DecodedVersion.isLive, htag]
      · cases (hno _ hnewest.time).symm.trans hnewest.row

/-- A document whose two versions are from before the epoch, the newer one first in the order of
the keys, and a pointer to the older one. -/
def backdated : Tree :=
  putRows (putRows (putRows SortedMap.empty docSpaces.documentHistory (historyKey "c" "a" (-5))
    (encodeValue ⟨.tombstone, -5, 0, []⟩)) docSpaces.documentHistory (historyKey "c" "a" (-3))
    (encodeValue ⟨.live, -3, 0, [128]⟩)) docSpaces.latestVersion (latestVersionKey "c" "a")
    (formatSysFrom (-5))

/-- Its pointer comes out the same in pages of one row and in one page. -/
theorem backfill_independent_of_paging_backdated :
    ∃ t', backfillPages docSpaces backdated "c" 1 100 3 = some (.ok t') ∧
      backfillPages docSpaces backdated "c" 128 usizeMax 3 = some (.ok t') := by
  have hrows : scanPrefixRows backdated docSpaces.documentHistory (collPrefix "c")
      = [(historyKey "c" "a" (-3), encodeValue ⟨.live, -3, 0, [128]⟩),
        (historyKey "c" "a" (-5), encodeValue ⟨.tombstone, -5, 0, []⟩)] := by decide +kernel
  have hdoc : (0 : UInt8) ∉ Bytes.ofString "a" := by decide +kernel
  have htime : ∀ n : Int, -5 ≤ n → n ≤ 0 → InI64 n := by
    intro n hlow hhigh
    unfold InI64 i64Max
    omega
  have hsmall : ∀ row ∈ scanPrefixRows backdated docSpaces.documentHistory (collPrefix "c"),
      row.1.length ≤ 50 ∧ row.2.length ≤ 50 := by
    rw [hrows]
    decide +kernel
  have hhistory : HistoryOf docSpaces "c" backdated := by
    constructor
    · rw [hrows]
      intro row hrow
      rcases List.mem_cons.mp hrow with rfl | hrow
      · exact ⟨"a", -3, _, hdoc, htime _ (by decide) (by decide),
          ⟨htime _ (by decide) (by decide), htime _ (by decide) (by decide)⟩, rfl⟩
      · obtain rfl := List.mem_singleton.mp hrow
        exact ⟨"a", -5, _, hdoc, htime _ (by decide) (by decide),
          ⟨htime _ (by decide) (by decide), htime _ (by decide) (by decide)⟩, rfl⟩
    · intro row hrow
      obtain ⟨hkey, hvalue⟩ := hsmall row hrow
      unfold isizeMax
      omega
  obtain ⟨t', hpages, _⟩ := backfill_independent_of_paging hhistory
  have hfits : ∀ row ∈ scanPrefixRows backdated docSpaces.documentHistory (collPrefix "c"),
      rowBytes row ≤ 100 := by
    intro row hrow
    obtain ⟨hkey, hvalue⟩ := hsmall row hrow
    unfold rowBytes
    omega
  have hlength : (scanPrefixRows backdated docSpaces.documentHistory (collPrefix "c")).length
      < 3 := by
    rw [hrows]
    decide
  refine ⟨t', hpages 1 100 3 (by decide) (by decide) hfits hlength,
    hpages 128 usizeMax 3 (by decide) le_rfl (fun row hrow => (hfits row hrow).trans ?_) hlength⟩
  unfold usizeMax
  omega

end NodedbLite.Document
