import NodedbLite.DocBackfill
import NodedbLite.GuardedRun

/-! What versioned documents answer: as-of reads, current reads, the scan of live documents and the
pointers rebuilt from the history, after any sequence of writes. -/
namespace NodedbLite.Document

open Storage

/-- The times of each document's writes go up. -/
def Increasing (ws : List DocWrite) : Prop :=
  ws.Pairwise (fun a b => b.isOf a.collection a.docId = true → a.systemFromMs < b.systemFromMs)

/-- The times of each document's writes do not go down. -/
def Rising (ws : List DocWrite) : Prop :=
  ws.Pairwise (fun a b => b.isOf a.collection a.docId = true → a.systemFromMs ≤ b.systemFromMs)

lemma Increasing.rising {ws : List DocWrite} (h : Increasing ws) : Rising ws :=
  h.imp (fun hlt hof => (hlt hof).le)

lemma getLast?_insertList {K V : Type*} [LinearOrder K] {k : K} {v : V} {es : List (K × V)}
    (hs : es.Pairwise (fun a b => a.1 < b.1)) (h : ∀ e ∈ es, e.1 ≤ k) :
    (SortedMap.insertList k v es).getLast? = some (k, v) := by
  induction es with
  | nil => rfl
  | cons e es ih =>
    obtain ⟨hfirst, hrest⟩ := List.pairwise_cons.mp hs
    have hle := h e List.mem_cons_self
    have hlast := ih hrest (fun f hf => h f (List.mem_cons_of_mem _ hf))
    obtain ⟨i, u⟩ := e
    unfold SortedMap.insertList
    rw [if_neg (not_lt.mpr hle)]
    split
    next heq =>
      have hnil : es = [] := by
        apply List.eq_nil_iff_forall_not_mem.mpr
        intro f hf
        have hlt := hfirst f hf
        rw [← heq] at hlt
        exact absurd (h f (List.mem_cons_of_mem _ hf)) (not_le.mpr hlt)
      rw [hnil]
      rfl
    next =>
      rw [List.getLast?_cons, hlast]
      rfl

section
variable {ws : List DocWrite} {c d : String}

lemma time_le_of_mem {w : DocWrite} (h : Rising (ws ++ [w])) (hof : w.isOf c d = true)
    {e : Int × DecodedVersion} (he : e ∈ (docVersions ws c d).entries) : e.1 ≤ w.systemFromMs := by
  obtain ⟨u, hu, hofu, htime, _⟩ := exists_write_of_get (SortedMap.get_eq_some_iff.mpr he)
  obtain ⟨rfl, rfl⟩ := isOf_iff.mp hofu
  rw [← htime]
  exact (List.pairwise_append.mp h).2.2 u hu w List.mem_cons_self hof

/-- When times do not go down, the newest version is the last write's. -/
lemma newestVersion_of_rising (h : Rising ws) :
    newestVersion (docVersions ws c d)
      = (lastOf ws c d).map (fun w => (w.systemFromMs, w.version)) := by
  induction ws using List.reverseRecOn with
  | nil => rfl
  | append_singleton ws w ih =>
    rw [docVersions_concat, lastOf_concat]
    by_cases hof : w.isOf c d = true
    · rw [if_pos hof, if_pos hof]
      exact getLast?_insertList (docVersions ws c d).sorted (fun e he => time_le_of_mem h hof he)
    · rw [if_neg hof, if_neg hof]
      exact ih (List.pairwise_append.mp h).1

lemma entries_of_increasing (h : Increasing ws) :
    (docVersions ws c d).entries
      = (ws.filter (DocWrite.isOf c d)).map (fun w => (w.systemFromMs, w.version)) := by
  induction ws using List.reverseRecOn with
  | nil => rfl
  | append_singleton ws w ih =>
    obtain ⟨hbefore, -, hlast⟩ := List.pairwise_append.mp h
    rw [docVersions_concat, List.filter_append]
    by_cases hof : w.isOf c d = true
    · have hlt : ∀ e ∈ (docVersions ws c d).entries, e.1 < w.systemFromMs := by
        intro e he
        obtain ⟨u, hu, hofu, htime, _⟩ := exists_write_of_get (SortedMap.get_eq_some_iff.mpr he)
        obtain ⟨rfl, rfl⟩ := isOf_iff.mp hofu
        rw [← htime]
        exact hlast u hu w List.mem_cons_self hof
      have hinsert : ((docVersions ws c d).insert w.systemFromMs w.version).entries
          = (docVersions ws c d).entries ++ [(w.systemFromMs, w.version)] :=
        SortedMap.insertList_of_forall_lt hlt
      rw [if_pos hof, hinsert, ih hbefore]
      simp [hof]
    · rw [if_neg hof, ih hbefore]
      simp [hof]

end

/-- The last version of a document that was written at or before a system time. -/
def lastVersionAt (ws : List DocWrite) (c d : String) (systemAsOfMs : Int) :
    Option DecodedVersion :=
  ((ws.filter (fun w => w.isOf c d ∧ w.systemFromMs ≤ systemAsOfMs)).getLast?).map DocWrite.version

lemma versionAt_of_increasing {ws : List DocWrite} (h : Increasing ws) (c d : String)
    (systemAsOfMs : Int) :
    versionAt (docVersions ws c d) systemAsOfMs = lastVersionAt ws c d systemAsOfMs := by
  have hfilter : ws.filter (fun w => w.isOf c d ∧ w.systemFromMs ≤ systemAsOfMs)
      = (ws.filter (DocWrite.isOf c d)).filter (fun w => w.systemFromMs ≤ systemAsOfMs) := by
    rw [List.filter_filter]
    apply List.filter_congr
    intro w _
    rw [Bool.decide_and, Bool.decide_eq_true, Bool.and_comm]
  unfold versionAt lastVersionAt
  rw [entries_of_increasing h, hfilter, ← List.head?_reverse, ← List.filter_reverse,
    List.head?_filter, ← List.map_reverse, List.find?_map, Option.map_map]
  rfl

/-- The answers of the reads. -/
structure HistoryAnswers (sp : DocSpaces) (ws : List DocWrite) (t : Tree) : Prop where
  asOf : ∀ c d, Named c d → ∀ systemAsOfMs validTimeMs,
    versionedGetAsOf sp t c d systemAsOfMs validTimeMs
      = .ok ((lastVersionAt ws c d systemAsOfMs).bind (shown validTimeMs))
  current : ∀ c d, Named c d →
    versionedGetCurrent sp t c d = versionedGetAsOf sp t c d i64Max none
  live : ∀ c, colon ∉ Bytes.ofString c → ((scanLiveDocuments sp t c).map Prod.fst).Nodup ∧
    ∀ id body, (id, body) ∈ scanLiveDocuments sp t c ↔ Named c id ∧
      ∃ v, versionedGetCurrent sp t c id = .ok (some v) ∧ v.body = body

/-- The storage with its history alone. -/
def withoutPointers (sp : DocSpaces) (t : Tree) : Tree :=
  t.filter (fun key _ => !underKey sp.latestVersion [] key)

/-- A backfill over the history alone comes to its end and gives the same current versions. -/
def RebuildsPointers (sp : DocSpaces) (t : Tree) (c : String) : Prop :=
  ∃ fuel t', backfillLatestVersion sp (withoutPointers sp t) c fuel = some (.ok t') ∧
    ∀ d, Named c d → versionedGetCurrent sp t' c d = versionedGetCurrent sp t c d

/-- The backfill of these pointers ends with an error. -/
def RefusesBackfill (sp : DocSpaces) (t : Tree) (c : String) : Prop :=
  ∃ fuel e, backfillLatestVersion sp (withoutPointers sp t) c fuel = some (.error e)

/-- The bytes of the history row of a write. -/
def DocWrite.rowBytes (w : DocWrite) : Nat :=
  Storage.rowBytes (rowOf w.collection w.docId (w.systemFromMs, w.version))

section
variable {sp : DocSpaces} {t : Tree} {ws : List DocWrite} {c d : String}

lemma getRows_withoutPointers (sp : DocSpaces) (t : Tree) (key : Bytes) :
    getRows (withoutPointers sp t) sp.documentHistory key = getRows t sp.documentHistory key ∧
      getRows (withoutPointers sp t) sp.latestVersion key = none := by
  unfold getRows withoutPointers
  rw [SortedMap.get_filter, SortedMap.get_filter]
  have hunder : ∀ ns, underKey sp.latestVersion [] (prefixKey ns key) = true ↔ sp.latestVersion = ns := by
    intro ns
    rw [underKey, List.isPrefixOf_iff_prefix, prefixKey, prefixKey, List.cons_prefix_cons]
    cases ns
    cases hns : sp.latestVersion
    simp
  constructor
  · have hno : underKey sp.latestVersion [] (prefixKey sp.documentHistory key) = false := by
      rw [← Bool.not_eq_true, hunder]
      exact fun heq => sp.ne heq.symm
    cases t.get (prefixKey sp.documentHistory key) <;> simp [hno]
  · have hyes := (hunder sp.latestVersion).mpr rfl
    cases t.get (prefixKey sp.latestVersion key) <;> simp [hyes]

lemma backfillLoop_mono {maxRecords maxBytes fuel : Nat} {s : BackfillState}
    {r : Except LiteError Tree} (h : backfillLoop sp c maxRecords maxBytes fuel s = some r)
    (more : Nat) : backfillLoop sp c maxRecords maxBytes (fuel + more) s = some r := by
  induction fuel generalizing s with
  | zero => cases h
  | succ fuel ih =>
    rw [Nat.add_right_comm]
    unfold backfillLoop at h ⊢
    split at h
    next => exact h
    next =>
      split at h
      next hnil =>
        rw [if_pos hnil]
        exact h
      next hnil =>
        rw [if_neg hnil]
        split at h
        next => exact h
        next => exact ih h

lemma get_of_newestVersion {s : Int} {v : DecodedVersion}
    (h : newestVersion (docVersions ws c d) = some (s, v)) :
    (docVersions ws c d).get s = some v :=
  SortedMap.get_eq_some_iff.mpr (List.mem_of_getLast? h)

/-- The pointer leads to the last write, when that is the newest version. -/
lemma Keeps.getCurrent (h : Keeps sp ws t) (hrise : Rising ws) (hn : Named c d) :
    versionedGetCurrent sp t c d
      = .ok ((newestVersion (docVersions ws c d)).bind (fun e => shown none e.2)) := by
  apply h.getCurrent_of_pointer hn (fun _ => rfl)
  · intro s v hnewest
    exact get_of_newestVersion hnewest
  · rw [h.pointer c d hn, newestVersion_of_rising hrise]
    cases lastOf ws c d <;> rfl

lemma Keeps.getLatest (h : Keeps sp ws t) (hn : Named c d) :
    versionedGetAsOf sp t c d i64Max none
      = .ok ((newestVersion (docVersions ws c d)).bind (fun e => shown none e.2)) := by
  rw [h.getAsOf hn, h.versionAt_max, Option.bind_map]
  rfl

lemma shown_none_eq_some {v u : DecodedVersion} : shown none v = some u ↔ v.isLive = true ∧ v = u := by
  unfold shown
  by_cases hlive : v.isLive = true
  · simp [hlive]
  · simp [hlive]

lemma Keeps.live_iff (h : Keeps sp ws t) (hc : colon ∉ Bytes.ofString c) {id : String}
    {body : Bytes} :
    (id, body) ∈ scanLiveDocuments sp t c ↔ Named c id ∧
      ∃ v, (newestVersion (docVersions ws c id)).bind (fun e => shown none e.2) = some v ∧
        v.body = body := by
  rw [(h.scanLive hc).2]
  constructor
  · rintro ⟨⟨s, v⟩, hnewest, hlive, rfl⟩
    refine ⟨(h.version (get_of_newestVersion hnewest)).1, v, ?_, rfl⟩
    rw [hnewest, Option.bind_some, shown_none_eq_some]
    exact ⟨hlive, rfl⟩
  · rintro ⟨_, v, hshown, rfl⟩
    obtain ⟨e, hnewest, hone⟩ := Option.bind_eq_some_iff.mp hshown
    obtain ⟨hlive, rfl⟩ := shown_none_eq_some.mp hone
    exact ⟨e, hnewest, hlive, rfl⟩

lemma Keeps.historyAnswers (h : Keeps sp ws t) (hinc : Increasing ws) : HistoryAnswers sp ws t := by
  constructor
  · intro c d hn systemAsOfMs validTimeMs
    rw [h.getAsOf hn, versionAt_of_increasing hinc]
  · intro c d hn
    rw [h.getCurrent hinc.rising hn, h.getLatest hn]
  · intro c hc
    refine ⟨(h.scanLive hc).1, ?_⟩
    intro id body
    rw [h.live_iff hc]
    constructor
    · rintro ⟨hn, v, hshown, hbody⟩
      exact ⟨hn, v, by rw [h.getCurrent hinc.rising hn, hshown], hbody⟩
    · rintro ⟨hn, v, hcurrent, hbody⟩
      rw [h.getCurrent hinc.rising hn] at hcurrent
      exact ⟨hn, v, Except.ok.inj hcurrent, hbody⟩

/-- A backfill over the history alone ends with the current version of each document its newest if
every row fits into a page, and with an error otherwise. -/
lemma Keeps.backfillAlone (h : Keeps sp ws t) (hc : colon ∉ Bytes.ofString c) :
    ((∀ d, ∀ e ∈ (docVersions ws c d).entries, rowBytes (rowOf c d e) ≤ 8 * 1024 * 1024) →
      ∃ fuel t', backfillLatestVersion sp (withoutPointers sp t) c fuel = some (.ok t') ∧
        ∀ d, Named c d → versionedGetCurrent sp t' c d
          = .ok ((newestVersion (docVersions ws c d)).bind (fun e => shown none e.2))) ∧
    ((∃ d, ∃ e ∈ (docVersions ws c d).entries, 8 * 1024 * 1024 < rowBytes (rowOf c d e)) →
      RefusesBackfill sp t c) := by
  have hhistory := fun key => (getRows_withoutPointers sp t key).1
  have hmax : 8 * 1024 * 1024 + (127 + 1) ≤ usizeMax := by
    unfold usizeMax
    norm_num
  constructor
  · intro hfits
    obtain ⟨t', hrun, hsame, hpointer⟩ :=
      (h.backfill hc hhistory hmax (Nat.lt_succ_self _)).1 hfits
    refine ⟨_, t', hrun, ?_⟩
    intro d hn
    apply h.getCurrent_of_pointer hn hsame
    · intro s v hnewest
      exact get_of_newestVersion hnewest
    · rw [hpointer d hn]
      cases newestVersion (docVersions ws c d) with
      | none => exact (getRows_withoutPointers sp t _).2
      | some e => rfl
  · intro hlarge
    obtain ⟨e, herror⟩ := (h.backfill hc hhistory hmax (Nat.lt_succ_self _)).2 hlarge
    exact ⟨_, e, herror⟩

end

lemma RefusesBackfill.not_rebuilds {sp : DocSpaces} {t : Tree} {c : String}
    (h : RefusesBackfill sp t c) : ¬ RebuildsPointers sp t c := by
  rintro ⟨fuel, t', hends, _⟩
  obtain ⟨fuel', e, hfails⟩ := h
  have hmore := backfillLoop_mono hends fuel'
  have hless := backfillLoop_mono hfails fuel
  rw [Nat.add_comm, hmore] at hless
  cases hless

/-- After any writes with increasing times the reads answer as they should; the pointers of a
collection are rebuilt if each of its rows fits into a page, and otherwise the backfill fails. -/
theorem history_answers_rebuilds_iff (sp : DocSpaces) {ws : List DocWrite}
    (hproper : ∀ w ∈ ws, w.Proper) (hinc : Increasing ws) :
    ∃ t, docRun sp ws = .ok t ∧ HistoryAnswers sp ws t ∧
      ∀ c, colon ∉ Bytes.ofString c →
        (RebuildsPointers sp t c ↔ ∀ w ∈ ws, w.collection = c → w.rowBytes ≤ 8 * 1024 * 1024) ∧
        (¬ RebuildsPointers sp t c → RefusesBackfill sp t c) := by
  obtain ⟨t, hrun, hkeeps⟩ := keeps_docRun sp hproper
  refine ⟨t, hrun, hkeeps.historyAnswers hinc, ?_⟩
  intro c hc
  obtain ⟨hends, hfails⟩ := hkeeps.backfillAlone hc
  have hrefuses : ∀ w ∈ ws, w.collection = c → 8 * 1024 * 1024 < w.rowBytes →
      RefusesBackfill sp t c := by
    rintro w hw rfl hlarge
    refine hfails ⟨w.docId, (w.systemFromMs, w.version), ?_, hlarge⟩
    rw [entries_of_increasing hinc]
    exact List.mem_map.mpr ⟨w, List.mem_filter.mpr ⟨hw, isOf_self w⟩, rfl⟩
  have hrebuilds : (∀ w ∈ ws, w.collection = c → w.rowBytes ≤ 8 * 1024 * 1024) →
      RebuildsPointers sp t c := by
    intro hfits
    have hall : ∀ d, ∀ e ∈ (docVersions ws c d).entries,
        rowBytes (rowOf c d e) ≤ 8 * 1024 * 1024 := by
      intro d e he
      rw [entries_of_increasing hinc] at he
      obtain ⟨w, hmem, rfl⟩ := List.mem_map.mp he
      obtain ⟨hw, hof⟩ := List.mem_filter.mp hmem
      obtain ⟨rfl, rfl⟩ := isOf_iff.mp hof
      exact hfits w hw rfl
    obtain ⟨fuel, t', hbackfill, hcurrent⟩ := hends hall
    refine ⟨fuel, t', hbackfill, ?_⟩
    intro d hn
    rw [hcurrent d hn, hkeeps.getCurrent hinc.rising hn]
  constructor
  · refine ⟨?_, hrebuilds⟩
    intro h w hw hof
    by_contra hlarge
    exact (hrefuses w hw hof (not_le.mp hlarge)).not_rebuilds h
  · intro hnot
    by_contra hends
    refine hnot (hrebuilds fun w hw hof => ?_)
    by_contra hlarge
    exact hends (hrefuses w hw hof (not_le.mp hlarge))

def docSpaces : DocSpaces := ⟨⟨1, by decide⟩, ⟨2, by decide⟩, by decide⟩

/-- A document that is written, deleted and written again, next to another. -/
def rewritten : List DocWrite :=
  [⟨"c", "a", 10, .put [1] none none⟩, ⟨"c", "ab", 15, .put [2] none none⟩,
    ⟨"c", "a", 20, .tombstone none⟩, ⟨"c", "a", 30, .put [3] (some 25) (some 40)⟩]

lemma all_ne_iff {x : UInt8} {bytes : Bytes} : bytes.all (· ≠ x) = true ↔ x ∉ bytes := by
  simp only [List.all_eq_true, decide_eq_true_iff]
  exact ⟨fun h hx => h x hx rfl, fun h b hb heq => h (heq ▸ hb)⟩

lemma proper_iff {w : DocWrite} : w.Proper ↔ ((Bytes.ofString w.collection).all (· ≠ colon) = true ∧
    (Bytes.ofString w.docId).all (· ≠ 0) = true) ∧
    (0 ≤ w.systemFromMs ∧ w.systemFromMs ≤ i64Max) ∧
    (-2 ^ 63 ≤ w.version.validFromMs ∧ w.version.validFromMs ≤ i64Max) ∧
    -2 ^ 63 ≤ w.version.validUntilMs ∧ w.version.validUntilMs ≤ i64Max := by
  rw [all_ne_iff, all_ne_iff]
  constructor
  · rintro ⟨⟨hc, hd⟩, htime, htyped⟩
    exact ⟨⟨hc, hd⟩, htime, htyped⟩
  · rintro ⟨⟨hc, hd⟩, htime, htyped⟩
    exact ⟨⟨hc, hd⟩, htime, htyped⟩

instance (w : DocWrite) : Decidable w.Proper := decidable_of_iff _ proper_iff.symm

lemma rewritten_proper : ∀ w ∈ rewritten, w.Proper := by decide +kernel

lemma rewritten_increasing : Increasing rewritten := by
  unfold Increasing
  decide +kernel

/-- The pointers of these documents can be rebuilt. -/
theorem history_answers_rewritten : ∃ t, docRun docSpaces rewritten = .ok t ∧
    HistoryAnswers docSpaces rewritten t ∧ RebuildsPointers docSpaces t "c" := by
  obtain ⟨t, hrun, hanswers, hrebuilds⟩ :=
    history_answers_rebuilds_iff docSpaces rewritten_proper rewritten_increasing
  refine ⟨t, hrun, hanswers, (hrebuilds "c" (by decide +kernel)).1.mpr ?_⟩
  decide +kernel

/-- A document with this body. -/
def putBody (body : Bytes) : DocWrite := ⟨"c", "a", 10, .put body none none⟩

lemma putBody_proper (body : Bytes) : (putBody body).Proper := by
  have hname : Named "c" "a" := ⟨by decide +kernel, by decide +kernel⟩
  have htime : InEpoch 10 := by
    unfold InEpoch i64Max
    omega
  have htyped : InI64 10 ∧ InI64 i64Max := by
    unfold InI64 i64Max
    omega
  exact ⟨hname, htime, htyped⟩

lemma not_rebuilds_putBody {body : Bytes} (hlarge : 8 * 1024 * 1024 ≤ body.length) :
    ∃ t, docRun docSpaces [putBody body] = .ok t ∧ ¬ RebuildsPointers docSpaces t "c" := by
  have hall : ∀ w ∈ [putBody body], w.Proper :=
    fun w hw => List.mem_singleton.mp hw ▸ putBody_proper body
  obtain ⟨t, hrun, hkeeps⟩ := keeps_docRun docSpaces hall
  refine ⟨t, hrun, RefusesBackfill.not_rebuilds ?_⟩
  have hentry : (10, (putBody body).version) ∈ (docVersions [putBody body] "c" "a").entries := by
    rw [entries_of_increasing (List.pairwise_singleton ..)]
    exact List.mem_cons_self
  refine (hkeeps.backfillAlone (by decide +kernel)).2 ⟨"a", _, hentry, ?_⟩
  have hvalue : (encodeValue (putBody body).version).length = 17 + body.length := by
    simp [encodeValue, putBody, DocWrite.version, i64ToBytes]
    omega
  unfold rowBytes rowOf
  dsimp only
  omega

/-- The row of a document of eight mebibytes is refused by the scan, and its pointer is not
rebuilt. -/
theorem large_document_not_rebuilt : (putBody (List.replicate (8 * 1024 * 1024) 0)).Proper ∧
    ∃ t, docRun docSpaces [putBody (List.replicate (8 * 1024 * 1024) 0)] = .ok t ∧
      ¬ RebuildsPointers docSpaces t "c" :=
  ⟨putBody_proper _, not_rebuilds_putBody List.length_replicate.ge⟩

end NodedbLite.Document
