import NodedbLite.DocVersions

/-! The reads of versioned documents in terms of their versions: an as-of read shows the version
with the highest time up to the one asked for, and the scan of live documents the one with the
highest time of all. -/
namespace NodedbLite.Document

open Storage

/-- The version shown at a system time: the last one written up to it in the order of times. -/
def versionAt (m : SortedMap Int DecodedVersion) (systemAsOfMs : Int) : Option DecodedVersion :=
  (m.entries.reverse.find? (fun e => e.1 ≤ systemAsOfMs)).map Prod.snd

/-- A live version, if it covers the valid time asked for. -/
def shown (validTimeMs : Option Int) (v : DecodedVersion) : Option DecodedVersion :=
  if v.isLive ∧ validTimeMs.all (fun vt => v.validFromMs ≤ vt ∧ vt < v.validUntilMs) then some v
  else none

/-- The version with the highest time. -/
def newestVersion (m : SortedMap Int DecodedVersion) : Option (Int × DecodedVersion) :=
  m.entries.getLast?

/-- The row of a version. -/
def rowOf (c d : String) (e : Int × DecodedVersion) : KvPair :=
  (historyKey c d e.1, encodeValue e.2)

variable {sp : DocSpaces} {t : Tree} {ws : List DocWrite} {c d : String}

lemma Keeps.entry (h : Keeps sp ws t) {e : Int × DecodedVersion}
    (he : e ∈ (docVersions ws c d).entries) : Named c d ∧ InEpoch e.1 ∧ e.2.Typed :=
  h.version (SortedMap.get_eq_some_iff.mpr he)

/-- The rows under a document's prefix are its versions in the order of their times. -/
lemma Keeps.docRows (h : Keeps sp ws t) (hn : Named c d) :
    scanPrefixRows t sp.documentHistory (docPrefix c d)
      = (docVersions ws c d).entries.map (rowOf c d) := by
  apply eq_of_sorted (scanPrefixRows_sorted ..)
  · rw [List.pairwise_map]
    apply (docVersions ws c d).sorted.imp_of_mem
    intro a b ha hb hlt
    exact (historyKey_lt_iff c d (h.entry ha).2.1 (h.entry hb).2.1).mpr hlt
  · rintro ⟨key, value⟩
    rw [mem_scanPrefixRows, h.history, List.mem_map]
    constructor
    · rintro ⟨⟨c', d', s, v, hget, rfl, rfl⟩, hp⟩
      obtain ⟨rfl, rfl⟩ := (docPrefix_isPrefix_iff hn (h.version hget).1).mp hp
      exact ⟨(s, v), SortedMap.get_eq_some_iff.mp hget, rfl⟩
    · rintro ⟨⟨s, v⟩, he, heq⟩
      obtain ⟨rfl, rfl⟩ := Prod.mk.inj heq
      exact ⟨⟨c, d, s, v, SortedMap.get_eq_some_iff.mpr he, rfl, rfl⟩, List.prefix_append ..⟩

lemma visibleAt_eq (systemAsOfMs : Int) (validTimeMs : Option Int)
    {l : List (Int × DecodedVersion)} (hl : ∀ e ∈ l, InEpoch e.1 ∧ e.2.Typed) :
    visibleAt systemAsOfMs validTimeMs (l.map (rowOf c d))
      = .ok ((l.find? (fun e => e.1 ≤ systemAsOfMs)).bind (fun e => shown validTimeMs e.2)) := by
  induction l with
  | nil => rfl
  | cons e l ih =>
    obtain ⟨htime, htyped⟩ := hl e List.mem_cons_self
    rw [List.map_cons, rowOf, visibleAt, decodeValue_encodeValue htyped,
      parseSysFrom_historyKey c d htime.inI64]
    change (if systemAsOfMs < e.1 then _ else _) = _
    by_cases hlate : systemAsOfMs < e.1
    · rw [if_pos hlate, List.find?_cons_of_neg (by simpa using hlate)]
      exact ih (fun f hf => hl f (List.mem_cons_of_mem _ hf))
    · rw [if_neg hlate, List.find?_cons_of_pos (by simpa using hlate), Option.bind_some]
      unfold shown DecodedVersion.isLive
      by_cases hlive : e.2.tag = .live
      · rw [if_neg (not_not.mpr hlive)]
        cases validTimeMs with
        | none => simp [hlive]
        | some vt =>
          by_cases hcovers : e.2.validFromMs ≤ vt ∧ vt < e.2.validUntilMs
          · have hin : ¬ (decide (vt < e.2.validFromMs) || decide (e.2.validUntilMs ≤ vt)) = true := by
              simp [hcovers.1, hcovers.2]
            rw [Option.any_some, if_neg hin]
            simp [hlive, hcovers]
          · have hout : (decide (vt < e.2.validFromMs) || decide (e.2.validUntilMs ≤ vt)) = true := by
              simp only [Bool.or_eq_true, decide_eq_true_eq]
              omega
            rw [Option.any_some, if_pos hout]
            simp [hcovers]
      · rw [if_pos hlive]
        simp [hlive]

lemma Keeps.getAsOf (h : Keeps sp ws t) (hn : Named c d) (systemAsOfMs : Int)
    (validTimeMs : Option Int) :
    versionedGetAsOf sp t c d systemAsOfMs validTimeMs
      = .ok ((versionAt (docVersions ws c d) systemAsOfMs).bind (shown validTimeMs)) := by
  unfold versionedGetAsOf versionAt
  rw [h.docRows hn, ← List.map_reverse, visibleAt_eq]
  · rw [Option.bind_map]
    rfl
  · intro e he
    exact (h.entry (List.mem_reverse.mp he)).2

lemma Keeps.versionAt_max (h : Keeps sp ws t) :
    versionAt (docVersions ws c d) i64Max = (newestVersion (docVersions ws c d)).map Prod.snd := by
  unfold versionAt newestVersion
  congr 1
  rw [← List.head?_reverse]
  cases hrev : (docVersions ws c d).entries.reverse with
  | nil => rfl
  | cons e rest =>
    have hmem : e ∈ (docVersions ws c d).entries :=
      List.mem_reverse.mp (hrev ▸ List.mem_cons_self)
    rw [List.find?_cons_of_pos (by simpa using (h.entry hmem).2.1.2)]
    rfl

lemma trim_eq_self {text : String} (h : ∀ c ∈ text.toList, isWhitespace c = false) :
    trim text = text := by
  have hdrop : ∀ l : List Char, (∀ c ∈ l, isWhitespace c = false) →
      l.dropWhile isWhitespace = l := by
    intro l hl
    cases l with
    | nil => rfl
    | cons c l => rw [List.dropWhile_cons_of_neg (by simp [hl c List.mem_cons_self])]
  unfold trim
  rw [hdrop _ h, hdrop _ (fun c hc => h c (List.mem_reverse.mp hc)), List.reverse_reverse,
    String.ofList_toList]

lemma formatSysFrom_text (s : Int) : ∃ text, Bytes.toString? (formatSysFrom s) = some text ∧
    Bytes.ofString (trim text) = formatSysFrom s := by
  have hbounds : ∀ b ∈ formatSysFrom s, 45 ≤ b ∧ b ≤ 57 :=
    fun b hb => Digits.bounds_of_mem_encodeSigned hb
  obtain ⟨text, htext⟩ := Bytes.exists_toString?_of_lt
    (fun b hb => lt_of_le_of_lt (hbounds b hb).2 (by decide))
  have hbytes := Bytes.ofString_of_toString? htext
  refine ⟨text, htext, ?_⟩
  rw [trim_eq_self, hbytes]
  -- every white space has a byte that no digit and no sign has
  intro c hc
  rw [Bool.eq_false_iff]
  intro hspace
  obtain ⟨b, hb, hout⟩ := (by decide +kernel : ∀ n ∈ whiteSpace,
    ∃ b ∈ String.utf8EncodeChar (Char.ofNat n), ¬ (45 ≤ b ∧ b ≤ 57)) _ (of_decide_eq_true hspace)
  rw [Char.ofNat_toNat] at hb
  refine hout (hbounds b ?_)
  rw [← hbytes, ← String.ofList_toList (s := text), Bytes.ofString_ofList]
  exact List.mem_flatMap.mpr ⟨c, hc, hb⟩

lemma Keeps.getCurrent_of_pointer (h : Keeps sp ws t) (hn : Named c d) {t' : Tree}
    (hhistory : ∀ key, getRows t' sp.documentHistory key = getRows t sp.documentHistory key)
    {e : Option (Int × DecodedVersion)}
    (he : ∀ s v, e = some (s, v) → (docVersions ws c d).get s = some v)
    (hpointer : getRows t' sp.latestVersion (latestVersionKey c d)
      = e.bind (fun e => if e.2.isLive then some (formatSysFrom e.1) else none)) :
    versionedGetCurrent sp t' c d = .ok (e.bind (fun e => shown none e.2)) := by
  unfold versionedGetCurrent
  rw [hpointer]
  cases e with
  | none => rfl
  | some e =>
    obtain ⟨s, v⟩ := e
    have hget := he s v rfl
    obtain ⟨_, htime, htyped⟩ := h.version hget
    rw [Option.bind_some, Option.bind_some]
    by_cases hlive : v.isLive = true
    · have hrow : getRows t' sp.documentHistory (historyKey c d s) = some (encodeValue v) := by
        rw [hhistory, h.history]
        exact ⟨c, d, s, v, hget, rfl, rfl⟩
      obtain ⟨text, htext, htrim⟩ := formatSysFrom_text s
      dsimp only
      rw [if_pos hlive]
      dsimp only
      rw [htext]
      dsimp only
      rw [htrim, decode_formatSysFrom htime.inI64]
      dsimp only
      rw [versionedDocKey_eq hn.docId]
      simp only [bind, Except.bind]
      rw [hrow]
      dsimp only
      rw [decodeValue_encodeValue htyped]
      simp [shown, hlive]
    · simp [hlive, shown]

lemma Keeps.mem_collRows (h : Keeps sp ws t) (hc : colon ∉ Bytes.ofString c) {row : KvPair} :
    row ∈ scanPrefixRows t sp.documentHistory (collPrefix c) ↔
      ∃ d, ∃ e ∈ (docVersions ws c d).entries, row = rowOf c d e := by
  obtain ⟨key, value⟩ := row
  rw [mem_scanPrefixRows, h.history]
  constructor
  · rintro ⟨⟨c', d, s, v, hget, rfl, rfl⟩, hp⟩
    have hn := (h.version hget).1
    obtain rfl := (collPrefix_isPrefix_iff ⟨hc, hn.docId⟩ hn).mp hp
    exact ⟨d, (s, v), SortedMap.get_eq_some_iff.mp hget, rfl⟩
  · rintro ⟨d, ⟨s, v⟩, he, heq⟩
    obtain ⟨rfl, rfl⟩ := Prod.mk.inj heq
    have hget := SortedMap.get_eq_some_iff.mpr he
    have hn := (h.version hget).1
    exact ⟨⟨c, d, s, v, hget, rfl, rfl⟩, (collPrefix_isPrefix_iff hn hn).mpr rfl⟩

lemma filter_filterMap_eq {α β : Type*} {f : α → Option β} {p : β → Bool} {q : α → Bool}
    {l : List α} (h : ∀ a ∈ l, ∃ b, f a = some b ∧ p b = q a) :
    (l.filterMap f).filter p = (l.filter q).filterMap f := by
  induction l with
  | nil => rfl
  | cons a l ih =>
    obtain ⟨b, hb, hpq⟩ := h a List.mem_cons_self
    have hrest := ih (fun x hx => h x (List.mem_cons_of_mem _ hx))
    rw [List.filterMap_cons_some hb, List.filter_cons, List.filter_cons, hpq]
    split
    next => rw [List.filterMap_cons_some hb, hrest]
    next => exact hrest

lemma Keeps.filter_collRows {α : Type} (h : Keeps sp ws t) (hc : colon ∉ Bytes.ofString c)
    {f : KvPair → Option (String × α)} {g : Int × DecodedVersion → α}
    (hf : ∀ d, ∀ e ∈ (docVersions ws c d).entries, f (rowOf c d e) = some (d, g e)) (d : String) :
    ((scanPrefixRows t sp.documentHistory (collPrefix c)).filterMap f).filter (fun r => r.1 = d)
      = (docVersions ws c d).entries.map (fun e => (d, g e)) := by
  have hid : ∀ d', ∀ e ∈ (docVersions ws c d').entries,
      idOfKey (collPrefix c) (rowOf c d' e).1 = some d' :=
    fun d' e he => idOfKey_historyKey (h.entry he).1.docId e.1
  have hrows : (scanPrefixRows t sp.documentHistory (collPrefix c)).filter
      (fun row => idOfKey (collPrefix c) row.1 = some d)
        = (docVersions ws c d).entries.map (rowOf c d) := by
    apply eq_of_sorted ((scanPrefixRows_sorted ..).filter _)
    · rw [List.pairwise_map]
      apply (docVersions ws c d).sorted.imp_of_mem
      intro a b ha hb hlt
      exact (historyKey_lt_iff c d (h.entry ha).2.1 (h.entry hb).2.1).mpr hlt
    · intro row
      rw [List.mem_filter, h.mem_collRows hc, List.mem_map, decide_eq_true_eq]
      constructor
      · rintro ⟨⟨d', e, he, rfl⟩, hsome⟩
        rw [hid d' e he] at hsome
        obtain rfl := Option.some.inj hsome
        exact ⟨e, he, rfl⟩
      · rintro ⟨e, he, rfl⟩
        exact ⟨⟨d, e, he, rfl⟩, hid d e he⟩
  rw [filter_filterMap_eq (q := fun row => idOfKey (collPrefix c) row.1 = some d), hrows,
    List.filterMap_map]
  · rw [← List.filterMap_eq_map]
    apply List.filterMap_congr
    intro e he
    exact hf d e he
  · intro row hrow
    obtain ⟨d', e, he, rfl⟩ := (h.mem_collRows hc).mp hrow
    refine ⟨_, hf d' e he, ?_⟩
    rw [hid d' e he]
    simp

lemma get_foldl_insert {K V : Type*} [LinearOrder K] (l : List (K × V)) (k : K) :
    (l.foldl (fun m e => m.insert e.1 e.2) SortedMap.empty).get k
      = ((l.filter (fun e => e.1 = k)).getLast?).map Prod.snd := by
  induction l using List.reverseRecOn with
  | nil => rfl
  | append_singleton l e ih =>
    rw [List.foldl_append, List.foldl_cons, List.foldl_nil, SortedMap.get_insert, ih,
      List.filter_append]
    by_cases hk : k = e.1
    · simp [hk]
    · simp [hk, Ne.symm hk]

lemma Keeps.liveEntry (h : Keeps sp ws t) {e : Int × DecodedVersion}
    (he : e ∈ (docVersions ws c d).entries) :
    Document.liveEntry (collPrefix c) (rowOf c d e) = some (d, e.2.tag, e.2.body) := by
  obtain ⟨hn, _, htyped⟩ := h.entry he
  unfold Document.liveEntry
  rw [rowOf, idOfKey_historyKey hn.docId, decodeValue_encodeValue htyped]
  rfl

/-- The scan lists the documents whose newest version is live, each once. -/
lemma Keeps.scanLive (h : Keeps sp ws t) (hc : colon ∉ Bytes.ofString c) :
    ((scanLiveDocuments sp t c).map Prod.fst).Nodup ∧
      ∀ id body, (id, body) ∈ scanLiveDocuments sp t c ↔ ∃ e,
        newestVersion (docVersions ws c id) = some e ∧ e.2.isLive = true ∧ e.2.body = body := by
  have hget : ∀ id, (((scanPrefixRows t sp.documentHistory (collPrefix c)).filterMap
      (Document.liveEntry (collPrefix c))).foldl (fun m e => m.insert e.1 e.2)
        (SortedMap.empty : SortedMap String (VersionTag × Bytes))).get id
      = (newestVersion (docVersions ws c id)).map (fun e => (e.2.tag, e.2.body)) := by
    intro id
    rw [get_foldl_insert, h.filter_collRows hc (fun d e he => h.liveEntry he) id, newestVersion,
      List.getLast?_map, Option.map_map]
    rfl
  unfold scanLiveDocuments
  dsimp only
  generalize ((scanPrefixRows t sp.documentHistory (collPrefix c)).filterMap
    (Document.liveEntry (collPrefix c))).foldl (fun m e => m.insert e.1 e.2)
      (SortedMap.empty : SortedMap String (VersionTag × Bytes)) = latest at hget ⊢
  constructor
  · rw [List.map_map]
    exact latest.keys_nodup.sublist (List.filter_sublist.map _)
  · intro id body
    rw [List.mem_map]
    constructor
    · rintro ⟨⟨id', tag, body'⟩, hmem, heq⟩
      obtain ⟨rfl, rfl⟩ := Prod.mk.inj heq
      obtain ⟨hentry, hlive⟩ := List.mem_filter.mp hmem
      have hsome := SortedMap.get_eq_some_iff.mpr hentry
      rw [hget] at hsome
      obtain ⟨e, he, hpair⟩ := Option.map_eq_some_iff.mp hsome
      obtain ⟨rfl, rfl⟩ := Prod.mk.inj hpair
      exact ⟨e, he, by simpa [DecodedVersion.isLive] using hlive, rfl⟩
    · rintro ⟨e, he, hlive, rfl⟩
      refine ⟨(id, e.2.tag, e.2.body), List.mem_filter.mpr ⟨?_, ?_⟩, rfl⟩
      · rw [← SortedMap.get_eq_some_iff, hget, he]
        rfl
      · simpa [DecodedVersion.isLive] using hlive

end NodedbLite.Document
