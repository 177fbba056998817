import NodedbLite.DocKeys
import NodedbLite.StorageViews

/-! What a sequence of versioned writes leaves in storage. A document is a map from system times to
versions; the pointer row follows the last write. -/
namespace NodedbLite.Document

open Storage

inductive DocChange
  | put (body : Bytes) (validFromMs validUntilMs : Option Int)
  | tombstone (validFromMs : Option Int)
  deriving DecidableEq

structure DocWrite where
  collection : String
  docId : String
  systemFromMs : Int
  change : DocChange
  deriving DecidableEq

namespace DocWrite

/-- The version a write adds. -/
def version (w : DocWrite) : DecodedVersion :=
  match w.change with
  | .put body validFromMs validUntilMs =>
    ⟨.live, validFromMs.getD w.systemFromMs, validUntilMs.getD i64Max, body⟩
  | .tombstone validFromMs => ⟨.tombstone, validFromMs.getD w.systemFromMs, i64Max, []⟩

/-- The call that makes the write. -/
def run (sp : DocSpaces) (t : Tree) (w : DocWrite) : Except LiteError Tree :=
  match w.change with
  | .put body validFromMs validUntilMs =>
    versionedPut sp t w.collection w.docId body w.systemFromMs validFromMs validUntilMs
  | .tombstone validFromMs =>
    versionedTombstone sp t w.collection w.docId w.systemFromMs validFromMs

/-- Names without separators, and times that are not before the epoch or, where they are valid
times, any `i64`. -/
structure Proper (w : DocWrite) : Prop where
  named : Named w.collection w.docId
  time : InEpoch w.systemFromMs
  typed : w.version.Typed

/-- The write is of this document. -/
def isOf (collection docId : String) (w : DocWrite) : Bool :=
  w.collection = collection ∧ w.docId = docId

/-- The pointer a write leaves. -/
def pointer (w : DocWrite) : Option Bytes :=
  if w.version.isLive then some (formatSysFrom w.systemFromMs) else none

end DocWrite

/-- The versions of a document by their times. -/
def docVersions (ws : List DocWrite) (collection docId : String) : SortedMap Int DecodedVersion :=
  (ws.filter (DocWrite.isOf collection docId)).foldl
    (fun m w => m.insert w.systemFromMs w.version) .empty

/-- The last write of a document. -/
def lastOf (ws : List DocWrite) (collection docId : String) : Option DocWrite :=
  (ws.filter (DocWrite.isOf collection docId)).getLast?

/-- Storage after the writes. -/
def docRun (sp : DocSpaces) (ws : List DocWrite) : Except LiteError Tree :=
  ws.foldlM (DocWrite.run sp) .empty

section
variable {ws : List DocWrite} {w : DocWrite} {c d : String}

lemma docVersions_concat (ws : List DocWrite) (w : DocWrite) (c d : String) :
    docVersions (ws ++ [w]) c d = if w.isOf c d then
      (docVersions ws c d).insert w.systemFromMs w.version else docVersions ws c d := by
  unfold docVersions
  rw [List.filter_append]
  cases hof : w.isOf c d with
  | true => simp [hof]
  | false => simp [hof]

lemma lastOf_concat (ws : List DocWrite) (w : DocWrite) (c d : String) :
    lastOf (ws ++ [w]) c d = if w.isOf c d then some w else lastOf ws c d := by
  unfold lastOf
  rw [List.filter_append]
  cases hof : w.isOf c d with
  | true => simp [hof]
  | false => simp [hof]

lemma isOf_iff : w.isOf c d = true ↔ w.collection = c ∧ w.docId = d := by
  simp [DocWrite.isOf]

lemma isOf_self (w : DocWrite) : w.isOf w.collection w.docId = true := isOf_iff.mpr ⟨rfl, rfl⟩

lemma exists_write_of_get {s : Int} {v : DecodedVersion}
    (h : (docVersions ws c d).get s = some v) :
    ∃ w ∈ ws, w.isOf c d = true ∧ w.systemFromMs = s ∧ w.version = v := by
  induction ws using List.reverseRecOn with
  | nil => cases h
  | append_singleton ws w ih =>
    rw [docVersions_concat] at h
    by_cases hof : w.isOf c d = true
    · rw [if_pos hof, SortedMap.get_insert] at h
      split at h
      next heq =>
        exact ⟨w, List.mem_append_right _ List.mem_cons_self, hof, heq.symm, Option.some.inj h⟩
      next =>
        obtain ⟨u, hu, hrest⟩ := ih h
        exact ⟨u, List.mem_append_left _ hu, hrest⟩
    · rw [if_neg hof] at h
      obtain ⟨u, hu, hrest⟩ := ih h
      exact ⟨u, List.mem_append_left _ hu, hrest⟩

lemma get_isSome_of_mem {u : DocWrite} (hu : u ∈ ws) (hof : u.isOf c d = true) :
    ((docVersions ws c d).get u.systemFromMs).isSome = true := by
  induction ws using List.reverseRecOn with
  | nil => cases hu
  | append_singleton ws w ih =>
    rw [docVersions_concat]
    rcases List.mem_append.mp hu with hu | hu
    · split
      next =>
        rw [SortedMap.get_insert]
        split
        next => rfl
        next => exact ih hu
      next => exact ih hu
    · rw [List.mem_singleton.mp hu] at hof ⊢
      rw [if_pos hof, SortedMap.get_insert, if_pos rfl]
      rfl

end

variable {sp : DocSpaces} {t : Tree}

/-- The storage holds the versions of all documents, and each pointer is the last write's. -/
structure Keeps (sp : DocSpaces) (ws : List DocWrite) (t : Tree) : Prop where
  proper : ∀ w ∈ ws, w.Proper
  history : ∀ key value, getRows t sp.documentHistory key = some value ↔ ∃ c d s v,
    (docVersions ws c d).get s = some v ∧ key = historyKey c d s ∧ value = encodeValue v
  pointer : ∀ c d, Named c d →
    getRows t sp.latestVersion (latestVersionKey c d) = (lastOf ws c d).bind DocWrite.pointer

section
variable {ws : List DocWrite} {w : DocWrite} {c d : String} {s : Int} {v : DecodedVersion}

lemma Keeps.version (h : Keeps sp ws t) (hget : (docVersions ws c d).get s = some v) :
    Named c d ∧ InEpoch s ∧ v.Typed := by
  obtain ⟨w, hw, hof, rfl, rfl⟩ := exists_write_of_get hget
  obtain ⟨rfl, rfl⟩ := isOf_iff.mp hof
  have hproper := h.proper w hw
  exact ⟨hproper.named, hproper.time, hproper.typed⟩

lemma keeps_empty (sp : DocSpaces) : Keeps sp [] .empty := by
  constructor
  · intro w hw
    cases hw
  · intro key value
    constructor
    · intro h
      cases h
    · rintro ⟨c, d, s, v, h, _⟩
      cases h
  · intro c d _
    rfl

/-- The write of the pointer row. -/
def DocWrite.pointerWrite (sp : DocSpaces) (w : DocWrite) : WriteOp :=
  match w.pointer with
  | some value => .put sp.latestVersion (latestVersionKey w.collection w.docId) value
  | none => .delete sp.latestVersion (latestVersionKey w.collection w.docId)

lemma composite_pointerWrite (sp : DocSpaces) (w : DocWrite) :
    (w.pointerWrite sp).composite.key
        = prefixKey sp.latestVersion (latestVersionKey w.collection w.docId) ∧
      (w.pointerWrite sp).composite.value = w.pointer := by
  unfold DocWrite.pointerWrite
  cases w.pointer with
  | none => exact ⟨rfl, rfl⟩
  | some value => exact ⟨rfl, rfl⟩

lemma run_eq_batch (h : w.Proper) (t : Tree) :
    w.run sp t = .ok (batchWriteRows t
      [.put sp.documentHistory (historyKey w.collection w.docId w.systemFromMs)
        (encodeValue w.version), w.pointerWrite sp]) := by
  have hkey := @versionedDocKey_eq w.collection _ h.named.docId w.systemFromMs
  obtain ⟨c, d, s, change⟩ := w
  cases change with
  | put body validFromMs validUntilMs =>
    dsimp only [DocWrite.run, versionedPut]
    rw [hkey]
    rfl
  | tombstone validFromMs =>
    dsimp only [DocWrite.run, versionedTombstone]
    rw [hkey]
    rfl

lemma run_eq (h : w.Proper) (t : Tree) :
    ∃ t', w.run sp t = .ok t' ∧
      (∀ key, getRows t' sp.documentHistory key
        = if key = historyKey w.collection w.docId w.systemFromMs then some (encodeValue w.version)
          else getRows t sp.documentHistory key) ∧
      ∀ key, getRows t' sp.latestVersion key
        = if key = latestVersionKey w.collection w.docId then w.pointer
          else getRows t sp.latestVersion key := by
  obtain ⟨hptr, hvalue⟩ := composite_pointerWrite sp w
  have hlast : ∀ ns key, SortedMap.lastWrite ([.put sp.documentHistory
      (historyKey w.collection w.docId w.systemFromMs) (encodeValue w.version),
      w.pointerWrite sp].map WriteOp.composite) (prefixKey ns key)
      = if sp.latestVersion = ns ∧ latestVersionKey w.collection w.docId = key then some w.pointer
        else if sp.documentHistory = ns ∧
          historyKey w.collection w.docId w.systemFromMs = key then
            some (some (encodeValue w.version)) else none := by
    intro ns key
    simp only [List.map_cons, List.map_nil, SortedMap.lastWrite, List.foldl_cons, List.foldl_nil,
      hptr, hvalue, prefixKey_inj]
    simp only [WriteOp.composite, SortedMap.Write.key, SortedMap.Write.value, prefixKey_inj]
  refine ⟨_, run_eq_batch h t, ?_, ?_⟩
  · intro key
    rw [getRows_batchWriteRows, hlast, if_neg (fun hboth => sp.ne hboth.1.symm)]
    by_cases heq : key = historyKey w.collection w.docId w.systemFromMs
    · rw [if_pos ⟨rfl, heq.symm⟩, if_pos heq]
      rfl
    · rw [if_neg (fun hboth => heq hboth.2.symm), if_neg heq]
      rfl
  · intro key
    rw [getRows_batchWriteRows, hlast]
    by_cases heq : key = latestVersionKey w.collection w.docId
    · rw [if_pos ⟨rfl, heq.symm⟩, if_pos heq]
      rfl
    · rw [if_neg (fun hboth => heq hboth.2.symm), if_neg (fun hboth => sp.ne hboth.1), if_neg heq]
      rfl

lemma Keeps.run (h : Keeps sp ws t) (hw : w.Proper) :
    ∃ t', w.run sp t = .ok t' ∧ Keeps sp (ws ++ [w]) t' := by
  obtain ⟨t', hrun, hhistory, hpointer⟩ := @run_eq sp w hw t
  refine ⟨t', hrun, ?_, ?_, ?_⟩
  · intro u hu
    rcases List.mem_append.mp hu with hu | hu
    · exact h.proper u hu
    · rw [List.mem_singleton.mp hu]
      exact hw
  · intro key value
    rw [hhistory]
    have hself : (docVersions (ws ++ [w]) w.collection w.docId)
        = (docVersions ws w.collection w.docId).insert w.systemFromMs w.version := by
      rw [docVersions_concat, if_pos (isOf_self w)]
    split
    next heq =>
      constructor
      · intro hsome
        refine ⟨w.collection, w.docId, w.systemFromMs, w.version, ?_, heq,
          (Option.some.inj hsome).symm⟩
        rw [hself, SortedMap.get_insert, if_pos rfl]
      · rintro ⟨c, d, s, v, hget, hkey, rfl⟩
        have hother : Named c d ∧ InEpoch s := by
          obtain ⟨u, hu, hof, rfl, rfl⟩ := exists_write_of_get hget
          obtain ⟨rfl, rfl⟩ := isOf_iff.mp hof
          rcases List.mem_append.mp hu with hu | hu
          · exact ⟨(h.proper u hu).named, (h.proper u hu).time⟩
          · rw [List.mem_singleton.mp hu]
            exact ⟨hw.named, hw.time⟩
        obtain ⟨rfl, rfl, rfl⟩ := historyKey_inj hw.named hother.1 hw.time.inI64 hother.2.inI64
          (heq.symm.trans hkey)
        rw [hself, SortedMap.get_insert, if_pos rfl] at hget
        rw [Option.some.inj hget]
    next hne =>
      rw [h.history]
      have hsame : ∀ c d s, key = historyKey c d s →
          (docVersions (ws ++ [w]) c d).get s = (docVersions ws c d).get s := by
        intro c d s hkey
        rw [docVersions_concat]
        split
        next hof =>
          obtain ⟨rfl, rfl⟩ := isOf_iff.mp hof
          rw [SortedMap.get_insert, if_neg]
          rintro rfl
          exact hne hkey
        next => rfl
      constructor
      · rintro ⟨c, d, s, v, hget, hkey, rfl⟩
        exact ⟨c, d, s, v, by rw [hsame c d s hkey, hget], hkey, rfl⟩
      · rintro ⟨c, d, s, v, hget, hkey, rfl⟩
        exact ⟨c, d, s, v, by rw [← hsame c d s hkey, hget], hkey, rfl⟩
  · intro c d hnamed
    rw [hpointer, lastOf_concat]
    by_cases hof : w.isOf c d = true
    · obtain ⟨rfl, rfl⟩ := isOf_iff.mp hof
      rw [if_pos rfl, if_pos hof]
      rfl
    · rw [if_neg hof, if_neg, h.pointer c d hnamed]
      intro hkey
      obtain ⟨rfl, rfl⟩ := latestVersionKey_inj hnamed hw.named hkey
      exact hof (isOf_self w)

/-- Any sequence of proper writes is accepted, and leaves the storage in step. -/
lemma keeps_docRun (sp : DocSpaces) {ws : List DocWrite} (h : ∀ w ∈ ws, w.Proper) :
    ∃ t, docRun sp ws = .ok t ∧ Keeps sp ws t := by
  induction ws using List.reverseRecOn with
  | nil => exact ⟨.empty, rfl, keeps_empty sp⟩
  | append_singleton ws w ih =>
    obtain ⟨t, hrun, hkeeps⟩ := ih (fun u hu => h u (List.mem_append_left _ hu))
    obtain ⟨t', hstep, hkeeps'⟩ := hkeeps.run (h w (List.mem_append_right _ List.mem_cons_self))
    refine ⟨t', ?_, hkeeps'⟩
    unfold docRun at hrun ⊢
    rw [List.foldlM_append, hrun]
    change (w.run sp t >>= fun t => pure t) = _
    rw [hstep]
    rfl

end

end NodedbLite.Document
