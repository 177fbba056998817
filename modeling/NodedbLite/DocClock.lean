import NodedbLite.DocAnswers

/-! Versioned documents written by the clock of the process. The clock only goes up within one
process; a restart begins it again, and the wall clock may have been set back by then. -/
namespace NodedbLite.Document

open Storage

/-- The time `monotonic_millis_i64` hands out, for the wall clock `now`. -/
def monotonicMillis (last now : Int) : Int := if last < now then now else last + 1

/-- The storage, the last time handed out by the process, and the completed writes. -/
structure ClockedDocs where
  tree : Tree
  lastSysMs : Int
  done : List DocWrite

def ClockedDocs.init : ClockedDocs := ⟨.empty, 0, []⟩

inductive ClockLabel
  /-- A put or a delete, with the reading of the wall clock. -/
  | write (collection docId : String) (change : DocChange) (now : Int)
  | restart

namespace ClockedDocs

/-- The write as the clock stamps it. -/
def stamped (s : ClockedDocs) (collection docId : String) (change : DocChange) (now : Int) :
    DocWrite :=
  ⟨collection, docId, monotonicMillis s.lastSysMs now, change⟩

/-- One step. A refused write has used up its time. -/
def step (sp : DocSpaces) (s : ClockedDocs) : ClockLabel → Option ClockedDocs
  | .write collection docId change now =>
    let w := s.stamped collection docId change now
    match w.run sp s.tree with
    | .ok tree => some ⟨tree, w.systemFromMs, s.done ++ [w]⟩
    | .error _ => some { s with lastSysMs := w.systemFromMs }
  | .restart => some { s with lastSysMs := 0 }

/-- Latest-time reads, the live scan and the rebuilt pointers show the last completed write of
every document. -/
structure ShowsLastWrite (sp : DocSpaces) (s : ClockedDocs) : Prop where
  asOf : ∀ c d, Named c d → versionedGetAsOf sp s.tree c d i64Max none
    = .ok ((lastOf s.done c d).bind (fun w => shown none w.version))
  live : ∀ c, colon ∉ Bytes.ofString c → ∀ id body, (id, body) ∈ scanLiveDocuments sp s.tree c ↔
    ∃ w, lastOf s.done c id = some w ∧ w.version.isLive = true ∧ w.version.body = body
  backfilled : ∀ c, colon ∉ Bytes.ofString c → ∃ fuel t',
    backfillLatestVersion sp (withoutPointers sp s.tree) c fuel = some (.ok t') ∧
    ∀ d, Named c d → versionedGetCurrent sp t' c d
      = .ok ((lastOf s.done c d).bind (fun w => shown none w.version))

/-- The write gets a time that no stored version of its document exceeds; its names have no
separators, its times are in range and its row fits into a page. -/
def InTurn (s : ClockedDocs) : ClockLabel → Prop
  | .write collection docId change now =>
    let w := s.stamped collection docId change now
    w.Proper ∧ w.rowBytes ≤ 8 * 1024 * 1024 ∧
      ∀ time ∈ (docVersions s.done collection docId).keys, time ≤ w.systemFromMs
  | .restart => True

/-- The completed writes are stored, in rising order and in rows that fit. -/
structure Stored (sp : DocSpaces) (s : ClockedDocs) : Prop where
  keeps : Keeps sp s.done s.tree
  rising : Rising s.done
  fits : ∀ w ∈ s.done, w.rowBytes ≤ 8 * 1024 * 1024

lemma Stored.step {sp : DocSpaces} {s s' : ClockedDocs} {label : ClockLabel} (h : Stored sp s)
    (hgood : InTurn s label) (hstep : s.step sp label = some s') : Stored sp s' := by
  cases label with
  | restart =>
    obtain rfl := Option.some.inj hstep
    exact ⟨h.keeps, h.rising, h.fits⟩
  | write collection docId change now =>
    obtain ⟨hproper, hfits, htime⟩ := hgood
    obtain ⟨t', hrun, hkeeps⟩ := h.keeps.run hproper
    dsimp only [ClockedDocs.step] at hstep
    rw [hrun] at hstep
    obtain rfl := Option.some.inj hstep
    refine ⟨hkeeps, ?_, ?_⟩
    · refine List.pairwise_append.mpr ⟨h.rising, List.pairwise_singleton .., ?_⟩
      intro u hu w hw hof
      rw [List.mem_singleton.mp hw] at hof ⊢
      obtain ⟨hc, hd⟩ : collection = u.collection ∧ docId = u.docId := isOf_iff.mp hof
      apply htime
      rw [SortedMap.mem_keys, hc, hd]
      exact get_isSome_of_mem hu (isOf_self u)
    · intro w hw
      rcases List.mem_append.mp hw with hw | hw
      · exact h.fits w hw
      · rw [List.mem_singleton.mp hw]
        exact hfits

lemma keeps_of_proper {sp : DocSpaces} {s : ClockedDocs}
    (h : GuardedRun.Reaches (ClockedDocs.step sp) (fun _ _ => True) .init s)
    (hproper : ∀ w ∈ s.done, w.Proper) : Keeps sp s.done s.tree := by
  induction h with
  | refl => exact keeps_empty sp
  | @step s s' label _ _ hstep ih =>
    cases label with
    | restart =>
      obtain rfl := Option.some.inj hstep
      exact ih hproper
    | write collection docId change now =>
      dsimp only [ClockedDocs.step] at hstep
      cases hrun : (s.stamped collection docId change now).run sp s.tree with
      | error e =>
        rw [hrun] at hstep
        obtain rfl := Option.some.inj hstep
        exact ih hproper
      | ok tree =>
        rw [hrun] at hstep
        obtain rfl := Option.some.inj hstep
        have hbefore := ih (fun w hw => hproper w (List.mem_append_left _ hw))
        obtain ⟨t', hrun', hkeeps⟩ :=
          hbefore.run (hproper _ (List.mem_append_right _ List.mem_cons_self))
        rw [hrun] at hrun'
        rw [Except.ok.inj hrun']
        exact hkeeps

lemma stored_init (sp : DocSpaces) : Stored sp .init := by
  refine ⟨keeps_empty sp, List.Pairwise.nil, ?_⟩
  intro w hw
  cases hw

lemma Stored.showsLastWrite {sp : DocSpaces} {s : ClockedDocs} (h : Stored sp s) :
    ShowsLastWrite sp s := by
  have hnewest : ∀ c d, (newestVersion (docVersions s.done c d)).bind (fun e => shown none e.2)
      = (lastOf s.done c d).bind (fun w => shown none w.version) := by
    intro c d
    rw [newestVersion_of_rising h.rising, Option.bind_map]
    rfl
  constructor
  · intro c d hn
    rw [h.keeps.getLatest hn, hnewest]
  · intro c hc id body
    rw [(h.keeps.scanLive hc).2, newestVersion_of_rising h.rising]
    constructor
    · rintro ⟨e, he, hlive, hbody⟩
      obtain ⟨w, hw, rfl⟩ := Option.map_eq_some_iff.mp he
      exact ⟨w, hw, hlive, hbody⟩
    · rintro ⟨w, hw, hlive, hbody⟩
      exact ⟨_, Option.map_eq_some_iff.mpr ⟨w, hw, rfl⟩, hlive, hbody⟩
  · intro c hc
    have hfits : ∀ d, ∀ e ∈ (docVersions s.done c d).entries,
        rowBytes (rowOf c d e) ≤ 8 * 1024 * 1024 := by
      intro d e he
      obtain ⟨w, hw, hof, htime, hversion⟩ :=
        exists_write_of_get (SortedMap.get_eq_some_iff.mpr he)
      obtain ⟨rfl, rfl⟩ := isOf_iff.mp hof
      have hsize := h.fits w hw
      unfold DocWrite.rowBytes at hsize
      rw [htime, hversion] at hsize
      exact hsize
    obtain ⟨fuel, t', hbackfill, hcurrent⟩ := (h.keeps.backfillAlone hc).1 hfits
    refine ⟨fuel, t', hbackfill, ?_⟩
    intro d hn
    rw [hcurrent d hn, hnewest]

end ClockedDocs

open ClockedDocs

/-- In every run whose writes are all stamped in turn, with restarts and any readings of the wall
clock, the last completed write of each document is the one shown. -/
theorem last_write_wins (sp : DocSpaces) {s : ClockedDocs}
    (h : GuardedRun.Reaches (ClockedDocs.step sp) InTurn .init s) : ShowsLastWrite sp s := by
  have hstored : Stored sp s :=
    h.invariant (stored_init sp) (fun _ _ _ hs hgood hstep => hs.step hgood hstep)
  exact hstored.showsLastWrite

/-- Two writes in one millisecond, and after a restart one at a later time. -/
def forwardClock : List ClockLabel :=
  [.write "c" "a" (.put [1] none none) 100, .write "c" "a" (.tombstone none) 100, .restart,
    .write "c" "a" (.put [2] none none) 101]

instance (s : ClockedDocs) : DecidablePred (InTurn s)
  | .write .. => inferInstanceAs (Decidable (_ ∧ _ ∧ _))
  | .restart => .isTrue trivial

/-- The put after the restart is shown. -/
theorem last_write_wins_forward : ∃ s, GuardedRun.Reaches (ClockedDocs.step docSpaces) InTurn .init s ∧
    versionedGetAsOf docSpaces s.tree "c" "a" i64Max none = .ok (some ⟨.live, 101, i64Max, [2]⟩) := by
  have hrun : (GuardedRun.runAll (ClockedDocs.step docSpaces) .init forwardClock).map
      (fun s => (lastOf s.done "c" "a").bind (fun w => shown none w.version))
      = some (some ⟨.live, 101, i64Max, [2]⟩) := by decide +kernel
  have hgood : GuardedRun.GoodAll (ClockedDocs.step docSpaces) InTurn .init forwardClock :=
    GuardedRun.goodAll_of_check (by decide +kernel)
  obtain ⟨s, hs, hlast⟩ := Option.map_eq_some_iff.mp hrun
  have hreach := GuardedRun.Reaches.of_runAll hgood hs
  refine ⟨s, hreach, ?_⟩
  rw [(last_write_wins docSpaces hreach).asOf "c" "a" ⟨by decide +kernel, by decide +kernel⟩, hlast]

/-- A put, and after a restart another at an earlier time. -/
def clockSetBack : List ClockLabel :=
  [.write "c" "a" (.put [1] none none) 100, .restart, .write "c" "a" (.put [2] none none) 50]

/-- The clock is set back between two runs: the document keeps showing the earlier write. -/
theorem clock_set_back_hides_write :
    ∃ s, GuardedRun.Reaches (ClockedDocs.step docSpaces) (fun _ _ => True) .init s ∧
      (lastOf s.done "c" "a").map DocWrite.version = some ⟨.live, 50, i64Max, [2]⟩ ∧
      versionedGetAsOf docSpaces s.tree "c" "a" i64Max none
        = .ok (some ⟨.live, 100, i64Max, [1]⟩) ∧
      ("a", [1]) ∈ scanLiveDocuments docSpaces s.tree "c" ∧ ¬ ShowsLastWrite docSpaces s := by
  have hrun : (GuardedRun.runAll (ClockedDocs.step docSpaces) .init clockSetBack).map
      (fun s => ((lastOf s.done "c" "a").map DocWrite.version,
        newestVersion (docVersions s.done "c" "a"), decide (∀ w ∈ s.done, w.Proper)))
      = some (some ⟨.live, 50, i64Max, [2]⟩, some (100, ⟨.live, 100, i64Max, [1]⟩), true) := by
    decide +kernel
  have hname : Named "c" "a" := ⟨by decide +kernel, by decide +kernel⟩
  obtain ⟨s, hs, hobserved⟩ := Option.map_eq_some_iff.mp hrun
  obtain ⟨hlast, hrest⟩ := Prod.mk.inj hobserved
  obtain ⟨hnewest, hproper⟩ := Prod.mk.inj hrest
  have hreach := GuardedRun.Reaches.of_runAll (GuardedRun.goodAll_true _ _) hs
  have hkeeps := keeps_of_proper hreach (of_decide_eq_true hproper)
  have hread : versionedGetAsOf docSpaces s.tree "c" "a" i64Max none
      = .ok (some ⟨.live, 100, i64Max, [1]⟩) := by
    rw [hkeeps.getLatest hname, hnewest]
    rfl
  have hscan : ("a", [1]) ∈ scanLiveDocuments docSpaces s.tree "c" :=
    ((hkeeps.scanLive hname.collection).2 "a" [1]).mpr ⟨_, hnewest, rfl, rfl⟩
  refine ⟨s, hreach, hlast, hread, hscan, ?_⟩
  intro hshows
  obtain ⟨w, hw, _, hbody⟩ := (hshows.live "c" hname.collection "a" [1]).mp hscan
  rw [hw] at hlast
  rw [Option.some.inj hlast] at hbody
  cases hbody

end NodedbLite.Document
