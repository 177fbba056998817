import NodedbLite.SortedAgree

/-! Custom leaderboard windows. Outside its interval a custom window starts at the greatest word, so
what is hidden there is every row whose timestamp is below that word. -/
namespace NodedbLite.Sorted

open Query (Value)

/-- The start that stands for "outside the window". -/
def noStart : UInt64 := UInt64.ofNat (2 ^ 64 - 1)

/-- The half-open interval of a custom window. -/
def WindowDef.Inside (w : WindowDef) (nowMs : UInt64) : Prop := w.startMs ≤ nowMs ∧ nowMs < w.endMs

/-- Rank, top-k and range all answer from the rows `l`, in this order. -/
structure Shows (st : SortedState) (name : String) (d : SortedIndexDef) (nowMs : UInt64)
    (l : List (Bytes × Scored)) : Prop where
  rank : ∀ pk, kvSortedIndexRank st name pk nowMs = .ok (result ["rank"]
    [[match (l.map (visibleOf d)).findIdx? (·.pk = pk) with
      | none => .null
      | some position => .integer (position + 1)]])
  topK : ∀ k, kvSortedIndexTopK st name k nowMs =
    .ok (rankedRows ((l.map (visibleOf d)).take k.toNat).zipIdx)
  range : ∀ min max : Option Field,
    kvSortedIndexRange st name (min.map (·.1)) (max.map (·.1)) nowMs =
      .ok (rankedRows ((l.map (visibleOf d)).zipIdx.filter fun entry =>
        inBounds (if d.scoreDesc then max.map complement else min)
          (if d.scoreDesc then min.map complement else max) entry.1))

/-- The reads show exactly the unexpired rows from the start of the window on while it is open, and
nothing while it is not. -/
def HidesOutside (st : SortedState) (name : String) (d : SortedIndexDef)
    (content : SortedMap Bytes Scored) (nowMs : UInt64) : Prop :=
  ∃ l, Shows st name d nowMs l ∧ ∀ p, p ∈ l ↔ content.get p.1 = some p.2 ∧
    isExpired p.2.deadline nowMs = false ∧ d.window.Inside nowMs ∧
      ∃ ts, p.2.ts = some ts ∧ d.window.startMs ≤ ts

section Timestamps

lemma le_noStart (ts : UInt64) : ts ≤ noStart := by
  rw [UInt64.le_iff_toNat_le]
  have hlt := ts.toNat_lt
  have hmax : noStart.toNat = 2 ^ 64 - 1 := by decide
  omega

lemma toUInt64_ne_noStart {n : Int64} (h : 0 ≤ n) : n.toUInt64 ≠ noStart := by
  intro heq
  have hmax : noStart = (-1 : Int64).toUInt64 := by decide
  rw [hmax] at heq
  have hneg : n = -1 := congrArg UInt64.toInt64 heq
  rw [hneg] at h
  exact absurd h (by decide)

lemma floatToU64_eq_noStart_iff (f : UInt64) :
    floatToU64 f = some noStart ↔ ∃ q, Binary64.ofBits f = .finite q ∧ 2 ^ 64 - 1 ≤ q := by
  rw [floatToU64]
  cases hf : Binary64.ofBits f with
  | finite q =>
    have hfloor : 2 ^ 64 - 1 ≤ ⌊q⌋ ↔ (2 ^ 64 - 1 : ℚ) ≤ q := by
      rw [Int.le_floor]
      norm_num
    have hword : UInt64.ofNat (min ⌊q⌋.toNat (2 ^ 64 - 1)) = noStart ↔ 2 ^ 64 - 1 ≤ ⌊q⌋ := by
      rw [← UInt64.toNat_inj, noStart, UInt64.toNat_ofNat', UInt64.toNat_ofNat']
      omega
    dsimp only
    split_ifs with hq
    · simp only [Option.some.injEq, hword, hfloor, Binary64.finite.injEq, exists_eq_left']
    · simp only [Binary64.finite.injEq, exists_eq_left', false_iff, not_le]
      exact (not_le.mp hq).trans (by norm_num)
  | _ => simp

/-- Only a float beyond every word is read as the greatest one: an integer column stays below. -/
lemma extractTs_eq_noStart_iff (columns : List (String × Value)) (column : String) :
    extractTsFromValue columns column = some noStart ↔
      ∃ f q, columns.lookup column = some (.float f) ∧ Binary64.ofBits f = .finite q ∧
        2 ^ 64 - 1 ≤ q := by
  rw [extractTsFromValue]
  cases hcol : columns.lookup column with
  | none => simp
  | some v =>
    cases v with
    | integer n =>
      by_cases hn : 0 ≤ n
      · simp [hn, toUInt64_ne_noStart hn]
      · simp [hn]
    | float f => simp [floatToU64_eq_noStart_iff]
    | _ => simp

end Timestamps

section Main

variable {st : SortedState} {name : String} {d : SortedIndexDef}
  {content : SortedMap Bytes Scored} {nowMs : UInt64} {l : List (Bytes × Scored)}

lemma scoreBound_field (d : SortedIndexDef) (bound : Option Field) :
    scoreBound d (bound.map (·.1)) = .ok bound := by
  cases bound with
  | none => rfl
  | some field => simp only [Option.map_some, scoreBound, toField_val]

lemma Lists.shows (h : Lists st d content nowMs l) (hd : st.sorted.get name = some d) :
    Shows st name d nowMs l where
  rank pk := by
    rw [kvSortedIndexRank, hd]
    exact congrArg (Except.map _) h.eq
  topK k := by
    rw [kvSortedIndexTopK, require, hd, Except.bind, h.eq]
    rfl
  range min max := by
    simp only [kvSortedIndexRange, require, hd, scoreBound_field, h.eq, Except.bind, Except.map]

lemma Shows.mem_pk (h : Shows st name d nowMs l) {l' : List (Bytes × Scored)}
    (h' : Shows st name d nowMs l') {p : Bytes × Scored} (hp : p ∈ l') : ∃ q ∈ l, q.1 = p.1 := by
  by_contra hnone
  push Not at hnone
  have hmissing : (l.map (visibleOf d)).findIdx? (·.pk = p.1) = none := by
    rw [List.findIdx?_eq_none_iff]
    intro v hv
    obtain ⟨q, hq, rfl⟩ := List.mem_map.mp hv
    exact decide_eq_false (hnone q hq)
  have hrank := (h.rank p.1).symm.trans (h'.rank p.1)
  rw [hmissing] at hrank
  cases hfound : (l'.map (visibleOf d)).findIdx? (·.pk = p.1) with
  | none =>
    rw [List.findIdx?_eq_none_iff] at hfound
    have hself := hfound _ (List.mem_map_of_mem hp)
    exact of_decide_eq_false hself rfl
  | some position =>
    rw [hfound] at hrank
    simp [result] at hrank

lemma Scored.Fits.isVisible_iff {x : Scored} (hfits : x.Fits d) {start : UInt64}
    (hstart : windowStart d.window nowMs = some start) : x.isVisible d nowMs = true ↔
      isExpired x.deadline nowMs = false ∧ ∃ ts, x.ts = some ts ∧ start ≤ ts := by
  have hsome : x.ts.isSome := by
    rw [hfits, ← windowStart_isSome d.window nowMs, hstart]
    rfl
  obtain ⟨ts, hts⟩ := Option.isSome_iff_exists.mp hsome
  simp [Scored.isVisible, hstart, hts]

lemma isVisible_inside (hkind : d.window.kind = .custom) (hin : d.window.Inside nowMs) {x : Scored}
    (hfits : x.Fits d) : x.isVisible d nowMs = true ↔
      isExpired x.deadline nowMs = false ∧ ∃ ts, x.ts = some ts ∧ d.window.startMs ≤ ts := by
  refine hfits.isVisible_iff ?_
  simp only [windowStart, hkind]
  rw [if_pos (by simpa [WindowDef.Inside] using hin)]

lemma isVisible_outside (hkind : d.window.kind = .custom) (hout : ¬d.window.Inside nowMs)
    {x : Scored} (hfits : x.Fits d) : x.isVisible d nowMs = true ↔
      isExpired x.deadline nowMs = false ∧ x.ts = some noStart := by
  have hstart : windowStart d.window nowMs = some noStart := by
    simp only [windowStart, hkind]
    rw [if_neg (by simpa [WindowDef.Inside] using hout)]
    rfl
  have hmax (ts : UInt64) : noStart ≤ ts ↔ ts = noStart :=
    ⟨fun hle => UInt64.le_antisymm (le_noStart ts) hle, fun heq => heq ▸ UInt64.le_refl _⟩
  simp [hfits.isVisible_iff hstart, hmax]

/-- A custom window hides what lies outside its time exactly when it is open or no unexpired row has
the greatest timestamp. -/
theorem custom_window_hides_iff (hd : st.sorted.get name = some d) (h : Holds st d content)
    (hkind : d.window.kind = .custom) (nowMs : UInt64) :
    HidesOutside st name d content nowMs ↔ d.window.Inside nowMs ∨
      ∀ pk x, content.get pk = some x → isExpired x.deadline nowMs = false →
        x.ts ≠ some noStart := by
  obtain ⟨l, hl, -⟩ := h.lists nowMs
  by_cases hin : d.window.Inside nowMs
  · refine iff_of_true ⟨l, hl.shows hd, fun p => ?_⟩ (.inl hin)
    rw [hl.mem_iff]
    apply and_congr_right
    intro hget
    rw [isVisible_inside hkind hin (h.fits hget), iff_true_intro hin, true_and]
  · rw [or_iff_right hin]
    constructor
    · rintro ⟨shown, hshows, hmem⟩ pk x hget hlive hts
      have hp : (pk, x) ∈ l := (hl.mem_iff _).mpr
        ⟨hget, (isVisible_outside hkind hin (h.fits hget)).mpr ⟨hlive, hts⟩⟩
      obtain ⟨q, hq, -⟩ := hshows.mem_pk (hl.shows hd) hp
      exact hin ((hmem q).mp hq).2.2.1
    · intro hnone
      refine ⟨l, hl.shows hd, fun p => iff_of_false (fun hp => ?_) fun hp => hin hp.2.2.1⟩
      obtain ⟨hget, hvisible⟩ := (hl.mem_iff p).mp hp
      obtain ⟨hlive, hts⟩ := (isVisible_outside hkind hin (h.fits hget)).mp hvisible
      exact hnone p.1 p.2 hget hlive hts

/-- A row of the score one. -/
def customRow (ts : UInt64) : Bytes × Scored := ([0x61], ⟨0x3FF0000000000000, some ts, 0⟩)

lemma customRow_holds (ts : UInt64) : Holds (stateOf customDef [customRow ts]) customDef
    (SortedMap.ofList [customRow ts]) :=
  stateOf_holds (by simp [customRow, Scored.Fits, customDef, WindowDef.isWindowed])
    (List.nodup_singleton _) (List.nodup_singleton _)

/-- A row stamped within the window is hidden once it has closed. -/
theorem custom_window_hides_closed :
    HidesOutside (stateOf customDef [customRow 150]) "lb" customDef
      (SortedMap.ofList [customRow 150]) 300 := by
  refine (custom_window_hides_iff (stateOf_sorted customDef _) (customRow_holds 150) rfl 300).mpr
    (.inr ?_)
  intro pk x hget _
  obtain ⟨-, rfl⟩ := Prod.mk.inj (List.mem_singleton.mp
    ((SortedMap.get_ofList_eq_some_iff (by decide)).mp hget))
  decide

/-- A row whose timestamp column is the float `2 ^ 64` ranks first after the window has closed. -/
theorem saturated_timestamp_visible :
    (∀ W, scoredColumns W customDef 0
      [("s", .float 0x3FF0000000000000), ("t", .float 0x43F0000000000000)] =
        some (customRow noStart).2) ∧
      ¬customDef.window.Inside 300 ∧
      Holds (stateOf customDef [customRow noStart]) customDef
        (SortedMap.ofList [customRow noStart]) ∧
      kvSortedIndexRank (stateOf customDef [customRow noStart]) "lb" [0x61] 300 =
        .ok (result ["rank"] [[.integer 1]]) ∧
      ¬HidesOutside (stateOf customDef [customRow noStart]) "lb" customDef
        (SortedMap.ofList [customRow noStart]) 300 := by
  have hout : ¬customDef.window.Inside 300 := by
    unfold WindowDef.Inside
    decide
  have hrank : kvSortedIndexRank (stateOf customDef [customRow noStart]) "lb" [0x61] 300 =
      .ok (result ["rank"] [[.integer 1]]) := by decide +kernel
  refine ⟨fun W => ?_, hout, customRow_holds noStart, hrank, ?_⟩
  · have hts : extractTsFromValue
        [("s", .float 0x3FF0000000000000), ("t", .float 0x43F0000000000000)] "t" = some noStart :=
      (extractTs_eq_noStart_iff _ _).mpr
        ⟨0x43F0000000000000, 2 ^ 64, by rfl, by decide +kernel, by norm_num⟩
    change ((extractTsFromValue _ "t").map fun ts => (⟨_, some ts, 0⟩ : Scored)) = _
    rw [hts]
    rfl
  · -- The rank read found a row, so any list it answers from has one, and none may be there.
    rintro ⟨l, hshows, hmem⟩
    have hnil : l = [] := by
      rw [List.eq_nil_iff_forall_not_mem]
      exact fun p hp => hout ((hmem p).mp hp).2.2.1
    have heq := (hshows.rank [0x61]).symm.trans hrank
    rw [hnil] at heq
    exact absurd heq (by decide)

end Main

end NodedbLite.Sorted
