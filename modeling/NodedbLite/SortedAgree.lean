import NodedbLite.SortedQuery

/-! Agreement of the sorted-index reads with each other and with the numbers they rank by. Key bytes
order scores like numbers except for the two zeros and for words that denote no number. -/
namespace NodedbLite.Sorted

/-- The numeric order of scores, as binary64 words. -/
def NumLe (a b : UInt64) : Prop := Binary64.le (.ofBits a) (.ofBits b) = true

def NumLt (a b : UInt64) : Prop := Binary64.lt (.ofBits a) (.ofBits b) = true

/-- The score of `x` ranks before that of `y` as the definition directs. -/
def ScoreBefore (d : SortedIndexDef) (x y : Scored) : Prop :=
  if d.scoreDesc then NumLt y.score x.score else NumLt x.score y.score

/-- The timestamp of `x` ranks before that of `y` as the definition directs. -/
def TimeBefore (d : SortedIndexDef) (x y : Scored) : Prop :=
  ∃ t ∈ x.ts, ∃ u ∈ y.ts, if d.window.timestampDesc then u < t else t < u

/-- By score, then time, then primary key. -/
def RanksBefore (d : SortedIndexDef) (p q : Bytes × Scored) : Prop :=
  ScoreBefore d p.2 q.2 ∨ NumLe p.2.score q.2.score ∧ NumLe q.2.score p.2.score ∧
    (TimeBefore d p.2 q.2 ∨ p.2.ts = q.2.ts ∧ p.1 < q.1)

/-- The score lies in the closed interval; an absent bound is open. -/
def InInterval (min max : Option UInt64) (x : Scored) : Prop :=
  (∀ m ∈ min, NumLe m x.score) ∧ ∀ m ∈ max, NumLe x.score m

instance (min max : Option UInt64) (x : Scored) : Decidable (InInterval min max x) := by
  unfold InInterval NumLe
  infer_instance

/-- A bound as a caller passes it. -/
def boundBytes (bound : Option UInt64) : Option Bytes := bound.map fun m => (f64ToSortBytes m).1

/-- A key has rank `r` exactly when it is item `r` of every top-k with at least `r` items. -/
def RankAgrees (st : SortedState) (name : String) (nowMs : UInt64) : Prop :=
  ∀ (pk : Bytes) (r : Nat), r < 2 ^ 32 →
    (kvSortedIndexRank st name pk nowMs = .ok (result ["rank"] [[.integer r]]) ↔
      0 < r ∧ ∀ k : UInt32, r ≤ k.toNat → ∃ items, kvSortedIndexTopK st name k nowMs = .ok items ∧
        items.rows[r - 1]? = some [.integer r, .bytes pk])

/-- The reads list the visible rows in rank order, and agree with it: ranks with top-k, and a range
with the numeric interval. -/
def QueriesAgree (st : SortedState) (name : String) (d : SortedIndexDef)
    (content : SortedMap Bytes Scored) (nowMs : UInt64) : Prop :=
  ∃ l, Lists st d content nowMs l ∧ l.Pairwise (RanksBefore d) ∧ RankAgrees st name nowMs ∧
    ∀ min max : Option UInt64, (∀ m ∈ min, ¬Binary64.IsNan m) → (∀ m ∈ max, ¬Binary64.IsNan m) →
      kvSortedIndexRange st name (boundBytes min) (boundBytes max) nowMs =
        .ok (rankedRows ((l.zipIdx.filter fun p => InInterval min max p.1.2).map
          fun p => (visibleOf d p.1, p.2)))

variable {st : SortedState} {name : String} {d : SortedIndexDef}
  {content : SortedMap Bytes Scored} {nowMs : UInt64} {l : List (Bytes × Scored)}

section Ranks

lemma Lists.pk_inj (h : Lists st d content nowMs l) {p q : Bytes × Scored} (hp : p ∈ l) (hq : q ∈ l)
    (hpk : p.1 = q.1) : p = q := by
  have hget := ((h.mem_iff p).mp hp).1
  rw [hpk, ((h.mem_iff q).mp hq).1, Option.some.injEq] at hget
  exact Prod.ext hpk hget.symm

lemma nodup_of_keyBefore (h : l.Pairwise (KeyBefore d)) : l.Nodup := by
  apply h.imp
  rintro p q hlt rfl
  exact lt_irrefl _ hlt

lemma findIdx?_pk_iff (h : Lists st d content nowMs l) (hnodup : l.Nodup) {pk : Bytes} {i : Nat} :
    (l.map (visibleOf d)).findIdx? (·.pk = pk) = some i ↔ ∃ x, l[i]? = some (pk, x) := by
  rw [List.findIdx?_eq_some_iff_getElem]
  constructor
  · rintro ⟨hi, hpk, -⟩
    rw [List.length_map] at hi
    rw [List.getElem_map, decide_eq_true_eq] at hpk
    refine ⟨l[i].2, ?_⟩
    rw [List.getElem?_eq_getElem hi, ← hpk]
    rfl
  · rintro ⟨x, hx⟩
    obtain ⟨hi, hget⟩ := List.getElem?_eq_some_iff.mp hx
    refine ⟨by rwa [List.length_map], by simp [hget, visibleOf], fun j hj hpk => ?_⟩
    -- Two places with one primary key hold one row, and the list repeats none.
    rw [List.getElem_map, decide_eq_true_eq] at hpk
    have hjl : j < l.length := hj.trans hi
    have hsame : l[j] = l[i] := h.pk_inj (List.getElem_mem hjl) (List.getElem_mem hi)
      (hpk.trans (congrArg Prod.fst hget).symm)
    exact hj.ne ((List.Nodup.getElem_inj_iff hnodup).mp hsame)

lemma topK_item_iff (h : Lists st d content nowMs l) (hd : st.sorted.get name = some d) {pk : Bytes}
    {r : Nat} (hr : 0 < r) {k : UInt32} (hk : r ≤ k.toNat) :
    (∃ items, kvSortedIndexTopK st name k nowMs = .ok items ∧
      items.rows[r - 1]? = some [.integer r, .bytes pk]) ↔ ∃ x, l[r - 1]? = some (pk, x) := by
  have htop : kvSortedIndexTopK st name k nowMs =
      .ok (rankedRows ((l.map (visibleOf d)).take k.toNat).zipIdx) := by
    rw [kvSortedIndexTopK, require, hd, Except.bind, h.eq]
    rfl
  have hrow : (rankedRows ((l.map (visibleOf d)).take k.toNat).zipIdx).rows[r - 1]? =
      (l[r - 1]?).map fun p => [.integer r, .bytes p.1] := by
    have hlt : r - 1 < k.toNat := by omega
    simp only [rankedRows, result, List.getElem?_map, List.getElem?_zipIdx,
      List.getElem?_take_of_lt hlt, Option.map_map]
    congr 1
    funext p
    simp only [Function.comp_apply, rankedRow, visibleOf, Nat.zero_add, Nat.sub_add_cancel hr]
  rw [htop]
  simp only [Except.ok.injEq, exists_eq_left', hrow, Option.map_eq_some_iff, List.cons.injEq,
    true_and, and_true, Cell.bytes.injEq]
  constructor
  · rintro ⟨p, hp, rfl⟩
    exact ⟨p.2, hp⟩
  · rintro ⟨x, hx⟩
    exact ⟨(pk, x), hx, rfl⟩

lemma rankAgrees (h : Lists st d content nowMs l) (hnodup : l.Nodup)
    (hd : st.sorted.get name = some d) : RankAgrees st name nowMs := by
  intro pk r hr
  have hrank : kvSortedIndexRank st name pk nowMs = .ok (result ["rank"] [[.integer r]]) ↔
      ∃ i, i + 1 = r ∧ ∃ x, l[i]? = some (pk, x) := by
    simp only [kvSortedIndexRank, hd, h.eq, Except.map, Except.ok.injEq, result,
      QueryResult.mk.injEq, List.cons.injEq, and_true, true_and, ← findIdx?_pk_iff h hnodup]
    cases (l.map (visibleOf d)).findIdx? (·.pk = pk) <;> simp [and_comm]
  rw [hrank]
  constructor
  · rintro ⟨i, rfl, hi⟩
    exact ⟨Nat.succ_pos i, fun k hk => (topK_item_iff h hd (Nat.succ_pos i) hk).mpr hi⟩
  · rintro ⟨hpos, hall⟩
    have hk : r ≤ (UInt32.ofNat r).toNat := by
      rw [UInt32.toNat_ofNat', Nat.mod_eq_of_lt hr]
    exact ⟨r - 1, Nat.sub_add_cancel hpos, (topK_item_iff h hd hpos hk).mp (hall _ hk)⟩

end Ranks

section Ranges

lemma scoreBound_boundBytes (d : SortedIndexDef) (bound : Option UInt64) :
    scoreBound d (boundBytes bound) = .ok (bound.map f64ToSortBytes) := by
  cases bound with
  | none => rfl
  | some m => simp only [boundBytes, Option.map_some, scoreBound, toField_val]

/-- A range takes the rows whose key order lies between those of the bounds, whatever direction the
scores are stored in. -/
def InKeys (min max : Option UInt64) (x : Scored) : Prop :=
  (∀ m ∈ min, Binary64.sortKey m ≤ Binary64.sortKey x.score) ∧
    ∀ m ∈ max, Binary64.sortKey x.score ≤ Binary64.sortKey m

instance (min max : Option UInt64) (x : Scored) : Decidable (InKeys min max x) := by
  unfold InKeys
  infer_instance

lemma inBounds_iff (d : SortedIndexDef) (min max : Option UInt64) (p : Bytes × Scored) :
    inBounds (if d.scoreDesc then (max.map f64ToSortBytes).map complement else min.map f64ToSortBytes)
        (if d.scoreDesc then (min.map f64ToSortBytes).map complement else max.map f64ToSortBytes)
        (visibleOf d p) = true ↔ InKeys min max p.2 := by
  cases hdesc : d.scoreDesc <;> cases min <;> cases max <;>
    simp [inBounds, InKeys, visibleOf, Scored.entry, encodeScore, hdesc, f64ToSortBytes_le_iff,
      complement_le_iff, and_comm]

lemma range_eq (h : Lists st d content nowMs l) (hd : st.sorted.get name = some d)
    (min max : Option UInt64) :
    kvSortedIndexRange st name (boundBytes min) (boundBytes max) nowMs =
      .ok (rankedRows ((l.zipIdx.filter fun p => InKeys min max p.1.2).map
        fun p => (visibleOf d p.1, p.2))) := by
  simp only [kvSortedIndexRange, require, hd, scoreBound_boundBytes, h.eq, Except.bind, Except.map]
  refine congrArg (fun entries => Except.ok (rankedRows entries)) ?_
  rw [List.zipIdx_map, List.filter_map]
  refine congrArg (List.map _) (List.filter_congr ?_)
  intro p _
  rw [Bool.eq_iff_iff, decide_eq_true_eq]
  exact inBounds_iff d min max p.1

lemma iff_of_rankedRows_eq {P Q : Scored → Prop} [DecidablePred P] [DecidablePred Q]
    (heq : rankedRows ((l.zipIdx.filter fun p => P p.1.2).map fun p => (visibleOf d p.1, p.2)) =
      rankedRows ((l.zipIdx.filter fun p => Q p.1.2).map fun p => (visibleOf d p.1, p.2)))
    {p : Bytes × Scored} (hp : p ∈ l) : P p.2 ↔ Q p.2 := by
  have hsub : ∀ {P Q : Scored → Prop} [DecidablePred P] [DecidablePred Q],
      rankedRows ((l.zipIdx.filter fun p => P p.1.2).map fun p => (visibleOf d p.1, p.2)) =
        rankedRows ((l.zipIdx.filter fun p => Q p.1.2).map fun p => (visibleOf d p.1, p.2)) →
      P p.2 → Q p.2 := by
    intro P Q _ _ heq hP
    obtain ⟨i, hi, hget⟩ := List.getElem_of_mem hp
    have hplace : (p, i) ∈ l.zipIdx := by
      rw [List.mk_mem_zipIdx_iff_getElem?, List.getElem?_eq_getElem hi, hget]
    have hrows := congrArg QueryResult.rows heq
    simp only [rankedRows, result, List.map_map] at hrows
    have hchosen : (p, i) ∈ l.zipIdx.filter fun p => P p.1.2 :=
      List.mem_filter.mpr ⟨hplace, decide_eq_true hP⟩
    have hmem := List.mem_map_of_mem (f := rankedRow ∘ fun p => (visibleOf d p.1, p.2)) hchosen
    rw [hrows] at hmem
    obtain ⟨q, hq, hsame⟩ := List.mem_map.mp hmem
    obtain ⟨hqplace, hQ⟩ := List.mem_filter.mp hq
    simp only [Function.comp_apply, rankedRow, List.cons.injEq, Cell.integer.injEq] at hsame
    have hindex : q.2 = i := Nat.succ.inj hsame.1
    have hqget := List.mk_mem_zipIdx_iff_getElem?.mp (hindex ▸ hqplace : (q.1, i) ∈ l.zipIdx)
    rw [List.getElem?_eq_getElem hi, hget, Option.some.injEq] at hqget
    rw [← hqget, decide_eq_true_eq] at hQ
    exact hQ
  exact ⟨hsub heq, hsub heq.symm⟩

lemma inKeys_iff_inInterval {min max : Option UInt64} {x : Scored}
    (hmin : ∀ m ∈ min, ¬Binary64.IsNan m) (hmax : ∀ m ∈ max, ¬Binary64.IsNan m)
    (hzero : ¬Binary64.IsZero x.score) (hnan : ¬Binary64.IsNan x.score) :
    InKeys min max x ↔ InInterval min max x := by
  refine and_congr (forall₂_congr fun m hm => ?_) (forall₂_congr fun m hm => ?_)
  · exact Binary64.sortKey_le_iff (hmin m hm) hnan fun h => hzero h.2
  · exact Binary64.sortKey_le_iff hnan (hmax m hm) fun h => hzero h.1

end Ranges

section Order

/-- The score is a number other than zero. -/
def Plain (x : Scored) : Prop := ¬Binary64.IsZero x.score ∧ ¬Binary64.IsNan x.score

variable {x y : Scored}

lemma Plain.numLe_iff (hx : Plain x) (hy : Plain y) :
    NumLe x.score y.score ↔ Binary64.sortKey x.score ≤ Binary64.sortKey y.score :=
  (Binary64.sortKey_le_iff hx.2 hy.2 fun h => hx.1 h.1).symm

lemma Plain.numLt_iff (hx : Plain x) (hy : Plain y) :
    NumLt x.score y.score ↔ Binary64.sortKey x.score < Binary64.sortKey y.score := by
  have hle := hx.numLe_iff hy
  have hge := hy.numLe_iff hx
  rw [NumLe] at hle hge
  rw [NumLt, Binary64.lt_eq_le_and_not_le, Bool.and_eq_true, Bool.not_eq_true', hle,
    ← Bool.not_eq_true, hge]
  omega

lemma encodeScore_lt_iff (a b : UInt64) (desc : Bool) : encodeScore a desc < encodeScore b desc ↔
    if desc then Binary64.sortKey b < Binary64.sortKey a
    else Binary64.sortKey a < Binary64.sortKey b := by
  have hlt : ∀ {a b : UInt64}, f64ToSortBytes a < f64ToSortBytes b ↔
      Binary64.sortKey a < Binary64.sortKey b := by
    intro a b
    rw [← not_le, f64ToSortBytes_le_iff, not_le]
  cases desc with
  | false => exact hlt
  | true => exact (complement_lt_iff _ _).trans hlt

lemma sortKey_eq_of_encodeScore_eq {a b : UInt64} {desc : Bool}
    (h : encodeScore a desc = encodeScore b desc) : Binary64.sortKey a = Binary64.sortKey b := by
  have hle : ∀ {a b : UInt64}, ¬encodeScore b desc < encodeScore a desc →
      ¬encodeScore a desc < encodeScore b desc →
      Binary64.sortKey a = Binary64.sortKey b := by
    intro a b hba hab
    rw [encodeScore_lt_iff] at hba hab
    cases desc <;> simp only [Bool.false_eq_true, if_false, if_true] at hba hab <;> omega
  exact hle (h ▸ lt_irrefl _) (h ▸ lt_irrefl _)

lemma encodeTs_lt_iff (t u : UInt64) (desc : Bool) : encodeTs t desc < encodeTs u desc ↔
    if desc then u < t else t < u := by
  have hlt : ∀ {t u : UInt64}, beBytes t < beBytes u ↔ t < u := by
    intro t u
    rw [← not_le, beBytes_le_iff, UInt64.not_le]
  cases desc with
  | false => exact hlt
  | true => exact (complement_lt_iff _ _).trans hlt

lemma length_tsBytes_eq (hx : x.Fits d) (hy : y.Fits d) :
    (x.entry d).tsBytes.length = (y.entry d).tsBytes.length := by
  have hlx := length_score_append_tsBytes hx
  have hly := length_score_append_tsBytes hy
  rw [List.length_append, (x.entry d).score.2] at hlx
  rw [List.length_append, (y.entry d).score.2] at hly
  omega

lemma timeBefore_of_tsBytes_lt (hx : x.Fits d) (hy : y.Fits d)
    (h : (x.entry d).tsBytes < (y.entry d).tsBytes) : TimeBefore d x y := by
  have hlen := length_tsBytes_eq hx hy
  cases hxt : x.ts with
  | none =>
    have hxb : (x.entry d).tsBytes = [] := by simp [PkEntry.tsBytes, Scored.entry, hxt]
    rw [hxb] at h hlen
    rw [List.length_eq_zero_iff.mp hlen.symm] at h
    exact absurd h (lt_irrefl _)
  | some t =>
    cases hyt : y.ts with
    | none =>
      have hyb : (y.entry d).tsBytes = [] := by simp [PkEntry.tsBytes, Scored.entry, hyt]
      rw [hyb] at h
      exact absurd h (List.not_lt_nil _)
    | some u =>
      refine ⟨t, hxt, u, hyt, (encodeTs_lt_iff t u _).mp ?_⟩
      simpa [PkEntry.tsBytes, Scored.entry, hxt, hyt] using h

lemma ts_eq_of_tsBytes_eq (hx : x.Fits d) (hy : y.Fits d)
    (h : (x.entry d).tsBytes = (y.entry d).tsBytes) : x.ts = y.ts := by
  have hsome : x.ts.isSome = y.ts.isSome := hx.trans hy.symm
  cases hxt : x.ts with
  | none =>
    rw [hxt] at hsome
    exact (Option.isSome_eq_false_iff.mp hsome.symm |> Option.isNone_iff_eq_none.mp).symm
  | some t =>
    rw [hxt, Option.isSome_some, eq_comm, Option.isSome_iff_exists] at hsome
    obtain ⟨u, hu⟩ := hsome
    have hfields : encodeTs t d.window.timestampDesc = encodeTs u d.window.timestampDesc := by
      apply Subtype.ext
      simpa [PkEntry.tsBytes, Scored.entry, hxt, hu] using h
    rw [hu, ← decodeTs_encodeTs t d.window.timestampDesc, hfields, decodeTs_encodeTs]

lemma ranksBefore_of_keyBefore {p q : Bytes × Scored} (hp : p.2.Fits d) (hq : q.2.Fits d)
    (hpp : Plain p.2) (hqp : Plain q.2) (h : KeyBefore d p q) : RanksBefore d p q := by
  rw [KeyBefore, PkEntry.scoreKey_eq, PkEntry.scoreKey_eq, Bytes.append_lt_append_left_iff,
    Bytes.append_lt_append_iff_of_length_eq
      ((p.2.entry d).score.2.trans (q.2.entry d).score.2.symm),
    Bytes.append_lt_append_iff_of_length_eq (length_tsBytes_eq hp hq)] at h
  rcases h with hscore | ⟨hscore, htime⟩
  · left
    have hkeys := (encodeScore_lt_iff p.2.score q.2.score d.scoreDesc).mp hscore
    rw [ScoreBefore]
    cases hdesc : d.scoreDesc <;> rw [hdesc] at hkeys
    · exact (hpp.numLt_iff hqp).mpr hkeys
    · exact (hqp.numLt_iff hpp).mpr hkeys
  · right
    have hkeys := sortKey_eq_of_encodeScore_eq (Subtype.ext hscore)
    refine ⟨(hpp.numLe_iff hqp).mpr hkeys.le, (hqp.numLe_iff hpp).mpr hkeys.ge, ?_⟩
    rcases htime with hts | ⟨hts, hpk⟩
    · exact .inl (timeBefore_of_tsBytes_lt hp hq hts)
    · exact .inr ⟨ts_eq_of_tsBytes_eq hp hq hts, hpk⟩

end Order

section Main

/-- A zero is missed by the range that ends at the zero of the other sign, and what is no number is
found by the range that is open on its side. -/
lemma plain_of_ranges {x : Scored}
    (h : ∀ min max : Option UInt64, (∀ m ∈ min, ¬Binary64.IsNan m) → (∀ m ∈ max, ¬Binary64.IsNan m) →
      (InKeys min max x ↔ InInterval min max x)) : Plain x := by
  have hword := Binary64.toNat_eq_magnitude x.score
  have hplus : ¬Binary64.IsNan 0 := by decide
  have hminus : ¬Binary64.IsNan 0x8000000000000000 := by decide
  constructor
  · intro hzero
    have hnan : ¬Binary64.IsNan x.score := by
      rw [Binary64.IsZero] at hzero
      rw [Binary64.IsNan, hzero]
      decide
    have hunits : ∀ m, Binary64.IsZero m → Binary64.units m = 0 := by
      intro m hm
      rw [Binary64.IsZero] at hm
      rw [Binary64.units, hm, Binary64.scaled_zero]
      simp
    by_cases hneg : Binary64.isNegative x.score = true
    · have hin : InInterval (some 0) none x := by
        refine ⟨?_, by simp⟩
        rintro m hm
        obtain rfl := Option.some.inj hm
        rw [NumLe, Binary64.le_ofBits_iff hplus hnan, hunits _ hzero, hunits 0 (by decide)]
      have hkeys := ((h (some 0) none (by simpa using hplus) (by simp)).mpr hin).1 0 rfl
      rw [Binary64.sortKey, Binary64.sortKey, if_pos hneg] at hkeys
      rw [if_pos hneg] at hword
      have hfirst : Binary64.isNegative 0 = false := by decide
      rw [hfirst] at hkeys
      simp only [Bool.false_eq_true, if_false, UInt64.toNat_zero] at hkeys
      omega
    · have hin : InInterval none (some 0x8000000000000000) x := by
        refine ⟨by simp, ?_⟩
        rintro m hm
        obtain rfl := Option.some.inj hm
        rw [NumLe, Binary64.le_ofBits_iff hnan hminus, hunits _ hzero,
          hunits 0x8000000000000000 (by decide)]
      have hkeys := ((h none (some 0x8000000000000000) (by simp) (by simpa using hminus)).mpr
        hin).2 0x8000000000000000 rfl
      have hlast : Binary64.sortKey 0x8000000000000000 = 2 ^ 63 - 1 := by decide
      rw [hlast, Binary64.sortKey, if_neg hneg] at hkeys
      omega
  · intro hnan
    have hle : ∀ m, ¬NumLe m x.score ∧ ¬NumLe x.score m := by
      intro m
      have hvalue : Binary64.ofBits x.score = .nan := by rw [Binary64.ofBits, if_pos hnan]
      rw [NumLe, NumLe, hvalue]
      cases Binary64.ofBits m <;> simp [Binary64.le]
    by_cases hneg : Binary64.isNegative x.score = true
    · have hin : InKeys none (some 0) x := by
        refine ⟨by simp, ?_⟩
        rintro m hm
        obtain rfl := Option.some.inj hm
        have hzero : Binary64.sortKey 0 = 2 ^ 63 := by decide
        rw [hzero, Binary64.sortKey, if_pos hneg]
        rw [if_pos hneg] at hword
        omega
      exact (hle 0).2 (((h none (some 0) (by simp) (by simpa using hplus)).mp hin).2 0 rfl)
    · have hin : InKeys (some 0) none x := by
        refine ⟨?_, by simp⟩
        rintro m hm
        obtain rfl := Option.some.inj hm
        have hzero : Binary64.sortKey 0 = 2 ^ 63 := by decide
        rw [hzero, Binary64.sortKey, if_neg hneg]
        omega
      exact (hle 0).1 (((h (some 0) none (by simpa using hplus) (by simp)).mp hin).1 0 rfl)

lemma plain_of_queriesAgree (hd : st.sorted.get name = some d)
    (h : QueriesAgree st name d content nowMs) {pk : Bytes} {x : Scored}
    (hget : content.get pk = some x) (hvisible : x.isVisible d nowMs = true) : Plain x := by
  obtain ⟨l, hl, -, -, hrange⟩ := h
  have hmem : (pk, x) ∈ l := (hl.mem_iff (pk, x)).mpr ⟨hget, hvisible⟩
  apply plain_of_ranges
  intro min max hmin hmax
  have heq := hrange min max hmin hmax
  rw [range_eq hl hd, Except.ok.injEq] at heq
  exact iff_of_rankedRows_eq heq hmem

/-- The reads agree exactly when no visible row has a score of zero or one that is no number. -/
theorem queries_agree_iff (hd : st.sorted.get name = some d) (h : Holds st d content)
    (nowMs : UInt64) :
    QueriesAgree st name d content nowMs ↔
      ∀ pk x, content.get pk = some x → x.isVisible d nowMs = true → Plain x := by
  constructor
  · intro hagree pk x hget hvisible
    exact plain_of_queriesAgree hd hagree hget hvisible
  · intro hplain
    obtain ⟨l, hl, hkeys⟩ := h.lists nowMs
    have hall : ∀ p ∈ l, p.2.Fits d ∧ Plain p.2 := by
      intro p hp
      obtain ⟨hget, hvisible⟩ := (hl.mem_iff p).mp hp
      exact ⟨h.fits hget, hplain p.1 p.2 hget hvisible⟩
    refine ⟨l, hl, ?_, rankAgrees hl (nodup_of_keyBefore hkeys) hd, ?_⟩
    · apply hkeys.imp_of_mem
      intro p q hp hq hlt
      exact ranksBefore_of_keyBefore (hall p hp).1 (hall q hq).1 (hall p hp).2 (hall q hq).2 hlt
    · intro min max hmin hmax
      have hfilter : l.zipIdx.filter (fun p => InKeys min max p.1.2) =
          l.zipIdx.filter fun p => InInterval min max p.1.2 := by
        apply List.filter_congr
        intro p hp
        have hin := hall p.1 (List.fst_mem_of_mem_zipIdx hp)
        exact decide_eq_decide.mpr (inKeys_iff_inInterval hmin hmax hin.2.1 hin.2.2)
      rw [range_eq hl hd, hfilter]

/-- A store with one index that ranks these rows. -/
def stateOf (d : SortedIndexDef) (rows : List (Bytes × Scored)) : SortedState where
  sorted := SortedMap.empty.insert d.name d
  metaRows := SortedMap.ofList (rows.map (scoreRow d))

lemma stateOf_sorted (d : SortedIndexDef) (rows : List (Bytes × Scored)) :
    (stateOf d rows).sorted.get d.name = some d := by
  rw [stateOf, SortedMap.get_insert, if_pos rfl]

lemma stateOf_holds {d : SortedIndexDef} {rows : List (Bytes × Scored)}
    (hfits : ∀ p ∈ rows, p.2.Fits d) (hkeys : (rows.map Prod.fst).Nodup)
    (hentries : ((rows.map (scoreRow d)).map Prod.fst).Nodup) :
    Holds (stateOf d rows) d (SortedMap.ofList rows) where
  fits hget := hfits _ ((SortedMap.get_ofList_eq_some_iff hkeys).mp hget)
  rows := by
    intro key value _
    rw [stateOf, SortedMap.get_ofList_eq_some_iff hentries, List.mem_map]
    simp only [SortedMap.get_ofList_eq_some_iff hkeys]
    constructor
    · rintro ⟨p, hp, hrow⟩
      exact ⟨p.1, p.2, hp, congrArg Prod.fst hrow.symm, congrArg Prod.snd hrow.symm⟩
    · rintro ⟨pk, x, hp, rfl, rfl⟩
      exact ⟨(pk, x), hp, rfl⟩

/-- A window from 100 to 200 over the column `t`. -/
def customDef : SortedIndexDef :=
  ⟨"lb", "c", "s", false, "id", ⟨.custom, "t", false, 100, 200⟩, by decide⟩

/-- Three rows of the score one, two of them with one timestamp, and a row of the score two. -/
def tiedRows : List (Bytes × Scored) :=
  [([0x61], ⟨0x3FF0000000000000, some 150, 0⟩), ([0x62], ⟨0x3FF0000000000000, some 150, 0⟩),
    ([0x63], ⟨0x3FF0000000000000, some 120, 0⟩), ([0x64], ⟨0x4000000000000000, some 110, 0⟩)]

/-- Ties in score and time: the earliest row of the score ranks first, then the lower key. -/
theorem queries_agree_iff_ties :
    kvSortedIndexRank (stateOf customDef tiedRows) "lb" [0x62] 160 =
        .ok (result ["rank"] [[.integer 3]]) ∧
      QueriesAgree (stateOf customDef tiedRows) "lb" customDef (SortedMap.ofList tiedRows) 160 := by
  refine ⟨by decide +kernel, (queries_agree_iff (stateOf_sorted _ _)
    (stateOf_holds (by unfold Scored.Fits; decide) (by decide) (by decide +kernel)) 160).mpr ?_⟩
  have hplain : ∀ p ∈ tiedRows, Plain p.2 := by
    unfold Plain
    decide
  exact fun pk x hget _ => hplain _ ((SortedMap.get_ofList_eq_some_iff (by decide)).mp hget)

/-- An index without a window. -/
def plainDef : SortedIndexDef := ⟨"lb", "c", "s", false, "id", .none, customDef.name_short⟩

/-- A row with the score minus zero. -/
def zeroRow : Bytes × Scored := ([0x61], ⟨0x8000000000000000, none, 0⟩)

/-- The row is ranked but missed by the range from zero on. -/
theorem negative_zero_missed :
    Holds (stateOf plainDef [zeroRow]) plainDef (SortedMap.ofList [zeroRow]) ∧
      kvSortedIndexRank (stateOf plainDef [zeroRow]) "lb" [0x61] 0 =
        .ok (result ["rank"] [[.integer 1]]) ∧
      kvSortedIndexRange (stateOf plainDef [zeroRow]) "lb" (boundBytes (some 0)) none 0 =
        .ok (rankedRows []) ∧
      ¬QueriesAgree (stateOf plainDef [zeroRow]) "lb" plainDef (SortedMap.ofList [zeroRow]) 0 := by
  refine ⟨stateOf_holds (by unfold Scored.Fits; decide) (by decide) (by decide), by decide +kernel,
    by decide +kernel, fun hagree => ?_⟩
  exact (plain_of_queriesAgree (stateOf_sorted _ _) hagree
    (SortedMap.get_ofList_of_mem (by decide) (List.mem_singleton.mpr rfl)) (by decide)).1 (by decide)

end Main

end NodedbLite.Sorted
