import NodedbLite.Results
import NodedbLite.Buckets
import NodedbLite.FuelRun
import NodedbLite.Multiplicity

/-! Bucketed scans of a timeseries. Samples are put into buckets by a division that rounds towards
zero, and the rows of a scan are those of a span of bucket starts; the two agree where no timestamp
in question is negative, or where it is the start of a bucket. -/
namespace NodedbLite.BucketScan

open FuelRun

variable {F : Type*}

def i64Min : Int := -2 ^ 63

def i64Max : Int := 2 ^ 63 - 1

/-- The arithmetic of `f64` that the aggregates use. -/
structure FloatOps (F : Type*) where
  zero : F
  infinity : F
  negInfinity : F
  add : F → F → F
  lt : F → F → Bool
  divCount : F → Nat → F
  parseFinite : String → Option F

structure Sample (F : Type*) where
  ts : Int
  value : F

/-- A range of timestamps, both ends included. -/
structure TimeRange where
  startMs : Int
  endMs : Int
  start_ge : i64Min ≤ startMs
  start_le : startMs ≤ i64Max
  end_ge : i64Min ≤ endMs
  end_le : endMs ≤ i64Max

def TimeRange.contains (range : TimeRange) (ts : Int) : Bool :=
  range.startMs ≤ ts && ts ≤ range.endMs

structure TimeseriesEngine (F : Type*) where
  collections : SortedMap String (List (Sample F))

structure BucketAgg (F : Type*) where
  count : Nat
  sum : F
  min : F
  max : F

inductive Value (F : Type*)
  | null
  | integer (n : Int)
  | float (x : F)

inductive GapFill (F : Type*)
  | null
  | prev
  | literal (x : F)

abbrev QueryResult (F : Type*) := NodedbLite.QueryResult (Value F)

structure BucketScanParams where
  range : TimeRange
  bucketMs : Int
  bucket_pos : 0 < bucketMs
  bucket_le : bucketMs ≤ i64Max
  aggregates : List (String × String)
  gapFill : String
  projection : List String
  limit : Nat

section Model

variable (ops : FloatOps F)

def scan (engine : TimeseriesEngine F) (collection : String) (range : TimeRange) :
    List (Sample F) :=
  match engine.collections.get collection with
  | none => []
  | some samples =>
    (samples.filter fun s => range.contains s.ts).mergeSort fun a b => a.ts ≤ b.ts

/-- The bucket of a timestamp. The division rounds towards zero. -/
def bucketOf (bucketMs ts : Int) : Int := ts.tdiv bucketMs * bucketMs

def BucketAgg.note (agg : BucketAgg F) (s : Sample F) : BucketAgg F where
  count := agg.count + 1
  sum := ops.add agg.sum s.value
  min := if ops.lt s.value agg.min then s.value else agg.min
  max := if ops.lt agg.max s.value then s.value else agg.max

def BucketAgg.new : BucketAgg F := ⟨0, ops.zero, ops.infinity, ops.negInfinity⟩

def aggregateByBucket (engine : TimeseriesEngine F) (collection : String) (range : TimeRange)
    (bucketMs : Int) : SortedMap Int (BucketAgg F) :=
  let rows := scan engine collection range
  if rows.isEmpty ∨ bucketMs ≤ 0 then .empty
  else
    Buckets.collect (fun s => bucketOf bucketMs s.ts) (BucketAgg.note ops (.new ops))
      (BucketAgg.note ops) rows

def parseGapFill (gapFill : String) : Except LiteError (GapFill F) :=
  if gapFill = "" ∨ gapFill = "null" ∨ gapFill = "none" then .ok .null
  else if gapFill = "prev" then .ok .prev
  else if gapFill = "linear" ∨ gapFill = "next" then
    .error (.unsupported ("gap_fill = '" ++ gapFill ++ "' is not supported on the timeseries " ++
      "engine in Lite; use 'prev', 'null', or a numeric literal"))
  else
    match ops.parseFinite gapFill with
    | some x => .ok (.literal x)
    | none =>
      .error (.unsupported ("gap_fill = '" ++ gapFill ++ "' is not a known strategy on the " ++
        "timeseries engine in Lite; use 'prev', 'null', or a numeric literal"))

/-- The bucket start of an end of the range. -/
def spanEnd (bucketMs ms : Int) : Int := if 0 ≤ ms then bucketOf bucketMs ms else ms

def saturatingAdd (a b : Int) : Int := max i64Min (min (a + b) i64Max)

/-- The bucket starts of the span. -/
def expectedFrom (bucketMs last : Int) : Nat → Int → Option (List Int)
  | 0, _ => none
  | fuel + 1, b =>
    if b ≤ last then
      (expectedFrom bucketMs last fuel (saturatingAdd b bucketMs)).map (b :: ·)
    else some []

def aggValue (agg : BucketAgg F) (op : String) : Value F :=
  if op = "count" then .integer agg.count
  else if op = "sum" then .float agg.sum
  else if op = "min" then .float agg.min
  else if op = "max" then .float agg.max
  else if op = "avg" ∨ op = "mean" then
    if 0 < agg.count then .float (ops.divCount agg.sum agg.count) else .null
  else .null

def gapValues (gapFill : GapFill F) (aggOps : List String) (prevRow : Option (List (Value F))) :
    List (Value F) :=
  match gapFill with
  | .null => aggOps.map fun _ => .null
  | .prev =>
    match prevRow with
    | some prev => prev.drop 1
    | none => aggOps.map fun _ => .null
  | .literal x => aggOps.map fun _ => .float x

def bucketRow (buckets : SortedMap Int (BucketAgg F)) (gapFill : GapFill F) (aggOps : List String)
    (prevRow : Option (List (Value F))) (bucketStart : Int) : List (Value F) :=
  .integer bucketStart ::
    match buckets.get bucketStart with
    | some agg => aggOps.map (aggValue ops agg)
    | none => gapValues gapFill aggOps prevRow

/-- The rows of the span, up to the limit. -/
def bucketRows (buckets : SortedMap Int (BucketAgg F)) (gapFill : GapFill F) (aggOps : List String)
    (limit : Nat) : Option (List (Value F)) → Nat → List Int → List (List (Value F))
  | _, _, [] => []
  | prevRow, emitted, bucketStart :: rest =>
    let row := bucketRow ops buckets gapFill aggOps prevRow bucketStart
    row :: if 0 < limit ∧ limit ≤ emitted + 1 then []
      else bucketRows buckets gapFill aggOps limit (some row) (emitted + 1) rest

def projectRows (result : QueryResult F) (projection : List String) : QueryResult F :=
  let indices := projection.filterMap fun p => result.columns.findIdx? (· = p)
  if indices = [] then result
  else
    ⟨indices.map fun i => result.columns.getD i "",
      result.rows.map fun row => indices.map fun i => row.getD i .null, 0, none⟩

def bucketScan (engine : TimeseriesEngine F) (collection : String) (params : BucketScanParams)
    (fuel : Nat) : Option (Except LiteError (QueryResult F)) :=
  match parseGapFill ops params.gapFill with
  | .error e => some (.error e)
  | .ok gapFill =>
    let buckets := aggregateByBucket ops engine collection params.range params.bucketMs
    (expectedFrom params.bucketMs (spanEnd params.bucketMs params.range.endMs) fuel
      (spanEnd params.bucketMs params.range.startMs)).map fun expected =>
        let aggOps :=
          if params.aggregates = [] then ["count", "sum", "min", "max"]
          else params.aggregates.map Prod.fst
        let result : QueryResult F :=
          ⟨"bucket" :: aggOps,
            bucketRows ops buckets gapFill aggOps params.limit none 0 expected, 0, none⟩
        .ok (if params.projection = [] then result else projectRows result params.projection)

end Model

section Rounding

variable {b : Int}

lemma dvd_bucketOf (b ts : Int) : b ∣ bucketOf b ts := Int.dvd_mul_left _ _

lemma bucketOf_of_dvd {ts : Int} (h : b ∣ ts) : bucketOf b ts = ts := Int.tdiv_mul_cancel h

lemma bucketOf_of_nonneg {ts : Int} (hts : 0 ≤ ts) : bucketOf b ts = ts - ts % b := by
  rw [bucketOf, Int.tdiv_eq_ediv_of_nonneg hts, Int.mul_comm]
  have := Int.mul_ediv_add_emod ts b
  omega

lemma bucketOf_holds (hb : 0 < b) {ts : Int} (h : 0 ≤ ts ∨ b ∣ ts) :
    bucketOf b ts ≤ ts ∧ ts < bucketOf b ts + b := by
  obtain hts | hdvd := h
  · have := Int.emod_nonneg ts hb.ne'
    have := Int.emod_lt_of_pos ts hb
    rw [bucketOf_of_nonneg hts]
    omega
  · rw [bucketOf_of_dvd hdvd]
    omega

/-- A negative timestamp goes to the bucket that starts after it. -/
lemma bucketOf_of_neg {ts : Int} (hts : ts < 0) :
    bucketOf b ts = ts + (-ts) % b := by
  have hneg : bucketOf b ts = -bucketOf b (-ts) := by
    rw [bucketOf, bucketOf, Int.neg_tdiv, Int.neg_mul, Int.neg_neg]
  rw [hneg, bucketOf_of_nonneg (by omega)]
  omega

lemma bucketOf_mono (hb : 0 < b) {s t : Int} (hs : 0 ≤ s) (hst : s ≤ t) :
    bucketOf b s ≤ bucketOf b t := by
  rw [bucketOf, bucketOf, Int.tdiv_eq_ediv_of_nonneg hs, Int.tdiv_eq_ediv_of_nonneg (hs.trans hst)]
  exact Int.mul_le_mul_of_nonneg_right (Int.ediv_le_ediv hb hst) hb.le

lemma bucketOf_le (hb : 0 < b) {ts : Int} (hts : 0 ≤ ts) : bucketOf b ts ≤ ts :=
  (bucketOf_holds hb (.inl hts)).1

lemma bucketOf_nonneg (hb : 0 < b) {ts : Int} (hts : 0 ≤ ts) : 0 ≤ bucketOf b ts := by
  have h := bucketOf_mono hb (Int.le_refl 0) hts
  rwa [bucketOf, Int.zero_tdiv, Int.zero_mul] at h

end Rounding

section Span

variable {b last : Int}

/-- The bucket starts from a first one to a last one. -/
structure Span (b first last : Int) (l : List Int) : Prop where
  mem : ∀ x, x ∈ l ↔ x ≤ last ∧ ∃ i : Nat, x = first + i * b
  apart : l.Pairwise fun x y => x + b ≤ y

lemma expectedFrom_gives (hb : 0 < b) (hlast : last < i64Max) (first : Int)
    (hfirst : i64Min ≤ first) :
    ∃ l, Gives (fun fuel => expectedFrom b last fuel first) l ∧ Span b first last l := by
  induction hm : (last + 1 - first).toNat using Nat.strong_induction_on generalizing first with
  | _ m ih =>
    by_cases hle : first ≤ last
    · -- the next start is past the span when the addition saturates
      have hnext : first < saturatingAdd first b := by
        unfold saturatingAdd
        omega
      obtain ⟨l, hgives, hspan⟩ := ih _ (by omega) (saturatingAdd first b)
        (Int.le_max_left _ _) rfl
      refine ⟨first :: l, .of_succ ?_, fun x => ?_, ?_⟩
      · simp only [expectedFrom, if_pos hle]
        exact hgives.map (first :: ·)
      · rw [List.mem_cons, hspan.mem]
        constructor
        · rintro (rfl | ⟨hx, i, rfl⟩)
          · exact ⟨hle, 0, by simp⟩
          · have hnosat : saturatingAdd first b = first + b := by
              have : 0 ≤ (i : Int) * b := Int.mul_nonneg (Int.natCast_nonneg i) hb.le
              unfold saturatingAdd at hx ⊢
              omega
            refine ⟨hx, i + 1, ?_⟩
            rw [hnosat]
            push_cast
            ring
        · rintro ⟨hx, i, rfl⟩
          cases i with
          | zero => exact .inl (by simp)
          | succ i =>
            have hstep : first + ((i + 1 : Nat) : Int) * b = first + b + i * b := by
              push_cast
              ring
            rw [hstep] at hx ⊢
            have hnosat : saturatingAdd first b = first + b := by
              have : 0 ≤ (i : Int) * b := Int.mul_nonneg (Int.natCast_nonneg i) hb.le
              unfold saturatingAdd
              omega
            exact .inr ⟨hx, i, by rw [hnosat]⟩
      · refine List.pairwise_cons.mpr ⟨fun y hy => ?_, hspan.apart⟩
        obtain ⟨hy, i, rfl⟩ := (hspan.mem y).mp hy
        have : 0 ≤ (i : Int) * b := Int.mul_nonneg (Int.natCast_nonneg i) hb.le
        unfold saturatingAdd at hy ⊢
        omega
    · refine ⟨[], .of_succ ?_, fun x => ?_, .nil⟩
      · simp only [expectedFrom, if_neg hle]
        exact .of_const []
      · simp only [List.not_mem_nil, false_iff, not_and, not_exists]
        rintro hx i rfl
        have : 0 ≤ (i : Int) * b := Int.mul_nonneg (Int.natCast_nonneg i) hb.le
        omega

/-- A span up to the last timestamp never ends. -/
lemma expectedFrom_stuck (fuel : Nat) {first : Int} (hfirst : first ≤ i64Max) :
    expectedFrom b i64Max fuel first = none := by
  induction fuel generalizing first with
  | zero => rfl
  | succ fuel ih =>
    have hnext : saturatingAdd first b ≤ i64Max := by
      unfold saturatingAdd i64Min i64Max
      omega
    rw [expectedFrom, if_pos hfirst, ih hnext, Option.map_none]

lemma Span.nodup (hb : 0 < b) {first : Int} {l : List Int} (h : Span b first last l) : l.Nodup :=
  h.apart.imp fun hxy heq => by omega

lemma Span.unique {first : Int} {l : List Int} (h : Span b first last l) {x y ts : Int}
    (hx : x ∈ l) (hy : y ∈ l) (hxts : x ≤ ts ∧ ts < x + b) (hyts : y ≤ ts ∧ ts < y + b) : x = y := by
  by_contra hne
  have : Std.Symm fun x y : Int => x + b ≤ y ∨ y + b ≤ x := ⟨fun _ _ h => h.symm⟩
  have hapart := (h.apart.imp (S := fun x y => x + b ≤ y ∨ y + b ≤ x) Or.inl).forall hx hy hne
  omega

end Span

section Counts

variable {ops : FloatOps F}

/-- The timestamps of the samples in a range. -/
def timestampsIn (engine : TimeseriesEngine F) (collection : String) (range : TimeRange) :
    List Int :=
  (((engine.collections.get collection).getD []).map Sample.ts).filter range.contains

/-- The bucket of a row and its count, 0 for a gap. -/
def rowCount : List (Value F) → Option (Int × Nat)
  | .integer bucketStart :: .integer count :: _ => some (bucketStart, count.toNat)
  | .integer bucketStart :: .null :: _ => some (bucketStart, 0)
  | _ => none

/-- Every row counts the timestamps that its bucket holds, every timestamp is held by one row, and
the counts make up all timestamps. -/
structure Conserves (bucketMs : Int) (timestamps : List Int) (counts : List (Int × Nat)) : Prop where
  counted : ∀ row ∈ counts,
    row.2 = timestamps.countP fun ts => row.1 ≤ ts ∧ ts < row.1 + bucketMs
  held : ∀ ts ∈ timestamps,
    (counts.filter fun row => row.1 ≤ ts ∧ ts < row.1 + bucketMs).length = 1
  total : (counts.map Prod.snd).sum = timestamps.length

lemma map_scan_perm (engine : TimeseriesEngine F) (collection : String) (range : TimeRange) :
    ((scan engine collection range).map Sample.ts).Perm (timestampsIn engine collection range) := by
  rw [scan, timestampsIn]
  cases engine.collections.get collection with
  | none => exact .nil
  | some samples =>
    rw [Option.getD_some, List.filter_map]
    exact (List.mergeSort_perm _ _).map Sample.ts

lemma count_bucket (l : List (Sample F)) :
    ((Buckets.bucket (BucketAgg.note ops (.new ops)) (BucketAgg.note ops) l).map
      BucketAgg.count).getD 0 = l.length ∧
    (Buckets.bucket (BucketAgg.note ops (.new ops)) (BucketAgg.note ops) l = none ↔ l = []) := by
  cases l with
  | nil => exact ⟨rfl, by simp [Buckets.bucket]⟩
  | cons s l =>
    refine ⟨?_, by simp [Buckets.bucket]⟩
    have hcount : ∀ (l : List (Sample F)) (agg : BucketAgg F),
        (l.foldl (BucketAgg.note ops) agg).count = agg.count + l.length := by
      intro l
      induction l with
      | nil => exact fun agg => rfl
      | cons s l ih =>
        intro agg
        rw [List.foldl_cons, ih, List.length_cons, BucketAgg.note]
        change agg.count + 1 + l.length = _
        omega
    simp only [Buckets.bucket, Option.map_some, Option.getD_some, hcount]
    change 0 + 1 + l.length = _
    rw [List.length_cons]
    omega

lemma count_aggregateByBucket (ops : FloatOps F) (engine : TimeseriesEngine F) (collection : String)
    (range : TimeRange) {bucketMs : Int} (hb : 0 < bucketMs) (e : Int) :
    (((aggregateByBucket ops engine collection range bucketMs).get e).map BucketAgg.count).getD 0 =
      (timestampsIn engine collection range).countP fun ts => bucketOf bucketMs ts = e := by
  rw [← (map_scan_perm engine collection range).countP_eq, List.countP_map, aggregateByBucket]
  by_cases hempty : (scan engine collection range).isEmpty
  · simp [List.isEmpty_iff.mp hempty]
  · have hcollect : ¬((scan engine collection range).isEmpty = true ∨ bucketMs ≤ 0) := by
      rintro (h | h)
      · exact hempty h
      · omega
    rw [if_neg hcollect, Buckets.get_collect, (count_bucket _).1, List.countP_eq_length_filter]
    rfl

/-- The start of a bucket, and the count of its row. -/
def countRow (bucketMs : Int) (timestamps : List Int) (e : Int) : Int × Nat :=
  (e, timestamps.countP fun ts => bucketOf bucketMs ts = e)

lemma rowCount_bucketRow (engine : TimeseriesEngine F) (collection : String) (range : TimeRange)
    {bucketMs : Int} (hb : 0 < bucketMs) (prevRow : Option (List (Value F))) (e : Int) :
    rowCount (bucketRow ops (aggregateByBucket ops engine collection range bucketMs) .null
      ["count", "sum", "min", "max"] prevRow e) =
      some (countRow bucketMs (timestampsIn engine collection range) e) := by
  have hcount := count_aggregateByBucket ops engine collection range hb e
  rw [bucketRow, countRow, ← hcount]
  cases (aggregateByBucket ops engine collection range bucketMs).get e with
  | none => rfl
  | some agg => simp [aggValue, rowCount]

lemma filterMap_rowCount_bucketRows (ops : FloatOps F) (engine : TimeseriesEngine F) (collection : String)
    (range : TimeRange) {bucketMs : Int} (hb : 0 < bucketMs) (prevRow : Option (List (Value F)))
    (emitted : Nat) (expected : List Int) :
    (bucketRows ops (aggregateByBucket ops engine collection range bucketMs) .null
      ["count", "sum", "min", "max"] 0 prevRow emitted expected).filterMap rowCount =
      expected.map (countRow bucketMs (timestampsIn engine collection range)) := by
  induction expected generalizing prevRow emitted with
  | nil => rfl
  | cons e expected ih =>
    simp only [bucketRows, Nat.lt_irrefl, false_and, if_false]
    rw [List.filterMap_cons_some (rowCount_bucketRow engine collection range hb prevRow e), ih]
    rfl

end Counts

section Conservation

variable {b : Int} {range : TimeRange} {timestamps : List Int}

/-- Where the range starts and its negative timestamps stand: at starts of buckets. -/
def Aligned (b : Int) (range : TimeRange) (timestamps : List Int) : Prop :=
  (0 ≤ range.startMs ∨ b ∣ range.startMs) ∧ ∀ ts ∈ timestamps, 0 ≤ ts ∨ b ∣ ts

lemma bucketOf_mem_span (hb : 0 < b) {l : List Int}
    (hspan : Span b (spanEnd b range.startMs) (spanEnd b range.endMs) l)
    (hstart : 0 ≤ range.startMs ∨ b ∣ range.startMs) {ts : Int} (hrange : range.contains ts)
    (hts : 0 ≤ ts ∨ b ∣ ts) : bucketOf b ts ∈ l := by
  rw [TimeRange.contains, Bool.and_eq_true, decide_eq_true_eq, decide_eq_true_eq] at hrange
  have hfirst : spanEnd b range.startMs = bucketOf b range.startMs := by
    rw [spanEnd]
    split_ifs with h
    · rfl
    · exact (bucketOf_of_dvd (hstart.resolve_left h)).symm
  have hle : bucketOf b range.startMs ≤ bucketOf b ts := by
    obtain hs | hs := hstart
    · exact bucketOf_mono hb hs hrange.1
    · have hdvd : b ∣ bucketOf b ts - range.startMs := Int.dvd_sub (dvd_bucketOf b ts) hs
      have hholds := bucketOf_holds hb hts
      rw [bucketOf_of_dvd hs]
      by_contra hlt
      obtain ⟨k, hk⟩ := hdvd
      have hk0 : k < 0 := by
        by_contra hk0
        have := Int.mul_nonneg hb.le (not_lt.mp hk0)
        omega
      have : b * k ≤ b * (-1) := Int.mul_le_mul_of_nonneg_left (by omega) hb.le
      omega
  rw [hspan.mem, hfirst]
  constructor
  · rw [spanEnd]
    split_ifs with hend
    · by_cases h0 : 0 ≤ ts
      · exact bucketOf_mono hb h0 hrange.2
      · have := bucketOf_nonneg hb hend
        rw [bucketOf_of_dvd (hts.resolve_left h0)]
        omega
    · rw [bucketOf_of_dvd (hts.resolve_left (by omega))]
      exact hrange.2
  · obtain ⟨k, hk⟩ := Int.dvd_sub (dvd_bucketOf b ts) (dvd_bucketOf b range.startMs)
    have hk0 : 0 ≤ k := by
      by_contra hk0
      have : b * k ≤ b * (-1) := Int.mul_le_mul_of_nonneg_left (by omega) hb.le
      omega
    refine ⟨k.toNat, ?_⟩
    rw [Int.toNat_of_nonneg hk0, Int.mul_comm k b]
    omega

lemma conserves_of_aligned (hb : 0 < b) {l : List Int}
    (hspan : Span b (spanEnd b range.startMs) (spanEnd b range.endMs) l)
    (hrange : ∀ ts ∈ timestamps, range.contains ts) (h : Aligned b range timestamps) :
    Conserves b timestamps (l.map (countRow b timestamps)) := by
  have hmem : ∀ ts ∈ timestamps, bucketOf b ts ∈ l := fun ts hts =>
    bucketOf_mem_span hb hspan h.1 (hrange ts hts) (h.2 ts hts)
  have hholds : ∀ ts ∈ timestamps, ∀ e ∈ l, bucketOf b ts = e ↔ e ≤ ts ∧ ts < e + b := by
    intro ts hts e he
    have hbucket := bucketOf_holds hb (h.2 ts hts)
    exact ⟨fun heq => heq ▸ hbucket, fun hheld => hspan.unique (hmem ts hts) he hbucket hheld⟩
  refine ⟨?_, fun ts hts => ?_, ?_⟩
  · rintro row hrow
    obtain ⟨e, he, rfl⟩ := List.mem_map.mp hrow
    refine List.countP_congr fun ts hts => ?_
    simp only [decide_eq_true_eq]
    exact hholds ts hts e he
  · rw [List.filter_map, List.length_map]
    have hfilter : l.filter ((fun row => decide (row.1 ≤ ts ∧ ts < row.1 + b)) ∘
        countRow b timestamps) = l.filter (fun e => e = bucketOf b ts) := by
      refine List.filter_congr fun e he => decide_eq_decide.mpr ?_
      exact (hholds ts hts e he).symm.trans eq_comm
    rw [hfilter, ← List.countP_eq_length_filter, ← List.count_eq_one_of_mem (hspan.nodup hb)
      (hmem ts hts), List.count]
    exact List.countP_congr fun e _ => by simp
  · have hsum := Multiplicity.sum_map_count (hspan.nodup hb) (l := timestamps.map (bucketOf b))
      (by simpa using hmem)
    rw [List.length_map] at hsum
    rw [← hsum, List.map_map]
    refine congrArg List.sum (List.map_congr_left fun e _ => ?_)
    rw [List.count, List.countP_map]
    exact List.countP_congr fun ts _ => by simp

lemma exists_least {p : Int → Prop} {l : List Int} (h : ∃ x ∈ l, p x) :
    ∃ x ∈ l, p x ∧ ∀ y ∈ l, p y → x ≤ y := by
  classical
  obtain ⟨x, hx, hp⟩ := h
  obtain ⟨m, hm, hleast⟩ := (l.toFinset.filter p).exists_minimal
    ⟨x, Finset.mem_filter.mpr ⟨List.mem_toFinset.mpr hx, hp⟩⟩
  obtain ⟨hml, hpm⟩ := Finset.mem_filter.mp hm
  refine ⟨m, List.mem_toFinset.mp hml, hpm, fun y hy hpy => ?_⟩
  by_contra hlt
  exact hlt (hleast (Finset.mem_filter.mpr ⟨List.mem_toFinset.mpr hy, hpy⟩) (not_le.mp hlt).le)

lemma countP_lt_countP {α : Type*} {p q : α → Prop} [DecidablePred p] [DecidablePred q]
    {l : List α} (hpq : ∀ x ∈ l, p x → q x) {a : α} (ha : a ∈ l) (hq : q a) (hp : ¬p a) :
    l.countP (fun x => p x) < l.countP (fun x => q x) := by
  induction l with
  | nil => cases ha
  | cons x l ih =>
    have hle : l.countP (fun x => p x) ≤ l.countP (fun x => q x) :=
      List.countP_mono_left fun y hy hpy => decide_eq_true
        (hpq y (List.mem_cons_of_mem x hy) (of_decide_eq_true hpy))
    have hx := hpq x (.head _)
    rw [List.countP_cons, List.countP_cons]
    obtain rfl | ha := List.mem_cons.mp ha
    · simp [hp, hq]
      omega
    · have hlt := ih (fun y hy => hpq y (List.mem_cons_of_mem x hy)) ha
      by_cases hpx : p x
      · simp [hpx, hx hpx]
        omega
      · by_cases hqx : q x <;> simp [hpx, hqx] <;> omega

/-- A range that starts at a negative timestamp inside a bucket has no row for any bucket. -/
lemma start_aligned {l : List Int}
    (hspan : Span b (spanEnd b range.startMs) (spanEnd b range.endMs) l)
    (hne : timestamps ≠ []) (h : Conserves b timestamps (l.map (countRow b timestamps))) :
    0 ≤ range.startMs ∨ b ∣ range.startMs := by
  by_contra hstart
  obtain ⟨hneg, hdvd⟩ := not_or.mp hstart
  have hzero : ∀ row ∈ l.map (countRow b timestamps), row.2 = 0 := by
    intro row hrow
    obtain ⟨e, he, rfl⟩ := List.mem_map.mp hrow
    refine List.countP_eq_zero.mpr fun ts _ heq => hdvd ?_
    obtain ⟨-, i, hi⟩ := (hspan.mem e).mp he
    rw [spanEnd, if_neg hneg] at hi
    have hbucket := dvd_bucketOf b ts
    rw [of_decide_eq_true heq, hi] at hbucket
    exact (Int.dvd_add_left (Int.dvd_mul_left _ _)).mp hbucket
  have htotal := h.total
  rw [List.sum_eq_zero (by simpa using hzero)] at htotal
  exact hne (List.length_eq_zero_iff.mp htotal.symm)

/-- A negative timestamp inside a bucket is missing from the count of the bucket that holds it. -/
lemma timestamps_aligned (hb : 0 < b) {l : List Int}
    (hspan : Span b (spanEnd b range.startMs) (spanEnd b range.endMs) l)
    (hrange : ∀ ts ∈ timestamps, range.contains ts)
    (hstart : 0 ≤ range.startMs ∨ b ∣ range.startMs)
    (h : Conserves b timestamps (l.map (countRow b timestamps))) :
    ∀ ts ∈ timestamps, 0 ≤ ts ∨ b ∣ ts := by
  by_contra hall
  push Not at hall
  -- the least such timestamp: the one before it that goes to its bucket would be less
  obtain ⟨ts, hts, ⟨hneg, hdvd⟩, hleast⟩ := exists_least hall
  have hcontains := hrange ts hts
  rw [TimeRange.contains, Bool.and_eq_true, decide_eq_true_eq, decide_eq_true_eq] at hcontains
  have hs : b ∣ range.startMs := hstart.resolve_left (by omega)
  set e := ts - ts % b with he
  have hmod0 := Int.emod_nonneg ts hb.ne'
  have hmodlt := Int.emod_lt_of_pos ts hb
  have hmodne : ts % b ≠ 0 := fun h0 => hdvd (Int.dvd_of_emod_eq_zero h0)
  have hedvd : b ∣ e := Int.dvd_self_sub_of_emod_eq rfl
  have hmem : e ∈ l := by
    have hcont : range.contains e := by
      rw [TimeRange.contains, Bool.and_eq_true, decide_eq_true_eq, decide_eq_true_eq]
      refine ⟨?_, by omega⟩
      by_contra hlt
      obtain ⟨k, hk⟩ := Int.dvd_sub hs hedvd
      have hk0 : 0 < k := by
        by_contra hk0
        have : b * k ≤ b * 0 := Int.mul_le_mul_of_nonneg_left (by omega) hb.le
        omega
      have : b * 1 ≤ b * k := Int.mul_le_mul_of_nonneg_left (by omega) hb.le
      omega
    have := bucketOf_mem_span hb hspan hstart hcont (.inr hedvd)
    rwa [bucketOf_of_dvd hedvd] at this
  have hcounted := h.counted _ (List.mem_map_of_mem (f := countRow b timestamps) hmem)
  simp only [countRow] at hcounted
  refine absurd hcounted (Nat.ne_of_lt (countP_lt_countP (fun x hx hbucket => ?_) hts
    ⟨by omega, by omega⟩ fun hbucket => ?_))
  · -- a timestamp that goes to this bucket from below is less than the least one
    have hxe : x = e := by
      by_cases hx0 : 0 ≤ x
      · have := bucketOf_nonneg hb hx0
        omega
      · by_cases hxdvd : b ∣ x
        · rwa [bucketOf_of_dvd hxdvd] at hbucket
        · have hle := hleast x hx ⟨by omega, hxdvd⟩
          have hup := bucketOf_of_neg (b := b) (not_le.mp hx0)
          have := Int.emod_nonneg (-x) hb.ne'
          omega
    omega
  · have hup := bucketOf_of_neg (b := b) hneg
    have := Int.emod_nonneg (-ts) hb.ne'
    omega

lemma conserves_iff (hb : 0 < b) {l : List Int}
    (hspan : Span b (spanEnd b range.startMs) (spanEnd b range.endMs) l)
    (hrange : ∀ ts ∈ timestamps, range.contains ts) :
    Conserves b timestamps (l.map (countRow b timestamps)) ↔
      timestamps = [] ∨ Aligned b range timestamps := by
  constructor
  · intro h
    by_cases hne : timestamps = []
    · exact .inl hne
    · have hstart := start_aligned hspan hne h
      exact .inr ⟨hstart, timestamps_aligned hb hspan hrange hstart h⟩
  · rintro (rfl | h)
    · refine ⟨?_, fun ts hts => absurd hts List.not_mem_nil, ?_⟩
      · rintro row hrow
        obtain ⟨e, -, rfl⟩ := List.mem_map.mp hrow
        rfl
      · exact List.sum_eq_zero (by simp [countRow])
    · exact conserves_of_aligned hb hspan hrange h

end Conservation

/-- A scan with the default aggregates, empty buckets left empty, and every row. -/
def plainScan (range : TimeRange) (bucketMs : Int) (hpos : 0 < bucketMs) (hle : bucketMs ≤ i64Max) :
    BucketScanParams :=
  ⟨range, bucketMs, hpos, hle, [], "", [], 0⟩

lemma bucketScan_plainScan (ops : FloatOps F) (engine : TimeseriesEngine F) (collection : String)
    (range : TimeRange) {bucketMs : Int} (hpos : 0 < bucketMs) (hle : bucketMs ≤ i64Max)
    (fuel : Nat) :
    bucketScan ops engine collection (plainScan range bucketMs hpos hle) fuel =
      (expectedFrom bucketMs (spanEnd bucketMs range.endMs) fuel
        (spanEnd bucketMs range.startMs)).map fun expected =>
          .ok ⟨["bucket", "count", "sum", "min", "max"],
            bucketRows ops (aggregateByBucket ops engine collection range bucketMs) .null
              ["count", "sum", "min", "max"] 0 none 0 expected, 0, none⟩ := rfl

lemma spanEnd_bounds {b ms : Int} (hb : 0 < b) (hge : i64Min ≤ ms) (hle : ms ≤ i64Max) :
    i64Min ≤ spanEnd b ms ∧ spanEnd b ms ≤ i64Max := by
  rw [spanEnd]
  split_ifs with h
  · have h₁ := bucketOf_nonneg hb h
    have h₂ := bucketOf_le hb h
    have h₃ : i64Min ≤ 0 := by decide
    omega
  · exact ⟨hge, hle⟩

/-- A scan ends and conserves the samples exactly if the span does not end at the last timestamp,
and no sample is in the range or the range and its negative timestamps start buckets. -/
theorem bucket_scan_conserves_iff (ops : FloatOps F) (engine : TimeseriesEngine F)
    (collection : String) (range : TimeRange) (bucketMs : Int) (hpos : 0 < bucketMs)
    (hle : bucketMs ≤ i64Max) :
    (∃ result, Gives (bucketScan ops engine collection (plainScan range bucketMs hpos hle))
        (.ok result) ∧
      Conserves bucketMs (timestampsIn engine collection range) (result.rows.filterMap rowCount)) ↔
      spanEnd bucketMs range.endMs ≠ i64Max ∧
        (timestampsIn engine collection range = [] ∨
          Aligned bucketMs range (timestampsIn engine collection range)) := by
  have hrange : ∀ ts ∈ timestampsIn engine collection range, range.contains ts :=
    fun ts hts => (List.mem_filter.mp hts).2
  have hfirst := spanEnd_bounds hpos range.start_ge range.start_le
  have hlast := spanEnd_bounds hpos range.end_ge range.end_le
  by_cases hend : spanEnd bucketMs range.endMs = i64Max
  · refine iff_of_false ?_ fun h => h.1 hend
    rintro ⟨result, ⟨n, hn⟩, -⟩
    have hresult := hn n (Nat.le_refl n)
    rw [bucketScan_plainScan, hend, expectedFrom_stuck n hfirst.2] at hresult
    cases hresult
  · obtain ⟨l, hgives, hspan⟩ := expectedFrom_gives hpos (lt_of_le_of_ne hlast.2 hend)
      (spanEnd bucketMs range.startMs) hfirst.1
    have hscan : Gives (bucketScan ops engine collection (plainScan range bucketMs hpos hle)) _ :=
      (hgives.map _ : Gives (fun fuel => _) _)
    have hrows := filterMap_rowCount_bucketRows ops engine collection range hpos none 0 l
    rw [← conserves_iff hpos hspan hrange, ← hrows]
    constructor
    · rintro ⟨result, hresult, hconserves⟩
      obtain rfl := Except.ok.inj (hscan.unique hresult)
      exact ⟨hend, hconserves⟩
    · rintro ⟨-, hconserves⟩
      exact ⟨_, hscan, hconserves⟩

/-- Samples whose values do not matter, at these timestamps. -/
def samplesAt (timestamps : List Int) : TimeseriesEngine Unit :=
  ⟨SortedMap.empty.insert "m" (timestamps.map fun ts => ⟨ts, ()⟩)⟩

def unitOps : FloatOps Unit where
  zero := ()
  infinity := ()
  negInfinity := ()
  add _ _ := ()
  lt _ _ := false
  divCount _ _ := ()
  parseFinite _ := none

def rangeOf (startMs endMs : Int) (h : i64Min ≤ startMs ∧ startMs ≤ i64Max)
    (h' : i64Min ≤ endMs ∧ endMs ≤ i64Max) : TimeRange :=
  ⟨startMs, endMs, h.1, h.2, h'.1, h'.2⟩

theorem bucket_scan_conserves_two_buckets :
    ∃ result, Gives (bucketScan unitOps (samplesAt [5, 15]) "m"
        (plainScan (rangeOf 0 20 (by decide) (by decide)) 10 (by decide) (by decide)))
        (.ok result) ∧
      Conserves 10 [5, 15] (result.rows.filterMap rowCount) :=
  (bucket_scan_conserves_iff unitOps (samplesAt [5, 15]) "m"
    (rangeOf 0 20 (by decide) (by decide)) 10 (by decide) (by decide)).mpr
      ⟨by decide, .inr ⟨by decide, by decide⟩⟩

/-- A sample at -5 is counted in the bucket from 0 to 10, and a scan of the whole range by
milliseconds never ends. -/
theorem negative_sample_in_next_bucket :
    (∃ result, Gives (bucketScan unitOps (samplesAt [-5]) "m"
        (plainScan (rangeOf (-10) 10 (by decide) (by decide)) 10 (by decide) (by decide)))
        (.ok result) ∧
      result.rows.filterMap rowCount = [(-10, 0), (0, 1), (10, 0)]) ∧
    ∀ fuel, bucketScan unitOps (samplesAt []) "m"
      (plainScan (rangeOf 0 i64Max (by decide) (by decide)) 1 (by decide) (by decide)) fuel =
        none := by
  constructor
  · have hspan : ∀ m, 4 ≤ m → expectedFrom 10 10 m (-10) = some [-10, 0, 10] := by
      intro m hm
      obtain ⟨k, rfl⟩ := Nat.exists_eq_add_of_le' hm
      rfl
    refine ⟨⟨["bucket", "count", "sum", "min", "max"], _, 0, none⟩, ⟨4, fun m hm => ?_⟩,
      (filterMap_rowCount_bucketRows unitOps (samplesAt [-5]) "m"
        (rangeOf (-10) 10 (by decide) (by decide)) (show (0 : Int) < 10 by decide) none 0
        [-10, 0, 10]).trans (by decide)⟩
    rw [bucketScan_plainScan]
    change (expectedFrom 10 10 m (-10)).map _ = _
    rw [hspan m hm]
    rfl
  · intro fuel
    rw [bucketScan_plainScan]
    have hend : spanEnd 1 (rangeOf 0 i64Max (by decide) (by decide)).endMs = i64Max := by decide
    rw [hend, expectedFrom_stuck fuel (by decide)]
    rfl

end NodedbLite.BucketScan
