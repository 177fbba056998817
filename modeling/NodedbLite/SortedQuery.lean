import NodedbLite.ExceptFold
import NodedbLite.PrefixScan
import NodedbLite.SortedDef

/-! Sorted-index reads: rank, top-k and range. A read sees the entries of unexpired
rows stamped at or after the start of the current window, in key order. -/
namespace NodedbLite.Sorted

/-- Registered sorted indexes, and the stored rows of their entries. -/
structure SortedState where
  sorted : SortedMap String SortedIndexDef
  metaRows : SortedMap Bytes Bytes

/-- One visible entry: its score in key-order bytes and its row's key. -/
structure Visible where
  score : Field
  pk : Bytes
  deriving DecidableEq

/-- A cell of a result. Positions of a vector fit an integer cell. -/
inductive Cell
  | null
  | integer (i : Nat)
  | float (bits : UInt64)
  | bytes (b : Bytes)
  deriving DecidableEq, Repr

abbrev QueryResult := NodedbLite.QueryResult Cell

def corrupt (d : SortedIndexDef) (what : String) : LiteError :=
  let name := d.name
  .corrupted s!"sorted index '{name}': {what}"

def notFound (indexName : String) : LiteError := .undefinedObject s!"sorted index '{indexName}'"

def isExpired (deadline nowMs : UInt64) : Bool := deadline ≠ 0 && deadline ≤ nowMs

def result (columns : List String) (rows : List (List Cell)) : QueryResult := ⟨columns, rows, 0, none⟩

def rankedRow (entry : Visible × Nat) : List Cell := [.integer (entry.2 + 1), .bytes entry.1.pk]

/-- `[rank, key]` rows for entries with their places among all visible ones. -/
def rankedRows (entries : List (Visible × Nat)) : QueryResult :=
  result ["rank", "key"] (entries.map rankedRow)

def toField (bytes : Bytes) : Option Field :=
  if h : bytes.length = fieldLen then some ⟨bytes, h⟩ else none

def pkOffset (d : SortedIndexDef) : Nat := if d.window.isWindowed then 2 * fieldLen else fieldLen

/-- Whether an entry with these fields behind the prefix is too old for the window. -/
def tooOld (d : SortedIndexDef) (start : Option UInt64) (rest : Bytes) : Except LiteError Bool :=
  match start with
  | none => .ok false
  | some start =>
    match toField ((rest.drop fieldLen).take fieldLen) with
    | none => .error (corrupt d "score entry timestamp malformed")
    | some ts => .ok (decodeTs ts d.window.timestampDesc < start)

/-- What a read sees of one score entry. -/
def visibleRow (d : SortedIndexDef) (nowMs : UInt64) (row : Bytes × Bytes) :
    Except LiteError (Option Visible) :=
  let rest := row.1.drop (scorePrefix d.name).length
  if rest.length < pkOffset d then .error (corrupt d "score entry key too short")
  else match toField row.2 with
    | none => .error (corrupt d "score entry value is not a deadline")
    | some deadline =>
      if isExpired (UInt64.ofNat (Bytes.toNatLE deadline.1)) nowMs then .ok none
      else match tooOld d (windowStart d.window nowMs) rest with
        | .error e => .error e
        | .ok true => .ok none
        | .ok false =>
          match toField (rest.take fieldLen) with
          | none => .error (corrupt d "score entry score malformed")
          | some score => .ok (some ⟨score, rest.drop (pkOffset d)⟩)

variable (st : SortedState)

/-- Every entry a read at `nowMs` sees, in key order. -/
def visibleEntries (d : SortedIndexDef) (nowMs : UInt64) : Except LiteError (List Visible) :=
  ((PrefixScan.entriesUnder st.metaRows (scorePrefix d.name)).mapM (visibleRow d nowMs)).map
    (·.filterMap id)

def require (indexName : String) : Except LiteError SortedIndexDef :=
  match st.sorted.get indexName with
  | none => .error (notFound indexName)
  | some d => .ok d

/-- The rank of a row from one; null for an unknown index or a row the read does not see. -/
def kvSortedIndexRank (indexName : String) (primaryKey : Bytes) (nowMs : UInt64) :
    Except LiteError QueryResult :=
  match st.sorted.get indexName with
  | none => .ok (result ["rank"] [[.null]])
  | some d => (visibleEntries st d nowMs).map fun entries =>
    result ["rank"] [[match entries.findIdx? (·.pk = primaryKey) with
      | none => .null
      | some position => .integer (position + 1)]]

/-- The first `k` visible entries. -/
def kvSortedIndexTopK (indexName : String) (k : UInt32) (nowMs : UInt64) :
    Except LiteError QueryResult :=
  (require st indexName).bind fun d => (visibleEntries st d nowMs).map fun entries =>
    rankedRows (entries.take k.toNat).zipIdx

def scoreBound (d : SortedIndexDef) (bound : Option Bytes) : Except LiteError (Option Field) :=
  match bound with
  | none => .ok none
  | some bytes =>
    match toField bytes with
    | some field => .ok (some field)
    | none =>
      let name := d.name
      let len := bytes.length
      .error (.badRequest
        s!"SortedIndexRange '{name}': a score bound must be 8 bytes, got {len}")

/-- Whether key-order score bytes lie within bounds in key order; an absent bound is open. -/
def inBounds (lower upper : Option Field) (entry : Visible) : Bool :=
  lower.all (· ≤ entry.score) && upper.all (entry.score ≤ ·)

/-- The visible entries between two score bounds, with their places among all visible ones. A
descending score is stored complemented, so its bounds swap. -/
def kvSortedIndexRange (indexName : String) (scoreMin scoreMax : Option Bytes) (nowMs : UInt64) :
    Except LiteError QueryResult :=
  (require st indexName).bind fun d =>
    (scoreBound d scoreMin).bind fun min =>
      (scoreBound d scoreMax).bind fun max =>
        let lower := if d.scoreDesc then max.map complement else min
        let upper := if d.scoreDesc then min.map complement else max
        (visibleEntries st d nowMs).map fun entries =>
          rankedRows (entries.zipIdx.filter fun entry => inBounds lower upper entry.1)

section Rows

variable {d : SortedIndexDef} {x : Scored} {pk : Bytes} {nowMs : UInt64}

/-- Whether a read at `nowMs` sees the row. -/
def Scored.isVisible (x : Scored) (d : SortedIndexDef) (nowMs : UInt64) : Bool :=
  !isExpired x.deadline nowMs &&
    (windowStart d.window nowMs).all fun start => x.ts.all (start ≤ ·)

/-- The row as a read presents it. -/
def visibleOf (d : SortedIndexDef) (p : Bytes × Scored) : Visible := ⟨(p.2.entry d).score, p.1⟩

/-- The bytes of the timestamp field, none without a window. -/
def PkEntry.tsBytes (e : PkEntry) : Bytes := (e.ts.map Subtype.val).getD []

lemma PkEntry.scoreKey_eq (e : PkEntry) (name : String) (pk : Bytes) :
    e.scoreKey name pk = scorePrefix name ++ (e.score.1 ++ (e.tsBytes ++ pk)) := by
  cases hts : e.ts <;> simp [PkEntry.scoreKey, PkEntry.tsBytes, hts, Sorted.scoreKey, windowedScoreKey]

lemma toField_val (f : Field) : toField f.1 = some f := by
  rw [toField, dif_pos f.2]

lemma toField_scoreValue (e : PkEntry) : ∃ f, toField e.scoreValue = some f ∧
    UInt64.ofNat (Bytes.toNatLE f.1) = e.deadline := by
  have hlen : e.scoreValue.length = fieldLen := Bytes.length_ofNatLE _ _
  refine ⟨⟨e.scoreValue, hlen⟩, by rw [toField, dif_pos hlen], ?_⟩
  have hlt : e.deadline.toNat < 256 ^ fieldLen := e.deadline.toNat_lt
  change UInt64.ofNat (Bytes.toNatLE (Bytes.ofNatLE fieldLen e.deadline.toNat)) = _
  rw [Bytes.toNatLE_ofNatLE, Nat.mod_eq_of_lt hlt, UInt64.ofNat_toNat]

lemma length_score_append_tsBytes (hfits : x.Fits d) :
    ((x.entry d).score.1 ++ (x.entry d).tsBytes).length = pkOffset d := by
  rw [Scored.Fits] at hfits
  rw [List.length_append, (x.entry d).score.2, pkOffset, ← hfits]
  cases hts : x.ts with
  | none => simp [PkEntry.tsBytes, Scored.entry, hts]
  | some t =>
    simp only [PkEntry.tsBytes, Scored.entry, hts, Option.map_some, Option.getD_some,
      Option.isSome_some, if_true]
    rw [(encodeTs t _).2]
    rfl

lemma tooOld_scored (hfits : x.Fits d) (pk : Bytes) (nowMs : UInt64) :
    tooOld d (windowStart d.window nowMs) ((x.entry d).score.1 ++ ((x.entry d).tsBytes ++ pk)) =
      .ok (!(windowStart d.window nowMs).all fun start => x.ts.all (start ≤ ·)) := by
  rw [Scored.Fits, ← windowStart_isSome d.window nowMs] at hfits
  cases hstart : windowStart d.window nowMs with
  | none => rfl
  | some start =>
    rw [hstart, Option.isSome_some, Option.isSome_iff_exists] at hfits
    obtain ⟨t, ht⟩ := hfits
    have hts : (x.entry d).tsBytes = (encodeTs t d.window.timestampDesc).1 := by
      simp [PkEntry.tsBytes, Scored.entry, ht]
    rw [tooOld, List.drop_left' (x.entry d).score.2, hts,
      List.take_left' (encodeTs t d.window.timestampDesc).2, toField_val]
    simp only [decodeTs_encodeTs, ht, Option.all_some]
    rw [← decide_not]
    exact congrArg Except.ok (decide_eq_decide.mpr UInt64.not_le.symm)

lemma visibleRow_scored (hfits : x.Fits d) (pk : Bytes) (nowMs : UInt64) :
    visibleRow d nowMs ((x.entry d).scoreKey d.name pk, (x.entry d).scoreValue) =
      .ok (if x.isVisible d nowMs then some (visibleOf d (pk, x)) else none) := by
  obtain ⟨deadline, hfield, hdeadline⟩ := toField_scoreValue (x.entry d)
  have hlen := length_score_append_tsBytes (d := d) hfits
  have hdrop : ((x.entry d).score.1 ++ ((x.entry d).tsBytes ++ pk)).drop (pkOffset d) = pk := by
    rw [← List.append_assoc, List.drop_left' hlen]
  have hlong : ¬ ((x.entry d).score.1 ++ ((x.entry d).tsBytes ++ pk)).length < pkOffset d := by
    rw [← List.append_assoc, List.length_append, hlen]
    omega
  simp only [visibleRow, PkEntry.scoreKey_eq, List.drop_left, if_neg hlong, hfield, hdeadline,
    tooOld_scored hfits, List.take_left' (x.entry d).score.2, toField_val, hdrop]
  rw [Scored.isVisible, show (x.entry d).deadline = x.deadline from rfl]
  cases isExpired x.deadline nowMs <;>
    cases (windowStart d.window nowMs).all fun start => x.ts.all (start ≤ ·) <;> rfl

end Rows

section Listing

/-- The stored score entries of the index are those of the scored rows, by primary key. -/
structure Holds (st : SortedState) (d : SortedIndexDef) (content : SortedMap Bytes Scored) : Prop where
  fits : ∀ {pk x}, content.get pk = some x → x.Fits d
  rows : ∀ {key value}, scorePrefix d.name <+: key → (st.metaRows.get key = some value ↔
    ∃ pk x, content.get pk = some x ∧ key = (x.entry d).scoreKey d.name pk ∧
      value = (x.entry d).scoreValue)

/-- `p` comes before `q` in key order. -/
def KeyBefore (d : SortedIndexDef) (p q : Bytes × Scored) : Prop :=
  (p.2.entry d).scoreKey d.name p.1 < (q.2.entry d).scoreKey d.name q.1

/-- The rows a read sees, in the order it lists them. -/
structure Lists (st : SortedState) (d : SortedIndexDef) (content : SortedMap Bytes Scored)
    (nowMs : UInt64) (l : List (Bytes × Scored)) : Prop where
  eq : visibleEntries st d nowMs = .ok (l.map (visibleOf d))
  mem_iff : ∀ p, p ∈ l ↔ content.get p.1 = some p.2 ∧ p.2.isVisible d nowMs = true

variable {st} {d : SortedIndexDef} {content : SortedMap Bytes Scored} {nowMs : UInt64}

lemma pk_eq_of_scoreKey_eq {x y : Scored} {pk pk' : Bytes} (hx : x.Fits d) (hy : y.Fits d)
    (h : (x.entry d).scoreKey d.name pk = (y.entry d).scoreKey d.name pk') : pk = pk' := by
  rw [PkEntry.scoreKey_eq, PkEntry.scoreKey_eq, List.append_cancel_left_eq, ← List.append_assoc,
    ← List.append_assoc] at h
  exact (List.append_inj h
    ((length_score_append_tsBytes hx).trans (length_score_append_tsBytes hy).symm)).2

/-- The stored score entry of a row. -/
def scoreRow (d : SortedIndexDef) (p : Bytes × Scored) : Bytes × Bytes :=
  ((p.2.entry d).scoreKey d.name p.1, (p.2.entry d).scoreValue)

lemma scorePrefix_isPrefix (d : SortedIndexDef) (p : Bytes × Scored) :
    scorePrefix d.name <+: (scoreRow d p).1 := by
  rw [scoreRow, PkEntry.scoreKey_eq]
  exact List.prefix_append _ _

lemma Holds.exists_rows (h : Holds st d content) :
    ∃ l : List (Bytes × Scored),
      PrefixScan.entriesUnder st.metaRows (scorePrefix d.name) = l.map (scoreRow d) ∧
      ∀ p, p ∈ l ↔ content.get p.1 = some p.2 := by
  have hrange : PrefixScan.entriesUnder st.metaRows (scorePrefix d.name) ∈ Set.range
      (List.map fun p : {p : Bytes × Scored // content.get p.1 = some p.2} => scoreRow d p.1) := by
    rw [Set.range_list_map]
    intro row hrow
    obtain ⟨hget, hpre⟩ := PrefixScan.mem_entriesUnder.mp hrow
    obtain ⟨pk, x, hx, hkey, hvalue⟩ := (h.rows hpre).mp hget
    exact ⟨⟨(pk, x), hx⟩, Prod.ext hkey.symm hvalue.symm⟩
  obtain ⟨all, hall⟩ := hrange
  refine ⟨all.map Subtype.val, by rw [List.map_map, ← hall]; rfl, fun p => ?_⟩
  constructor
  · intro hp
    obtain ⟨q, -, rfl⟩ := List.mem_map.mp hp
    exact q.2
  · intro hp
    have hpre := scorePrefix_isPrefix d p
    have hrow : scoreRow d p ∈ PrefixScan.entriesUnder st.metaRows (scorePrefix d.name) :=
      PrefixScan.mem_entriesUnder.mpr ⟨(h.rows hpre).mpr ⟨p.1, p.2, hp, rfl, rfl⟩, hpre⟩
    rw [← hall] at hrow
    obtain ⟨q, hq, heq⟩ := List.mem_map.mp hrow
    have hpk : q.1.1 = p.1 :=
      pk_eq_of_scoreKey_eq (h.fits q.2) (h.fits hp) (congrArg Prod.fst heq)
    have hval : q.1.2 = p.2 := by
      have hget := q.2
      rw [hpk, hp] at hget
      exact (Option.some.inj hget).symm
    exact List.mem_map.mpr ⟨q, hq, Prod.ext hpk hval⟩

/-- A read lists the visible rows in key order, and never fails. -/
theorem Holds.lists (h : Holds st d content) (nowMs : UInt64) :
    ∃ l, Lists st d content nowMs l ∧ l.Pairwise (KeyBefore d) := by
  obtain ⟨all, hall, hmem⟩ := h.exists_rows
  refine ⟨all.filter (·.2.isVisible d nowMs), ⟨?_, fun p => by rw [List.mem_filter, hmem]⟩, ?_⟩
  · have hstep : ∀ p ∈ all, (visibleRow d nowMs ∘ scoreRow d) p =
        .ok (if p.2.isVisible d nowMs then some (visibleOf d p) else none) := fun p hp =>
      visibleRow_scored (h.fits ((hmem p).mp hp)) p.1 nowMs
    have hseen : (all.map fun p => if p.2.isVisible d nowMs then some (visibleOf d p)
        else none).filterMap id = (all.filter (·.2.isVisible d nowMs)).map (visibleOf d) := by
      rw [List.filterMap_map, ← List.filterMap_eq_map, List.filterMap_filter]
      rfl
    rw [visibleEntries, hall, List.mapM_map, ExceptFold.mapM_ok hstep, Except.map, hseen]
  · have hsorted : (all.map (scoreRow d)).Pairwise (fun a b => a.1 < b.1) := by
      rw [← hall]
      exact st.metaRows.sorted.sublist List.filter_sublist
    exact (List.pairwise_map.mp hsorted).sublist List.filter_sublist

end Listing

end NodedbLite.Sorted
