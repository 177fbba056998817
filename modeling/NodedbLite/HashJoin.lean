import NodedbLite.Aggregate
import NodedbLite.CappedOutput

/-! The hash join: the right rows are put into a map by the text of their keys, the left rows are
looked up in it, and unmatched rows of either side follow the join type. Up to the cap the output is
that of a nested loop which compares the texts. -/
namespace NodedbLite.Query

open CappedOutput

inductive JoinType
  | inner
  | left
  | right
  | full
  | semi
  | anti
  deriving DecidableEq

def joinKey (row : Row) (cols : List String) : List Value :=
  cols.map (fun c => (row.get c).getD .null)

def joinKeyStr (fmt : UInt64 → String) (key : List Value) : String := valueKeyStr fmt key

/-- The right row over the left one, its columns under the alias if there is one. -/
def mergeRows (left right : Row) (rightAlias : Option String) : Row :=
  right.entries.foldl (fun out e => out.insert (match rightAlias with
    | some name => if name.isEmpty then e.1 else name ++ "." ++ e.1
    | none => e.1) e.2) left

structure JoinProjection where
  source : String
  output : String

def applyProjection (rows : List Row) (projection : List JoinProjection) : List Row :=
  if projection.isEmpty then rows
  else rows.map (fun row =>
    SortedMap.ofList (projection.map (fun p => (p.output, (row.get p.source).getD .null))))

/-- The columns of the result are those of the first row. -/
def mapsToResult : List Row → QueryResult
  | [] => .empty
  | first :: rest =>
    let columns := first.keys
    ⟨columns, (first :: rest).map (fun row => columns.map (fun c => (row.get c).getD .null)), 0, none⟩

section HashJoin

variable (fmt : UInt64 → String) (buildKeys probeKeys : List String) (joinType : JoinType)
  (rightAlias : Option String) (limit : Nat)

/-- The indices of the build rows by the text of their keys. -/
def buildMap (buildSide : List Row) : SortedMap String (List Nat) :=
  Buckets.collect (fun entry => joinKeyStr fmt (joinKey entry.1 buildKeys)) (fun entry => [entry.2])
    (fun indices entry => indices ++ [entry.2]) buildSide.zipIdx

structure Probe where
  output : Output Row
  matchedBuild : List Nat

/-- The turn of a probe row with build rows of its text. -/
def emitMatches (buildSide : List Row) (probeRow : Row) : List Nat → Probe → Probe
  | [], s => s
  | bi :: rest, s =>
    let matchedBuild := bi :: s.matchedBuild
    match joinType with
    | .semi => ⟨s.output.push limit probeRow, matchedBuild⟩
    | .anti => ⟨s.output, matchedBuild⟩
    | _ =>
      let merged := mergeRows probeRow (buildSide.getD bi SortedMap.empty) rightAlias
      let pushed : Probe := ⟨s.output.push limit merged, matchedBuild⟩
      if pushed.output.full then pushed else emitMatches buildSide probeRow rest pushed

def probeTurn (buildSide : List Row) (s : Probe) (probeRow : Row) : Probe :=
  if s.output.full then s
  else match (buildMap fmt buildKeys buildSide).get (joinKeyStr fmt (joinKey probeRow probeKeys)) with
    | some indices => emitMatches joinType rightAlias limit buildSide probeRow indices s
    | none =>
      match joinType with
      | .left | .full | .anti => ⟨s.output.push limit probeRow, s.matchedBuild⟩
      | _ => s

/-- The unmatched build rows of a right or full join. This loop asks for the limit only behind its
own pushes. -/
def emitUnmatched (matchedBuild : List Nat) : List (Row × Nat) → Output Row → Output Row
  | [], out => out
  | (buildRow, idx) :: rest, out =>
    if idx ∈ matchedBuild then emitUnmatched matchedBuild rest out
    else
      let pushed := out.push limit buildRow
      if pushed.full then pushed else emitUnmatched matchedBuild rest pushed

def hashJoin (buildSide probeSide : List Row) : List Row :=
  let probed := probeSide.foldl (probeTurn fmt buildKeys probeKeys joinType rightAlias limit buildSide)
    ⟨.start, []⟩
  if joinType = .right ∨ joinType = .full then
    (emitUnmatched limit probed.matchedBuild buildSide.zipIdx probed.output).items
  else probed.output.items

end HashJoin

section NestedLoop

/-- The rows a left row gives, joined with the right rows that match it. -/
def rowsOfMatches (joinType : JoinType) (left : Row) (matching : List Row) : List Row :=
  match joinType with
  | .semi => if matching.isEmpty then [] else [left]
  | .anti => if matching.isEmpty then [left] else []
  | .left | .full =>
    if matching.isEmpty then [left] else matching.map (fun right => mergeRows left right none)
  | .inner | .right => matching.map (fun right => mergeRows left right none)

variable (joinType : JoinType) (matched : Row → Row → Bool) (lefts rights : List Row)

def leftPhase : List Row :=
  lefts.flatMap (fun left => rowsOfMatches joinType left (rights.filter (matched left)))

def rightPhase : List Row :=
  if joinType = .right ∨ joinType = .full then
    rights.filter (fun right => !lefts.any (fun left => matched left right))
  else []

/-- The join as a nested loop over both sides. -/
def nestedLoop : List Row :=
  leftPhase joinType matched lefts rights ++ rightPhase joinType matched lefts rights

variable {joinType matched lefts rights}

lemma nestedLoop_congr {matched' : Row → Row → Bool}
    (h : ∀ left ∈ lefts, ∀ right ∈ rights, matched left right = matched' left right) :
    nestedLoop joinType matched lefts rights = nestedLoop joinType matched' lefts rights := by
  unfold nestedLoop leftPhase rightPhase
  congr 1
  · apply List.flatMap_congr
    intro left hleft
    rw [List.filter_congr (h left hleft)]
  · split
    · apply List.filter_congr
      intro right hright
      congr 1
      rw [Bool.eq_iff_iff, List.any_eq_true, List.any_eq_true]
      exact exists_congr (fun left => and_congr_right (fun hleft => by rw [h left hleft right hright]))
    · rfl

end NestedLoop

section Refinement

variable {fmt : UInt64 → String} {buildKeys probeKeys : List String} {joinType : JoinType}
  {limit : Nat} {buildSide : List Row}

/-- Two rows whose keys have one text. -/
def textMatch (fmt : UInt64 → String) (probeKeys buildKeys : List String) (left right : Row) : Bool :=
  joinKeyStr fmt (joinKey right buildKeys) = joinKeyStr fmt (joinKey left probeKeys)

/-- The indices of the build rows with a text. -/
def indicesOf (fmt : UInt64 → String) (buildKeys : List String) (buildSide : List Row)
    (text : String) : List Nat :=
  (buildSide.zipIdx.filter (fun entry => joinKeyStr fmt (joinKey entry.1 buildKeys) = text)).map
    Prod.snd

lemma get_buildMap (text : String) :
    (buildMap fmt buildKeys buildSide).get text
      = if indicesOf fmt buildKeys buildSide text = [] then none
        else some (indicesOf fmt buildKeys buildSide text) := by
  unfold buildMap indicesOf
  have hitems := Buckets.items_bucket id Prod.snd (fun _ => rfl) (fun _ _ => rfl)
    (buildSide.zipIdx.filter (fun entry => joinKeyStr fmt (joinKey entry.1 buildKeys) = text))
  rw [Buckets.get_collect]
  cases hrows : buildSide.zipIdx.filter
      (fun entry => joinKeyStr fmt (joinKey entry.1 buildKeys) = text) with
  | nil => rfl
  | cons x xs =>
    rw [hrows] at hitems
    rw [if_neg (by simp), ← hitems]
    rfl

lemma mem_indicesOf {text : String} {i : Nat} :
    i ∈ indicesOf fmt buildKeys buildSide text ↔
      ∃ row, buildSide[i]? = some row ∧ joinKeyStr fmt (joinKey row buildKeys) = text := by
  unfold indicesOf
  rw [List.mem_map]
  constructor
  · rintro ⟨⟨row, i⟩, hentry, rfl⟩
    obtain ⟨hmem, htext⟩ := List.mem_filter.mp hentry
    exact ⟨row, List.mem_zipIdx_iff_getElem?.mp hmem, of_decide_eq_true htext⟩
  · rintro ⟨row, hrow, htext⟩
    exact ⟨(row, i), List.mem_filter.mpr ⟨List.mem_zipIdx_iff_getElem?.mpr hrow,
      decide_eq_true htext⟩, rfl⟩

lemma rows_of_indicesOf (fmt : UInt64 → String) (buildKeys : List String) (buildSide : List Row)
    (text : String) :
    (indicesOf fmt buildKeys buildSide text).map (fun bi => buildSide.getD bi SortedMap.empty)
      = buildSide.filter (fun row => joinKeyStr fmt (joinKey row buildKeys) = text) := by
  have hfst : ∀ entry ∈ buildSide.zipIdx.filter
        (fun entry => joinKeyStr fmt (joinKey entry.1 buildKeys) = text),
      buildSide.getD entry.2 SortedMap.empty = entry.1 := by
    intro entry hentry
    have hget := List.mem_zipIdx_iff_getElem?.mp (List.mem_filter.mp hentry).1
    rw [List.getD_eq_getElem?_getD, hget]
    rfl
  unfold indicesOf
  rw [List.map_map]
  refine (List.map_congr_left hfst).trans ?_
  have hmap := List.filter_map (f := Prod.fst) (l := buildSide.zipIdx)
    (p := fun row => decide (joinKeyStr fmt (joinKey row buildKeys) = text))
  rw [List.zipIdx_map_fst] at hmap
  exact hmap.symm

lemma filter_textMatch (left : Row) :
    buildSide.filter (textMatch fmt probeKeys buildKeys left)
      = (indicesOf fmt buildKeys buildSide (joinKeyStr fmt (joinKey left probeKeys))).map
          (fun bi => buildSide.getD bi SortedMap.empty) :=
  (rows_of_indicesOf fmt buildKeys buildSide (joinKeyStr fmt (joinKey left probeKeys))).symm

/-- The rows of a probe row with the build rows they are merged with. -/
def taggedRows (joinType : JoinType) (buildSide : List Row) (left : Row) (indices : List Nat) :
    List (Row × Option Nat) :=
  match joinType with
  | .semi => if indices.isEmpty then [] else [(left, none)]
  | .anti => if indices.isEmpty then [(left, none)] else []
  | .left | .full =>
    if indices.isEmpty then [(left, none)]
    else indices.map (fun bi => (mergeRows left (buildSide.getD bi SortedMap.empty) none, some bi))
  | .inner | .right =>
    indices.map (fun bi => (mergeRows left (buildSide.getD bi SortedMap.empty) none, some bi))

def taggedPhase (fmt : UInt64 → String) (buildKeys probeKeys : List String) (joinType : JoinType)
    (buildSide lefts : List Row) : List (Row × Option Nat) :=
  lefts.flatMap (fun left => taggedRows joinType buildSide left
    (indicesOf fmt buildKeys buildSide (joinKeyStr fmt (joinKey left probeKeys))))

lemma map_fst_taggedPhase (lefts : List Row) :
    (taggedPhase fmt buildKeys probeKeys joinType buildSide lefts).map Prod.fst
      = leftPhase joinType (textMatch fmt probeKeys buildKeys) lefts buildSide := by
  unfold taggedPhase leftPhase
  rw [List.map_flatMap]
  apply List.flatMap_congr
  intro left _
  rw [filter_textMatch]
  cases indicesOf fmt buildKeys buildSide (joinKeyStr fmt (joinKey left probeKeys)) <;>
    cases joinType <;> simp [taggedRows, rowsOfMatches]

/-- The state of the probe phase against an output of tagged rows: the marks are the tags. -/
structure Tracks (joinType : JoinType) (s : Probe) (t : Output (Row × Option Nat)) : Prop where
  items : s.output.items = t.items.map Prod.fst
  full : s.output.full = t.full
  marks : joinType ≠ .semi → joinType ≠ .anti →
    ∀ i, i ∈ s.matchedBuild ↔ some i ∈ t.items.map Prod.snd

lemma Tracks.push_unmatched {s : Probe} {t : Output (Row × Option Nat)} (h : Tracks joinType s t)
    (limit : Nat) (row : Row) :
    Tracks joinType ⟨s.output.push limit row, s.matchedBuild⟩ (t.push limit (row, none)) where
  items := by simp [Output.push, h.items]
  full := by simp [Output.push, h.items]
  marks hsemi hanti i := by simpa [Output.push] using h.marks hsemi hanti i

lemma Tracks.push_matched {s : Probe} {t : Output (Row × Option Nat)} (h : Tracks joinType s t)
    (limit : Nat) (row : Row) (bi : Nat) :
    Tracks joinType ⟨s.output.push limit row, bi :: s.matchedBuild⟩ (t.push limit (row, some bi)) where
  items := by simp [Output.push, h.items]
  full := by simp [Output.push, h.items]
  marks hsemi hanti i := by
    have hmarks := h.marks hsemi hanti i
    simp only [Output.push, List.map_append, List.mem_append, List.mem_cons, hmarks]
    simp
    tauto

lemma emitMatches_tracks (hsemi : joinType ≠ .semi) (hanti : joinType ≠ .anti) (left : Row)
    (indices : List Nat) {s : Probe} {t : Output (Row × Option Nat)} (h : Tracks joinType s t)
    (hfull : t.full = false) :
    Tracks joinType (emitMatches joinType none limit buildSide left indices s)
      (t.pushAll limit (indices.map
        (fun bi => (mergeRows left (buildSide.getD bi SortedMap.empty) none, some bi)))) := by
  induction indices generalizing s t with
  | nil => exact h
  | cons bi rest ih =>
    have hpushed := h.push_matched limit
      (mergeRows left (buildSide.getD bi SortedMap.empty) none) bi
    rw [List.map_cons, Output.pushAll_cons hfull]
    have hstep : emitMatches joinType none limit buildSide left (bi :: rest) s
        = if (s.output.push limit (mergeRows left (buildSide.getD bi SortedMap.empty) none)).full
          then ⟨s.output.push limit (mergeRows left (buildSide.getD bi SortedMap.empty) none),
            bi :: s.matchedBuild⟩
          else emitMatches joinType none limit buildSide left rest
            ⟨s.output.push limit (mergeRows left (buildSide.getD bi SortedMap.empty) none),
              bi :: s.matchedBuild⟩ := by
      cases joinType with
      | semi => exact absurd rfl hsemi
      | anti => exact absurd rfl hanti
      | _ => rfl
    rw [hstep]
    split
    · rename_i hstop
      rw [Output.pushAll_of_full (hpushed.full.symm.trans hstop)]
      exact hpushed
    · rename_i hstop
      exact ih hpushed (hpushed.full.symm.trans (Bool.not_eq_true _ ▸ hstop))

lemma probeTurn_tracks (left : Row) {s : Probe} {t : Output (Row × Option Nat)}
    (h : Tracks joinType s t) :
    Tracks joinType (probeTurn fmt buildKeys probeKeys joinType none limit buildSide s left)
      (t.pushAll limit (taggedRows joinType buildSide left
        (indicesOf fmt buildKeys buildSide (joinKeyStr fmt (joinKey left probeKeys))))) := by
  unfold probeTurn
  rw [h.full]
  split
  · rename_i hfull
    rwa [Output.pushAll_of_full hfull]
  · rename_i hfull
    have hnot : t.full = false := by simpa using hfull
    rw [get_buildMap]
    cases hidx : indicesOf fmt buildKeys buildSide (joinKeyStr fmt (joinKey left probeKeys)) with
    | nil =>
      rw [if_pos rfl]
      cases joinType with
      | inner | right | semi => exact h
      | left | full | anti =>
        simp only [taggedRows, List.isEmpty_nil, if_true, Output.pushAll_cons hnot]
        exact h.push_unmatched limit left
    | cons bi rest =>
      rw [if_neg (by simp)]
      cases joinType with
      | anti => exact ⟨h.items, h.full, fun _ hanti => absurd rfl hanti⟩
      | semi =>
        simp only [taggedRows, List.isEmpty_cons, Bool.false_eq_true, if_false,
          Output.pushAll_cons hnot]
        exact ⟨(h.push_unmatched limit left).items, (h.push_unmatched limit left).full,
          fun hsemi => absurd rfl hsemi⟩
      | _ => exact emitMatches_tracks (by simp) (by simp) left (bi :: rest) h hnot

lemma probe_tracks (lefts : List Row) {s : Probe} {t : Output (Row × Option Nat)}
    (h : Tracks joinType s t) :
    Tracks joinType
      (lefts.foldl (probeTurn fmt buildKeys probeKeys joinType none limit buildSide) s)
      (t.pushAll limit (taggedPhase fmt buildKeys probeKeys joinType buildSide lefts)) := by
  induction lefts generalizing s t with
  | nil => exact h
  | cons left lefts ih =>
    rw [List.foldl_cons, taggedPhase, List.flatMap_cons, Output.pushAll_append]
    exact ih (probeTurn_tracks left h)

lemma emitUnmatched_eq (matchedBuild : List Nat) (entries : List (Row × Nat)) {out : Output Row}
    (hfull : out.full = false) :
    emitUnmatched limit matchedBuild entries out
      = out.pushAll limit ((entries.filter (fun e => e.2 ∉ matchedBuild)).map Prod.fst) := by
  induction entries generalizing out with
  | nil => rfl
  | cons entry rest ih =>
    obtain ⟨row, idx⟩ := entry
    rw [emitUnmatched]
    by_cases hidx : idx ∈ matchedBuild
    · rw [if_pos hidx, List.filter_cons_of_neg (by simp [hidx]), ih hfull]
    · rw [if_neg hidx, List.filter_cons_of_pos (by simp [hidx]), List.map_cons,
        Output.pushAll_cons hfull]
      dsimp only
      split
      · rename_i hpushed
        rw [Output.pushAll_of_full hpushed]
      · rename_i hpushed
        exact ih (by simpa using hpushed)

/-- Behind a probe phase that stopped, the last loop pushes one more row. -/
lemma emitUnmatched_of_full (matchedBuild : List Nat) (entries : List (Row × Nat)) {out : Output Row}
    (hlen : limit ≤ out.items.length) :
    (emitUnmatched limit matchedBuild entries out).items
      = out.items ++ ((entries.filter (fun e => e.2 ∉ matchedBuild)).map Prod.fst).take 1 := by
  induction entries with
  | nil => simp [emitUnmatched]
  | cons entry rest ih =>
    obtain ⟨row, idx⟩ := entry
    rw [emitUnmatched]
    by_cases hidx : idx ∈ matchedBuild
    · rw [if_pos hidx, List.filter_cons_of_neg (by simp [hidx]), ih]
    · rw [if_neg hidx, List.filter_cons_of_pos (by simp [hidx])]
      have hstop : (out.push limit row).full = true := by
        simpa [Output.push] using Nat.le_succ_of_le hlen
      dsimp only
      rw [if_pos hstop]
      simp [Output.push]

/-- The build rows none of the first joined rows is merged with. -/
def unmergedRows (fmt : UInt64 → String) (buildKeys probeKeys : List String) (joinType : JoinType)
    (limit : Nat) (buildSide lefts : List Row) : List Row :=
  (buildSide.zipIdx.filter (fun e => some e.2 ∉
    ((taggedPhase fmt buildKeys probeKeys joinType buildSide lefts).take limit).map Prod.snd)).map
      Prod.fst

lemma mem_map_snd_taggedPhase (htype : joinType = .right ∨ joinType = .full) {lefts : List Row} {i : Nat} :
    some i ∈ (taggedPhase fmt buildKeys probeKeys joinType buildSide lefts).map Prod.snd ↔
      ∃ left ∈ lefts,
        i ∈ indicesOf fmt buildKeys buildSide (joinKeyStr fmt (joinKey left probeKeys)) := by
  unfold taggedPhase
  rw [List.map_flatMap, List.mem_flatMap]
  apply exists_congr
  intro left
  apply and_congr_right
  intro _
  cases hidx : indicesOf fmt buildKeys buildSide (joinKeyStr fmt (joinKey left probeKeys)) <;>
    rcases htype with rfl | rfl <;> simp [taggedRows]

lemma unmergedRows_eq (htype : joinType = .right ∨ joinType = .full) {lefts : List Row}
    (hroom : (leftPhase joinType (textMatch fmt probeKeys buildKeys) lefts buildSide).length ≤ limit) :
    unmergedRows fmt buildKeys probeKeys joinType limit buildSide lefts
      = buildSide.filter (fun right =>
          !lefts.any (fun left => textMatch fmt probeKeys buildKeys left right)) := by
  have hall : (taggedPhase fmt buildKeys probeKeys joinType buildSide lefts).take limit
      = taggedPhase fmt buildKeys probeKeys joinType buildSide lefts := by
    apply List.take_of_length_le
    rwa [← map_fst_taggedPhase, List.length_map] at hroom
  have hsame : ∀ e ∈ buildSide.zipIdx, decide (some e.2 ∉
        (taggedPhase fmt buildKeys probeKeys joinType buildSide lefts).map Prod.snd)
      = !lefts.any (fun left => textMatch fmt probeKeys buildKeys left e.1) := by
    intro e he
    have hget := List.mem_zipIdx_iff_getElem?.mp he
    rw [Bool.eq_iff_iff, decide_eq_true_iff, mem_map_snd_taggedPhase htype, Bool.not_eq_true',
      ← Bool.not_eq_true, List.any_eq_true]
    apply not_congr
    apply exists_congr
    intro left
    apply and_congr_right
    intro _
    rw [mem_indicesOf, hget, textMatch, decide_eq_true_iff]
    simp
  unfold unmergedRows
  rw [hall, List.filter_congr hsame]
  have hmap := List.filter_map (f := Prod.fst) (l := buildSide.zipIdx)
    (p := fun right => !lefts.any (fun left => textMatch fmt probeKeys buildKeys left right))
  rw [List.zipIdx_map_fst] at hmap
  exact hmap.symm

/-- The output of the hash join: the probe phase up to the limit, then of a right or full join the
unmerged build rows up to the limit, or one of them if the limit is reached already. -/
theorem hashJoin_eq (lefts : List Row) (hlimit : 0 < limit) :
    hashJoin fmt buildKeys probeKeys joinType none limit buildSide lefts
      = (leftPhase joinType (textMatch fmt probeKeys buildKeys) lefts buildSide).take limit
        ++ if joinType = .right ∨ joinType = .full then
            (unmergedRows fmt buildKeys probeKeys joinType limit buildSide lefts).take (max 1 (limit
              - (leftPhase joinType (textMatch fmt probeKeys buildKeys) lefts buildSide).length))
          else [] := by
  have hstart : (Output.start : Output (Row × Option Nat)).Sound limit := .of_lt rfl hlimit
  have htracks : Tracks joinType (lefts.foldl
      (probeTurn fmt buildKeys probeKeys joinType none limit buildSide) ⟨.start, []⟩) _ :=
    probe_tracks lefts (t := .start) ⟨rfl, rfl, fun _ _ i => by simp⟩
  have hsound := hstart.pushAll (taggedPhase fmt buildKeys probeKeys joinType buildSide lefts)
  have hfull : (lefts.foldl (probeTurn fmt buildKeys probeKeys joinType none limit buildSide)
        ⟨.start, []⟩).output.full = true ↔ limit ≤ (lefts.foldl
          (probeTurn fmt buildKeys probeKeys joinType none limit buildSide) ⟨.start, []⟩).output.items.length := by
    rw [htracks.full, hsound.full_iff, htracks.items, List.length_map]
  have hitems := htracks.items
  rw [hstart.items_pushAll, Output.items_start, List.nil_append, List.map_take,
    map_fst_taggedPhase] at hitems
  unfold hashJoin
  dsimp only
  by_cases htype : joinType = .right ∨ joinType = .full
  · have hmarks := htracks.marks (by rintro rfl; simp at htype) (by rintro rfl; simp at htype)
    rw [hstart.items_pushAll, Output.items_start, List.nil_append] at hmarks
    rw [if_pos htype, if_pos htype]
    generalize lefts.foldl (probeTurn fmt buildKeys probeKeys joinType none limit buildSide)
      ⟨.start, []⟩ = s at hfull hitems hmarks ⊢
    have hunmerged : (buildSide.zipIdx.filter (fun e => e.2 ∉ s.matchedBuild)).map Prod.fst
        = unmergedRows fmt buildKeys probeKeys joinType limit buildSide lefts := by
      unfold unmergedRows
      rw [List.filter_congr (fun e _ => decide_eq_decide.mpr (not_congr (hmarks e.2)))]
    rcases Nat.lt_or_ge (leftPhase joinType (textMatch fmt probeKeys buildKeys) lefts
      buildSide).length limit with hroom | hreached
    · rw [List.take_of_length_le hroom.le] at hitems ⊢
      have hnot : s.output.full = false := by
        rw [← Bool.not_eq_true, hfull, hitems]
        exact hroom.not_ge
      have hcap : s.output.Sound limit := .of_lt hnot (hitems ▸ hroom)
      rw [emitUnmatched_eq _ _ hnot, hcap.items_pushAll, hunmerged, hitems, List.take_append,
        List.take_of_length_le hroom.le, max_eq_right (Nat.sub_pos_of_lt hroom)]
    · have hlen : limit ≤ s.output.items.length := by
        rw [hitems, List.length_take, min_eq_left hreached]
      rw [emitUnmatched_of_full _ _ hlen, hunmerged, hitems, Nat.sub_eq_zero_of_le hreached]
      rfl
  · rw [if_neg htype, if_neg htype, List.append_nil, hitems]

/-- Up to the limit the hash join is the nested loop over the key texts, if the loop over the unmatched
build rows starts below the limit. -/
theorem hashJoin_eq_take (lefts : List Row) (hlimit : 0 < limit)
    (hroom : (joinType = .right ∨ joinType = .full) →
      (leftPhase joinType (textMatch fmt probeKeys buildKeys) lefts buildSide).length < limit) :
    hashJoin fmt buildKeys probeKeys joinType none limit buildSide lefts
      = (nestedLoop joinType (textMatch fmt probeKeys buildKeys) lefts buildSide).take limit := by
  rw [hashJoin_eq lefts hlimit, nestedLoop, rightPhase, List.take_append]
  congr 1
  by_cases htype : joinType = .right ∨ joinType = .full
  · rw [if_pos htype, if_pos htype, unmergedRows_eq htype (hroom htype).le,
      max_eq_right (Nat.sub_pos_of_lt (hroom htype))]
  · rw [if_neg htype, if_neg htype, List.take_nil]

end Refinement

end NodedbLite.Query
