import NodedbLite.IndexClass
import NodedbLite.IndexExact

/-! Index reads: the candidate documents for an equality or a range. Both are exact in terms of the
classes an index holds a value in; a reader confirms each candidate against its row. -/
namespace NodedbLite.Index

open Query (Value)
open IndexState GuardedRun

variable {Predicate : Type}

/-- A value that an index holds and a value equal to it under coercion share an encoded key. -/
def SharesKey (A : IndexApi Predicate) : Prop :=
  ∀ a b, indexable a = true → A.eqCoerced a b = true →
    ∃ enc ∈ encodeCoercible A a, enc ∈ encodeCoercible A b

def dedupFrom (seen : List String) : List String → List String
  | [] => []
  | id :: ids =>
    if id ∈ seen then dedupFrom seen ids else id :: dedupFrom (id :: seen) ids

/-- The first occurrence of each id, in order. -/
def dedup (ids : List String) : List String := dedupFrom [] ids

/-- Documents whose indexed value may equal the probe. -/
def lookupEq (A : IndexApi Predicate) (s : IndexState Predicate) (d : IndexDef Predicate)
    (probe : Value) : List String :=
  dedup ((encodeCoercible A (foldCase A d probe)).flatMap fun encoded =>
    idsUnder s d.entryPrefix (d.entryPrefix ++ encoded))

/-- One value class a range covers. -/
structure ClassRange where
  tag : UInt8
  lower : Option Bytes
  upper : Option Bytes
  deriving DecidableEq, Repr

/-- One range for every class both bounds share, none without a bound. -/
def classRanges : Option (List Bytes) → Option (List Bytes) → Option (List ClassRange)
  | some lo, some hi => some (lo.filterMap fun l =>
      (hi.find? fun h => h.head? = l.head?).bind fun h =>
        l.head?.map fun tag => ⟨tag, some l, some h⟩)
  | some lo, none => some (lo.filterMap fun l => l.head?.map fun tag => ⟨tag, some l, none⟩)
  | none, some hi => some (hi.filterMap fun h => h.head?.map fun tag => ⟨tag, none, some h⟩)
  | none, none => none

inductive EndBound
  | included (key : Bytes)
  | excluded (key : Bytes)
  deriving DecidableEq, Repr

def EndBound.key : EndBound → Bytes
  | included key | excluded key => key

def EndBound.admits : EndBound → Bytes → Bool
  | included e, k => k ≤ e
  | excluded e, k => k < e

inductive RangePanic
  | startAfterEnd
  deriving DecidableEq, Repr

/-- The members of an ordered set from `start` on, up to an end; a start behind the end panics. -/
def setRange (s : SortedSet Bytes) (start : Bytes) (e : EndBound) :
    Except RangePanic (List Bytes) :=
  if e.key < start then .error .startAfterEnd
  else .ok (s.toList.filter fun k => decide (start ≤ k) && e.admits k)

namespace ClassRange

def start (r : ClassRange) (d : IndexDef Predicate) : Bytes :=
  d.entryPrefix ++ r.lower.getD [r.tag]

/-- Above every entry of the upper value, since a document id never holds the last byte. -/
def stop (r : ClassRange) (d : IndexDef Predicate) : EndBound :=
  match r.upper with
  | some h => .included (d.entryPrefix ++ (h ++ [0xFF]))
  | none => .excluded (d.entryPrefix ++ [r.tag + 1])

/-- Bounds that cross select nothing. -/
def crossed (r : ClassRange) (d : IndexDef Predicate) : Bool :=
  match r.stop d with
  | .included e => e < r.start d
  | .excluded e => e ≤ r.start d

end ClassRange

def rangeIds (s : IndexState Predicate) (d : IndexDef Predicate) (r : ClassRange) :
    Except RangePanic (List String) :=
  if r.crossed d then .ok []
  else (setRange s.entries (r.start d) (r.stop d)).map fun ks =>
    ks.filterMap (entryDocId · d.entryPrefix)

/-- Documents whose indexed value may lie within the bounds, in index order within each class;
none when the bounds share no class, and the caller scans instead. -/
def lookupRange (A : IndexApi Predicate) (s : IndexState Predicate) (d : IndexDef Predicate)
    (lower upper : Option Value) : Except RangePanic (Option (List String)) :=
  let classes := fun bound : Option Value =>
    bound.map fun v => encodeCoercible A (foldCase A d v)
  match classRanges (classes lower) (classes upper) with
  | none => .ok none
  | some ranges =>
    if ranges.isEmpty then .ok none
    else (ranges.mapM (rangeIds s d)).map fun ids => some (dedup ids.flatten)

section Dedup

variable {ids seen : List String}

lemma mem_dedupFrom {id : String} : id ∈ dedupFrom seen ids ↔ id ∈ ids ∧ id ∉ seen := by
  induction ids generalizing seen with
  | nil => simp [dedupFrom]
  | cons x ids ih =>
    rw [dedupFrom]
    by_cases hx : x ∈ seen
    · rw [if_pos hx, ih, List.mem_cons]
      constructor
      · rintro ⟨hmem, hseen⟩
        exact ⟨.inr hmem, hseen⟩
      · rintro ⟨rfl | hmem, hseen⟩
        · exact absurd hx hseen
        · exact ⟨hmem, hseen⟩
    · rw [if_neg hx, List.mem_cons, ih, List.mem_cons, List.mem_cons]
      by_cases heq : id = x
      · simp [heq, hx]
      · simp [heq]

lemma nodup_dedupFrom : (dedupFrom seen ids).Nodup := by
  induction ids generalizing seen with
  | nil => exact List.nodup_nil
  | cons x ids ih =>
    rw [dedupFrom]
    split_ifs
    · exact ih
    · refine List.nodup_cons.mpr ⟨?_, ih⟩
      simp [mem_dedupFrom]

@[simp] lemma mem_dedup {id : String} : id ∈ dedup ids ↔ id ∈ ids := by simp [dedup, mem_dedupFrom]

lemma nodup_dedup (ids : List String) : (dedup ids).Nodup := nodup_dedupFrom

end Dedup

/-- The forms a bound has in each class. -/
def boundClasses (A : IndexApi Predicate) (d : IndexDef Predicate) (bound : Option Value) :
    Option (List ClassValue) :=
  bound.map fun v => classValues A (foldCase A d v)

/-- The forms an index holds a row's field in. -/
def rowClasses (A : IndexApi Predicate) (d : IndexDef Predicate) (row : Value) : List ClassValue :=
  (indexValues A d row).flatMap (classValues A)

/-- The bounds given, at least one, all have a form in the class. -/
def SharesClass (lower upper : Option (List ClassValue)) (tag : UInt8) : Prop :=
  (lower.isSome = true ∨ upper.isSome = true) ∧ (∀ lo ∈ lower, ∃ l ∈ lo, l.tag = tag) ∧
    ∀ hi ∈ upper, ∃ h ∈ hi, h.tag = tag

/-- The value lies between the forms the bounds have in its class. -/
def Within (lower upper : Option (List ClassValue)) (c : ClassValue) : Prop :=
  (∀ lo ∈ lower, ∃ l ∈ lo, l.Le c) ∧ ∀ hi ∈ upper, ∃ h ∈ hi, c.Le h

/-- A value has one form in each class. -/
def OneForm (bound : Option (List ClassValue)) : Prop :=
  ∀ cs ∈ bound, ∀ a ∈ cs, ∀ b ∈ cs, a.tag = b.tag → a = b

/-- The key one range takes from a bound: that of its form in the range's class. -/
def Picks (bound : Option (List ClassValue)) (tag : UInt8) (key : Option Bytes) : Prop :=
  match bound with
  | none => key = none
  | some cs => ∃ c ∈ cs, c.tag = tag ∧ key = some c.encode

section Ranges

variable {lower upper : Option (List ClassValue)} {d : IndexDef Predicate} {r : ClassRange}
  {c : ClassValue}

lemma oneForm_boundClasses (A : IndexApi Predicate) (d : IndexDef Predicate)
    (bound : Option Value) : OneForm (boundClasses A d bound) := by
  intro cs hcs a ha b hb htag
  obtain ⟨v, -, rfl⟩ := Option.map_eq_some_iff.mp hcs
  exact eq_of_mem_classValues A ha hb htag

lemma find?_head_encode {hi : List ClassValue} (hone : OneForm (some hi)) {tag : UInt8}
    {key : Bytes} : (hi.map ClassValue.encode).find? (fun h => h.head? = some tag) = some key ↔
      ∃ h ∈ hi, h.tag = tag ∧ key = h.encode := by
  rw [List.find?_map, Option.map_eq_some_iff]
  simp only [Function.comp_def, ClassValue.head?_encode, Option.some.injEq]
  constructor
  · rintro ⟨h, hfind, rfl⟩
    exact ⟨h, List.mem_of_find?_eq_some hfind, of_decide_eq_true (List.find?_some hfind :), rfl⟩
  · rintro ⟨h, hmem, htag, rfl⟩
    cases hfind : hi.find? fun x => decide (x.tag = tag) with
    | none => exact absurd htag (by simpa using List.find?_eq_none.mp hfind h hmem)
    | some x =>
      have hx : x.tag = tag := of_decide_eq_true (List.find?_some hfind :)
      exact ⟨x, rfl, congrArg _
        (hone hi rfl x (List.mem_of_find?_eq_some hfind) h hmem (hx.trans htag.symm))⟩

lemma mem_classRanges (hone : OneForm upper) {ranges : List ClassRange}
    (h : classRanges (lower.map (List.map ClassValue.encode))
      (upper.map (List.map ClassValue.encode)) = some ranges) :
    r ∈ ranges ↔ (lower.isSome = true ∨ upper.isSome = true) ∧ Picks lower r.tag r.lower ∧
      Picks upper r.tag r.upper := by
  obtain ⟨tag, low, high⟩ := r
  cases lower with
  | none =>
    cases upper with
    | none => cases h
    | some hi =>
      obtain rfl := Option.some.inj h
      simp only [List.filterMap_map, List.mem_filterMap, Function.comp_def, ClassValue.head?_encode,
        Option.map_some, Option.some.injEq, ClassRange.mk.injEq, Picks, Option.isSome_some, or_true,
        true_and]
      constructor
      · rintro ⟨x, hx, rfl, rfl, rfl⟩
        exact ⟨rfl, x, hx, rfl, rfl⟩
      · rintro ⟨rfl, x, hx, rfl, rfl⟩
        exact ⟨x, hx, rfl, rfl, rfl⟩
  | some lo =>
    cases upper with
    | none =>
      obtain rfl := Option.some.inj h
      simp only [List.filterMap_map, List.mem_filterMap, Function.comp_def, ClassValue.head?_encode,
        Option.map_some, Option.some.injEq, ClassRange.mk.injEq, Picks, Option.isSome_some, true_or,
        true_and]
      constructor
      · rintro ⟨x, hx, rfl, rfl, rfl⟩
        exact ⟨⟨x, hx, rfl, rfl⟩, rfl⟩
      · rintro ⟨⟨x, hx, rfl, rfl⟩, rfl⟩
        exact ⟨x, hx, rfl, rfl, rfl⟩
    | some hi =>
      obtain rfl := Option.some.inj h
      simp only [List.filterMap_map, List.mem_filterMap, Function.comp_def,
        Option.bind_eq_some_iff, find?_head_encode hone, ClassValue.head?_encode,
        Option.map_some, Option.some.injEq, ClassRange.mk.injEq, Picks, Option.isSome_some, true_or,
        true_and]
      constructor
      · rintro ⟨x, hx, key, ⟨y, hy, htag, rfl⟩, rfl, rfl, rfl⟩
        exact ⟨⟨x, hx, rfl, rfl⟩, y, hy, htag, rfl⟩
      · rintro ⟨⟨x, hx, rfl, rfl⟩, y, hy, htag, rfl⟩
        exact ⟨x, hx, y.encode, ⟨y, hy, htag, rfl⟩, rfl, rfl, rfl⟩

lemma start_le_entryKey_iff (hone : OneForm lower) (hp : Picks lower r.tag r.lower) (id : String) :
    r.start d ≤ entryKey d.entryPrefix c.encode id ↔
      r.tag < c.tag ∨ r.tag = c.tag ∧ ∀ lo ∈ lower, ∃ l ∈ lo, l.Le c := by
  rw [ClassRange.start, entryKey, List.append_assoc, Bytes.append_le_append_left_iff]
  cases lower with
  | none =>
    -- The tag alone is below everything in its class.
    obtain ⟨payload, hc⟩ := c.encode_eq_cons
    have hkey : r.lower = none := hp
    rw [hkey, Option.getD_none, hc, List.cons_append, ← not_lt, List.cons_lt_cons_iff]
    simp only [List.not_lt_nil, and_false, or_false, not_lt, Option.not_mem_none, false_implies,
      implies_true, and_true]
    exact le_iff_lt_or_eq
  | some lo =>
    obtain ⟨l, hl, htag, hkey⟩ := hp
    have hcodes := Bytes.append_le_append_iff_of_apart (l.apart_encode c)
      (Bytes.nil_le (Bytes.ofString id))
    rw [List.append_nil, ClassValue.encode_le_encode_iff] at hcodes
    rw [hkey, Option.getD_some, hcodes, htag]
    refine or_congr_right ⟨fun hle => ⟨htag ▸ hle.tag_eq, ?_⟩, ?_⟩
    · rintro lo' hlo
      obtain rfl := Option.some.inj hlo
      exact ⟨l, hl, hle⟩
    · rintro ⟨heq, hall⟩
      obtain ⟨l', hl', hle⟩ := hall lo rfl
      rwa [hone lo rfl l hl l' hl' (htag.trans (heq.trans hle.tag_eq.symm))]

lemma stop_admits_entryKey_iff (hone : OneForm upper) (hp : Picks upper r.tag r.upper)
    (hlast : r.tag < 0xFF) (id : String) :
    (r.stop d).admits (entryKey d.entryPrefix c.encode id) = true ↔
      c.tag < r.tag ∨ c.tag = r.tag ∧ ∀ hi ∈ upper, ∃ h ∈ hi, c.Le h := by
  rw [ClassRange.stop, entryKey, List.append_assoc]
  cases upper with
  | none =>
    -- The next tag is above everything in the class.
    obtain ⟨payload, hc⟩ := c.encode_eq_cons
    have hkey : r.upper = none := hp
    have hnext : c.tag < r.tag + 1 ↔ c.tag ≤ r.tag := by
      have hone : (r.tag + 1).toNat = r.tag.toNat + 1 := by
        have : r.tag.toNat < 255 := UInt8.lt_iff_toNat_lt.mp hlast
        rw [UInt8.toNat_add, UInt8.toNat_one]
        omega
      rw [UInt8.lt_iff_toNat_lt, UInt8.le_iff_toNat_le, hone, Nat.lt_succ_iff]
    rw [hkey]
    simp only [EndBound.admits, decide_eq_true_eq, Bytes.append_lt_append_left_iff, hc,
      List.cons_append, List.cons_lt_cons_iff, List.not_lt_nil, and_false, or_false, hnext,
      Option.not_mem_none, false_implies, implies_true, and_true]
    exact le_iff_lt_or_eq
  | some hi =>
    obtain ⟨h, hh, htag, hkey⟩ := hp
    have hcodes := Bytes.append_le_append_iff_of_apart (c.apart_encode h)
      (Bytes.ofString_le_last id)
    rw [ClassValue.encode_le_encode_iff] at hcodes
    rw [hkey]
    simp only [EndBound.admits, decide_eq_true_eq, Bytes.append_le_append_left_iff, hcodes, htag]
    refine or_congr_right ⟨fun hle => ⟨htag ▸ hle.tag_eq, ?_⟩, ?_⟩
    · rintro hi' hhi
      obtain rfl := Option.some.inj hhi
      exact ⟨h, hh, hle⟩
    · rintro ⟨heq, hall⟩
      obtain ⟨h', hh', hle⟩ := hall hi rfl
      rwa [hone hi rfl h hh h' hh' (htag.trans (heq.symm.trans hle.tag_eq))]

lemma range_takes_iff (hlower : OneForm lower) (hupper : OneForm upper)
    (hlow : Picks lower r.tag r.lower) (hhigh : Picks upper r.tag r.upper) (hlast : r.tag < 0xFF)
    (id : String) :
    r.start d ≤ entryKey d.entryPrefix c.encode id ∧
        (r.stop d).admits (entryKey d.entryPrefix c.encode id) = true ↔
      c.tag = r.tag ∧ Within lower upper c := by
  rw [start_le_entryKey_iff hlower hlow, stop_admits_entryKey_iff hupper hhigh hlast, Within]
  constructor
  · rintro ⟨habove | ⟨heq, hl⟩, hbelow | ⟨heq', hh⟩⟩
    · exact absurd habove hbelow.asymm
    · exact absurd heq'.symm habove.ne
    · exact absurd heq.symm hbelow.ne
    · exact ⟨heq', hl, hh⟩
  · rintro ⟨heq, hl, hh⟩
    exact ⟨.inr ⟨heq.symm, hl⟩, .inr ⟨heq, hh⟩⟩

end Ranges

section Lookups

variable {A : IndexApi Predicate} {s : IndexState Predicate} {d : IndexDef Predicate}
  {rows : Set (String × Value)} {r : ClassRange}

/-- What a range holds; crossed bounds hold nothing. -/
def rangeFound (s : IndexState Predicate) (d : IndexDef Predicate) (r : ClassRange) : List String :=
  (s.entries.toList.filter fun k => decide (r.start d ≤ k) && (r.stop d).admits k).filterMap
    (entryDocId · d.entryPrefix)

lemma rangeIds_eq (s : IndexState Predicate) (d : IndexDef Predicate) (r : ClassRange) :
    rangeIds s d r = .ok (rangeFound s d r) := by
  by_cases hcross : r.crossed d = true
  · have hempty : s.entries.toList.filter
        (fun k => decide (r.start d ≤ k) && (r.stop d).admits k) = [] := by
      rw [List.filter_eq_nil_iff]
      intro k _ hk
      rw [Bool.and_eq_true, decide_eq_true_eq] at hk
      rw [ClassRange.crossed] at hcross
      cases hstop : r.stop d with
      | included e =>
        rw [hstop] at hk hcross
        simp only [EndBound.admits, decide_eq_true_eq] at hk hcross
        exact (hk.1.trans hk.2).not_gt hcross
      | excluded e =>
        rw [hstop] at hk hcross
        simp only [EndBound.admits, decide_eq_true_eq] at hk hcross
        exact (hk.1.trans_lt hk.2).not_ge hcross
    rw [rangeIds, if_pos hcross, rangeFound, hempty, List.filterMap_nil]
  · have hstart : ¬ (r.stop d).key < r.start d := by
      rw [ClassRange.crossed] at hcross
      cases hstop : r.stop d with
      | included e =>
        rw [hstop] at hcross
        simpa [EndBound.key] using hcross
      | excluded e =>
        rw [hstop] at hcross
        simp only [decide_eq_true_eq, not_le] at hcross
        exact hcross.asymm
    rw [rangeIds, if_neg hcross, setRange, if_neg hstart]
    rfl

lemma mem_rowClasses_encode {row : Value} {enc : Bytes} :
    (∃ v ∈ indexValues A d row, enc ∈ encodeCoercible A v) ↔
      ∃ c ∈ rowClasses A d row, enc = c.encode := by
  simp only [rowClasses, List.mem_flatMap, encodeCoercible_eq, List.mem_map]
  constructor
  · rintro ⟨v, hv, c, hc, rfl⟩
    exact ⟨c, ⟨v, hv, hc⟩, rfl⟩
  · rintro ⟨c, ⟨v, hv, hc⟩, rfl⟩
    exact ⟨v, hv, c, hc, rfl⟩

lemma entryDocId_encode (d : IndexDef Predicate) (c : ClassValue) (id : String) :
    entryDocId (entryKey d.entryPrefix c.encode id) d.entryPrefix = some id := by
  rw [entryDocId, entryKey, List.append_assoc, stripKey_append, Option.bind_some,
    docIdAfterValue_append id c.encodedLen_encode]

lemma mem_entries_iff (h : ExactFor A s d rows) {k : Bytes} (hk : d.entryPrefix <+: k) :
    k ∈ s.entries ↔
      ∃ row ∈ rows, ∃ c ∈ rowClasses A d row.2, k = entryKey d.entryPrefix c.encode row.1 := by
  rw [h k hk, KeyOfRows]
  refine exists_congr fun row => and_congr_right fun _ => ?_
  rw [mem_entryKeys]
  constructor
  · rintro ⟨v, hv, enc, henc, rfl⟩
    obtain ⟨c, hc, rfl⟩ := mem_rowClasses_encode.mp ⟨v, hv, henc⟩
    exact ⟨c, hc, rfl⟩
  · rintro ⟨c, hc, rfl⟩
    obtain ⟨v, hv, henc⟩ := mem_rowClasses_encode.mpr ⟨c, hc, rfl⟩
    exact ⟨v, hv, c.encode, henc, rfl⟩

lemma isPrefix_of_range {k : Bytes} (hlow : r.start d ≤ k) (hhigh : (r.stop d).admits k = true) :
    d.entryPrefix <+: k := by
  rw [ClassRange.stop] at hhigh
  cases hupper : r.upper with
  | none =>
    rw [hupper] at hhigh
    simp only [EndBound.admits, decide_eq_true_eq] at hhigh
    exact Bytes.isPrefix_of_between hlow hhigh.le
  | some h =>
    rw [hupper] at hhigh
    simp only [EndBound.admits, decide_eq_true_eq] at hhigh
    exact Bytes.isPrefix_of_between hlow hhigh

lemma mem_rangeFound {lower upper : Option (List ClassValue)} (h : ExactFor A s d rows)
    (hlower : OneForm lower) (hupper : OneForm upper) (hlow : Picks lower r.tag r.lower)
    (hhigh : Picks upper r.tag r.upper) (hlast : r.tag < 0xFF) {id : String} :
    id ∈ rangeFound s d r ↔ ∃ row ∈ rows, row.1 = id ∧
      ∃ c ∈ rowClasses A d row.2, c.tag = r.tag ∧ Within lower upper c := by
  simp only [rangeFound, List.mem_filterMap, List.mem_filter, SortedSet.mem_toList,
    Bool.and_eq_true, decide_eq_true_eq]
  constructor
  · rintro ⟨k, ⟨hk, hstart, hstop⟩, hid⟩
    obtain ⟨row, hrow, c, hc, rfl⟩ := (mem_entries_iff h (isPrefix_of_range hstart hstop)).mp hk
    rw [entryDocId_encode, Option.some.injEq] at hid
    exact ⟨row, hrow, hid, c, hc,
      (range_takes_iff hlower hupper hlow hhigh hlast row.1).mp ⟨hstart, hstop⟩⟩
  · rintro ⟨row, hrow, rfl, c, hc, hwithin⟩
    have hrange := (range_takes_iff (d := d) hlower hupper hlow hhigh hlast row.1).mpr hwithin
    refine ⟨entryKey d.entryPrefix c.encode row.1, ⟨?_, hrange⟩, entryDocId_encode d c row.1⟩
    exact (mem_entries_iff h (isPrefix_of_range hrange.1 hrange.2)).mpr ⟨row, hrow, c, hc, rfl⟩

lemma mem_lookupEq (h : ExactFor A s d rows) {probe : Value} {id : String} :
    id ∈ lookupEq A s d probe ↔ ∃ row ∈ rows, row.1 = id ∧
      ∃ c ∈ rowClasses A d row.2, c.encode ∈ encodeCoercible A (foldCase A d probe) := by
  simp only [lookupEq, mem_dedup, List.mem_flatMap, idsUnder, List.mem_filterMap,
    SortedSet.mem_under]
  constructor
  · rintro ⟨enc, henc, k, ⟨hk, hunder⟩, hid⟩
    have hhead : d.entryPrefix <+: k := (List.prefix_append _ _).trans hunder
    obtain ⟨row, hrow, c, hc, rfl⟩ := (mem_entries_iff h hhead).mp hk
    rw [entryDocId_encode, Option.some.injEq] at hid
    -- The probe's encoding starts an entry only where it is the entry's own.
    rw [entryKey, List.append_assoc, List.prefix_append_right_inj] at hunder
    have hprobe := henc
    rw [encodeCoercible_eq] at henc
    obtain ⟨p, -, rfl⟩ := List.mem_map.mp henc
    rw [Bytes.eq_of_isPrefix_append (p.apart_encode c) hunder] at hprobe
    exact ⟨row, hrow, hid, c, hc, hprobe⟩
  · rintro ⟨row, hrow, rfl, c, hc, henc⟩
    refine ⟨c.encode, henc, entryKey d.entryPrefix c.encode row.1, ⟨?_, List.prefix_append _ _⟩,
      entryDocId_encode d c row.1⟩
    have hhead : d.entryPrefix <+: entryKey d.entryPrefix c.encode row.1 := by
      rw [entryKey, List.append_assoc]
      exact List.prefix_append _ _
    exact (mem_entries_iff h hhead).mpr ⟨row, hrow, c, hc, rfl⟩

lemma indexable_of_mem_indexValues {row v : Value} (hv : v ∈ indexValues A d row) :
    indexable v = true := by
  have hfold : ∀ w, indexable (foldCase A d w) = indexable w := by
    intro w
    cases w with
    | string text =>
      rw [foldCase]
      split_ifs <;> rfl
    | _ => rfl
  rw [indexValues] at hv
  split at hv
  · exact absurd hv List.not_mem_nil
  · split at hv
    · exact absurd hv List.not_mem_nil
    · split at hv
      · obtain ⟨w, hw, rfl⟩ := List.mem_map.mp hv
        rw [hfold]
        exact (List.mem_filter.mp hw).2
      · split at hv
        · next hindexable =>
          rw [List.mem_singleton.mp hv, hfold]
          exact hindexable
        · exact absurd hv List.not_mem_nil

lemma map_encodeCoercible_eq (A : IndexApi Predicate) (d : IndexDef Predicate)
    (bound : Option Value) : bound.map (fun v => encodeCoercible A (foldCase A d v)) =
      (boundClasses A d bound).map (List.map ClassValue.encode) := by
  cases bound with
  | none => rfl
  | some v => simp [boundClasses, encodeCoercible_eq]

lemma ClassValue.tag_lt_last (c : ClassValue) : c.tag < 0xFF := by
  cases c <;> simp only [ClassValue.tag] <;> decide

lemma Picks.tag_lt_last {lower upper : Option (List ClassValue)}
    (hsome : lower.isSome = true ∨ upper.isSome = true) (hlow : Picks lower r.tag r.lower)
    (hhigh : Picks upper r.tag r.upper) : r.tag < 0xFF := by
  have hpick : ∀ {bound key}, bound.isSome = true → Picks bound r.tag key → r.tag < 0xFF := by
    intro bound key hbound hp
    obtain ⟨cs, rfl⟩ := Option.isSome_iff_exists.mp hbound
    obtain ⟨c, -, htag, -⟩ := hp
    exact htag ▸ c.tag_lt_last
  rcases hsome with hl | hh
  · exact hpick hl hlow
  · exact hpick hh hhigh

lemma picks_of_tag {bound : Option (List ClassValue)} {tag : UInt8}
    (h : ∀ cs ∈ bound, ∃ c ∈ cs, c.tag = tag) : ∃ key, Picks bound tag key := by
  cases bound with
  | none => exact ⟨none, rfl⟩
  | some cs =>
    obtain ⟨c, hc, htag⟩ := h cs rfl
    exact ⟨some c.encode, c, hc, htag, rfl⟩

lemma Picks.exists_tag {bound : Option (List ClassValue)} {tag : UInt8} {key : Option Bytes}
    (h : Picks bound tag key) : ∀ cs ∈ bound, ∃ c ∈ cs, c.tag = tag := by
  rintro cs rfl
  obtain ⟨c, hc, htag, -⟩ := h
  exact ⟨c, hc, htag⟩

lemma sharesClass_iff {lower upper : Option (List ClassValue)} (hone : OneForm upper)
    {ranges : List ClassRange} (h : classRanges (lower.map (List.map ClassValue.encode))
      (upper.map (List.map ClassValue.encode)) = some ranges) {tag : UInt8} :
    SharesClass lower upper tag ↔ ∃ r ∈ ranges, r.tag = tag := by
  constructor
  · rintro ⟨hsome, hlow, hhigh⟩
    obtain ⟨low, hlow⟩ := picks_of_tag hlow
    obtain ⟨high, hhigh⟩ := picks_of_tag hhigh
    exact ⟨⟨tag, low, high⟩, (mem_classRanges hone h).mpr ⟨hsome, hlow, hhigh⟩, rfl⟩
  · rintro ⟨r, hr, rfl⟩
    obtain ⟨hsome, hlow, hhigh⟩ := (mem_classRanges hone h).mp hr
    exact ⟨hsome, hlow.exists_tag, hhigh.exists_tag⟩

/-- What a range lookup answers: none exactly without a shared class, otherwise each document once
that has a form in a shared class between the bounds. -/
def RangeExact (A : IndexApi Predicate) (d : IndexDef Predicate) (rows : Set (String × Value))
    (lower upper : Option Value) (found : Option (List String)) : Prop :=
  (found = none ↔ ¬∃ tag, SharesClass (boundClasses A d lower) (boundClasses A d upper) tag) ∧
    ∀ ids ∈ found, ids.Nodup ∧ ∀ id, id ∈ ids ↔ ∃ row ∈ rows, row.1 = id ∧
      ∃ c ∈ rowClasses A d row.2, SharesClass (boundClasses A d lower) (boundClasses A d upper) c.tag ∧
        Within (boundClasses A d lower) (boundClasses A d upper) c

lemma lookupRange_exact (h : ExactFor A s d rows) (lower upper : Option Value) :
    ∃ found, lookupRange A s d lower upper = .ok found ∧ RangeExact A d rows lower upper found := by
  have hlower := oneForm_boundClasses A d lower
  have hupper := oneForm_boundClasses A d upper
  simp only [lookupRange, map_encodeCoercible_eq, RangeExact]
  generalize boundClasses A d lower = lo at hlower
  generalize boundClasses A d upper = hi at hupper
  cases hranges : classRanges (lo.map (List.map ClassValue.encode))
      (hi.map (List.map ClassValue.encode)) with
  | none =>
    have hneither : lo = none ∧ hi = none := by
      cases lo <;> cases hi <;> simp_all [classRanges]
    refine ⟨none, rfl, iff_of_true rfl ?_, by simp⟩
    rintro ⟨tag, hsome, -⟩
    simp [hneither] at hsome
  | some ranges =>
    have hshares : ∀ tag, SharesClass lo hi tag ↔ ∃ r ∈ ranges, r.tag = tag :=
      fun _ => sharesClass_iff hupper hranges
    by_cases hempty : ranges = []
    · refine ⟨none, by simp [hempty], iff_of_true rfl ?_, by simp⟩
      rintro ⟨tag, htag⟩
      obtain ⟨r, hr, -⟩ := (hshares tag).mp htag
      simp [hempty] at hr
    · have hall : ranges.mapM (rangeIds s d) = .ok (ranges.map (rangeFound s d)) := by
        rw [funext (rangeIds_eq s d)]
        exact List.mapM_pure
      obtain ⟨first, hfirst⟩ := List.exists_mem_of_ne_nil _ hempty
      refine ⟨some (dedup (ranges.map (rangeFound s d)).flatten), ?_, iff_of_false (by simp) ?_, ?_⟩
      · simp only [List.isEmpty_iff, hempty, if_false, hall]
        rfl
      · exact not_not.mpr ⟨first.tag, (hshares _).mpr ⟨first, hfirst, rfl⟩⟩
      · rintro ids hids
        obtain rfl := Option.some.inj hids
        refine ⟨nodup_dedup _, fun id => ?_⟩
        simp only [mem_dedup, List.mem_flatten, List.mem_map, exists_exists_and_eq_and]
        constructor
        · rintro ⟨r, hr, hid⟩
          obtain ⟨hsome, hlow, hhigh⟩ := (mem_classRanges hupper hranges).mp hr
          obtain ⟨row, hrow, heq, c, hc, htag, hwithin⟩ := (mem_rangeFound h hlower hupper hlow hhigh
            (Picks.tag_lt_last hsome hlow hhigh)).mp hid
          exact ⟨row, hrow, heq, c, hc, (hshares _).mpr ⟨r, hr, htag.symm⟩, hwithin⟩
        · rintro ⟨row, hrow, heq, c, hc, hclass, hwithin⟩
          obtain ⟨r, hr, htag⟩ := (hshares _).mp hclass
          obtain ⟨hsome, hlow, hhigh⟩ := (mem_classRanges hupper hranges).mp hr
          exact ⟨r, hr, (mem_rangeFound h hlower hupper hlow hhigh
            (Picks.tag_lt_last hsome hlow hhigh)).mpr ⟨row, hrow, heq, c, hc, htag.symm, hwithin⟩⟩

/-- What an equality lookup answers: each document once, every one whose indexed field equals the
probe, and no other than those that share a form with it. -/
def EqExact (A : IndexApi Predicate) (d : IndexDef Predicate) (rows : Set (String × Value))
    (probe : Value) (found : List String) : Prop :=
  found.Nodup ∧
    (∀ row ∈ rows, (∃ v ∈ indexValues A d row.2, A.eqCoerced v (foldCase A d probe) = true) →
      row.1 ∈ found) ∧
    ∀ id ∈ found, ∃ row ∈ rows, row.1 = id ∧
      ∃ c ∈ rowClasses A d row.2, c.encode ∈ encodeCoercible A (foldCase A d probe)

lemma lookupEq_exact (hA : SharesKey A) (h : ExactFor A s d rows) (probe : Value) :
    EqExact A d rows probe (lookupEq A s d probe) := by
  refine ⟨nodup_dedup _, ?_, fun id hid => (mem_lookupEq h).mp hid⟩
  rintro row hrow ⟨v, hv, heq⟩
  obtain ⟨enc, henc, hprobe⟩ := hA v _ (indexable_of_mem_indexValues hv) heq
  obtain ⟨c, hc, rfl⟩ := mem_rowClasses_encode.mp ⟨v, hv, henc⟩
  exact (mem_lookupEq h).mpr ⟨row, hrow, rfl, c, hc, hprobe⟩

end Lookups

lemma textApi_sharesKey : SharesKey textApi := by
  intro a b _ heq
  rw [textApi] at heq
  dsimp only at heq
  split at heq
  · obtain rfl := of_decide_eq_true heq
    exact ⟨_, List.mem_cons_self, List.mem_cons_self⟩
  · cases heq

def textRow (value : String) : Value := .object [("f", .string value)]

def uniqueIndex (engine : IndexEngine) : IndexDef Empty :=
  fieldDef "i" "f" documentIndex.name_short true engine

def strictCalls : List (IndexLabel Empty) :=
  [.createIndex (uniqueIndex .strict) true,
    .commitRows .strict
      [⟨"c", [0x31], some (textRow "x")⟩, ⟨"c", [0x32], some (textRow "y")⟩] true]

end NodedbLite.Index
