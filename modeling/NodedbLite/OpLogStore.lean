import NodedbLite.PrefixScan

/-! The op log of the array sync (`sync/array/op_log_store`) as rows of one namespace: a key is the
length of the array's name in one byte, the name and the bytes of the HLC. -/
namespace NodedbLite.OpLog

/-- `codec` stands for the errors of the op codec. -/
inductive ArrayError (Fault : Type)
  | segmentCorruption (detail : String)
  | codec (fault : Fault)
  deriving DecidableEq

/-- HLCs and ops as the shared crates provide them. -/
structure OpCodec (Hlc Op Fault : Type) where
  toBytes : Hlc → Bytes
  fromBytes : Bytes → Hlc
  array : Op → String
  hlc : Op → Hlc
  encodeOp : Op → Except (ArrayError Fault) Bytes
  decodeOp : Bytes → Except (ArrayError Fault) Op

/-- HLC bytes have one length and sort as HLCs do; HLCs and ops are read back. -/
structure OpCodec.Faithful {Hlc Op Fault : Type} [LinearOrder Hlc] (C : OpCodec Hlc Op Fault) :
    Prop where
  length_toBytes : ∀ hlc, (C.toBytes hlc).length = 18
  fromBytes_toBytes : ∀ hlc, C.fromBytes (C.toBytes hlc) = hlc
  toBytes_strictMono : StrictMono C.toBytes
  decodeOp_encodeOp : ∀ {op bytes}, C.encodeOp op = .ok bytes → C.decodeOp bytes = .ok op

abbrev Rows := SortedMap Bytes Bytes

section Keys

variable {Hlc Op Fault : Type}

/-- The checks on the name that `make_key` and `make_array_prefix` share. -/
def checkName (array : String) : Except (ArrayError Fault) Bytes :=
  let name := Bytes.ofString array
  if name.isEmpty then .error (.segmentCorruption "op_log: array name must not be empty")
  else if 255 < name.length then .error (.segmentCorruption "op_log: array name exceeds 255 bytes")
  else .ok name

def makeKey (C : OpCodec Hlc Op Fault) (array : String) (hlc : Hlc) :
    Except (ArrayError Fault) Bytes := do
  let name ← checkName array
  return UInt8.ofNat name.length :: name ++ C.toBytes hlc

def makeArrayPrefix (array : String) : Except (ArrayError Fault) Bytes := do
  let name ← checkName array
  return UInt8.ofNat name.length :: name

/-- The loop of `next_prefix`, over the bytes from the last one on. -/
def carry : Bytes → Option Bytes
  | [] => none
  | byte :: rest => if byte < 0xFF then some ((byte + 1) :: rest) else (carry rest).map (0x00 :: ·)

/-- `none` for bytes that are all `0xFF`. -/
def nextPrefix (bytes : Bytes) : Option Bytes := (carry bytes.reverse).map List.reverse

def splitKey (C : OpCodec Hlc Op Fault) : Bytes → Option (String × Hlc)
  | [] => none
  | nameLen :: rest =>
    if rest.length < nameLen.toNat + 18 then none
    else (Bytes.toString? (rest.take nameLen.toNat)).map
      (fun name => (name, C.fromBytes ((rest.drop nameLen.toNat).take 18)))

end Keys

section Calls

variable {Hlc Op Fault : Type} [LinearOrder Hlc] (C : OpCodec Hlc Op Fault) (rows : Rows)

def append (op : Op) : Except (ArrayError Fault) Rows := do
  let key ← makeKey C (C.array op) (C.hlc op)
  let value ← C.encodeOp op
  return rows.insert key value

def scanFrom (low : Hlc) : List (Except (ArrayError Fault) Op) :=
  rows.entries.filterMap fun e =>
    (splitKey C e.1).bind fun (_, hlc) => if hlc < low then none else some (C.decodeOp e.2)

/-- The rows from `start` on and before `stop`, in key order. -/
def scanRangeBounded (start : Bytes) (stop : Option Bytes) : List (Bytes × Bytes) :=
  rows.entries.filter fun e => start ≤ e.1 ∧ ∀ bound ∈ stop, e.1 < bound

def scanRange (array : String) (low high : Hlc) :
    Except (ArrayError Fault) (List (Except (ArrayError Fault) Op)) := do
  let start ← makeKey C array low
  if high < low then return []
  let last ← makeKey C array high
  let pairs := scanRangeBounded rows start (nextPrefix last)
  let head ← makeArrayPrefix array
  return (pairs.takeWhile fun e => head.isPrefixOf e.1).filterMap fun e =>
    (splitKey C e.1).bind fun (_, hlc) =>
      if hlc < low ∨ high < hlc then none else some (C.decodeOp e.2)

/-- The batch of `drop_below`. -/
def toDelete (bound : Hlc) : List (SortedMap.Write Bytes Bytes) :=
  rows.entries.filterMap fun e =>
    (splitKey C e.1).bind fun (_, hlc) => if hlc < bound then some (.delete e.1) else none

/-- The number of deleted rows, and what is left. -/
def dropBelow (bound : Hlc) : Nat × Rows :=
  ((toDelete C rows bound).length, rows.writeAll (toDelete C rows bound))

end Calls

/-- The names a key can hold. -/
def ValidName (array : String) : Prop :=
  Bytes.ofString array ≠ [] ∧ (Bytes.ofString array).length ≤ 255

instance (array : String) : Decidable (ValidName array) := inferInstanceAs (Decidable (_ ∧ _))

section Spec

/-- What the log is for: one op for each array and HLC. -/
abbrev OpMap (Hlc Op : Type) [LinearOrder Hlc] := SortedMap (String ×ₗ Hlc) Op

variable {Hlc Op Fault : Type} [LinearOrder Hlc] (C : OpCodec Hlc Op Fault)

inductive Call (Hlc Op : Type)
  | append (op : Op)
  | dropBelow (bound : Hlc)

/-- A failed append leaves the rows as they are. -/
def step (rows : Rows) : Call Hlc Op → Rows
  | .append op => (append C rows op).toOption.getD rows
  | .dropBelow bound => (dropBelow C rows bound).2

/-- An op is recorded when its name is valid and it can be encoded. -/
def OpMap.step (m : OpMap Hlc Op) : Call Hlc Op → OpMap Hlc Op
  | .append op =>
    if ValidName (C.array op) ∧ (C.encodeOp op).isOk then
      m.insert (toLex (C.array op, C.hlc op)) op
    else m
  | .dropBelow bound => m.filter fun place _ => bound ≤ (ofLex place).2

end Spec

section KeyFacts

variable {Hlc Op Fault : Type} {C : OpCodec Hlc Op Fault}

/-- What all keys of one array start with. -/
def keyHead (array : String) : Bytes :=
  UInt8.ofNat (Bytes.ofString array).length :: Bytes.ofString array

def keyOf (C : OpCodec Hlc Op Fault) (place : String × Hlc) : Bytes :=
  keyHead place.1 ++ C.toBytes place.2

lemma checkName_of_valid {array : String} (h : ValidName array) :
    (checkName array : Except (ArrayError Fault) Bytes) = .ok (Bytes.ofString array) := by
  obtain ⟨hne, hlen⟩ := h
  simp [checkName, hne, hlen]

lemma checkName_of_not_valid {array : String} (h : ¬ ValidName array) :
    ∃ e, (checkName array : Except (ArrayError Fault) Bytes) = .error e := by
  unfold checkName
  by_cases hne : Bytes.ofString array = []
  · rw [hne]
    exact ⟨_, rfl⟩
  · have hlen : 255 < (Bytes.ofString array).length := by
      by_contra hle
      exact h ⟨hne, not_lt.mp hle⟩
    simp [hne, hlen]

lemma checkName_empty : (checkName "" : Except (ArrayError Fault) Bytes) =
    .error (.segmentCorruption "op_log: array name must not be empty") := rfl

lemma makeKey_of_valid {array : String} (h : ValidName array) (hlc : Hlc) :
    makeKey C array hlc = .ok (keyOf C (array, hlc)) := by
  rw [makeKey, checkName_of_valid h]
  rfl

lemma makeArrayPrefix_of_valid {array : String} (h : ValidName array) :
    (makeArrayPrefix array : Except (ArrayError Fault) Bytes) = .ok (keyHead array) := by
  rw [makeArrayPrefix, checkName_of_valid h]
  rfl

lemma toNat_length {array : String} (h : ValidName array) :
    (UInt8.ofNat (Bytes.ofString array).length).toNat = (Bytes.ofString array).length :=
  UInt8.toNat_ofNat_of_lt' (Nat.lt_succ_of_le h.2)

/-- No head of an array starts the keys of another, even when its name starts the other's. -/
theorem keyHead_isPrefix_keyOf_iff {array : String} {place : String × Hlc} (ha : ValidName array)
    (hp : ValidName place.1) : keyHead array <+: keyOf C place ↔ array = place.1 := by
  constructor
  · intro h
    rw [keyOf, keyHead, keyHead, List.cons_append, List.cons_prefix_cons] at h
    have hlen : (Bytes.ofString array).length = (Bytes.ofString place.1).length := by
      rw [← toNat_length ha, ← toNat_length hp, h.1]
    have hname := List.prefix_of_prefix_length_le h.2 (List.prefix_append _ _) hlen.le
    exact Bytes.ofString_injective (hname.eq_of_length hlen)
  · rintro rfl
    exact List.prefix_append _ _

lemma length_carry {bytes next : Bytes} (h : carry bytes = some next) :
    next.length = bytes.length := by
  induction bytes generalizing next with
  | nil => cases h
  | cons byte rest ih =>
    rw [carry] at h
    split at h
    next => cases h; rfl
    next =>
      obtain ⟨up, hup, rfl⟩ := Option.map_eq_some_iff.mp h
      rw [List.length_cons, List.length_cons, ih hup]

/-- The carry turns a tail of `0xFF` into zeros and increments the byte before it. -/
lemma lt_of_carry {bytes next : Bytes} (h : carry bytes = some next) :
    bytes.reverse < next.reverse := by
  induction bytes generalizing next with
  | nil => cases h
  | cons byte rest ih =>
    rw [carry] at h
    split at h
    next hbyte =>
      cases h
      have hnext : byte < byte + 1 := by
        rw [UInt8.lt_iff_toNat_lt] at hbyte ⊢
        rw [UInt8.toNat_add]
        simp at hbyte ⊢
        omega
      rw [List.reverse_cons, List.reverse_cons, Bytes.append_lt_append_left_iff]
      exact List.Lex.rel hnext
    next =>
      obtain ⟨up, hup, rfl⟩ := Option.map_eq_some_iff.mp h
      rw [List.reverse_cons, List.reverse_cons]
      exact Bytes.append_lt_append_of_length_eq (by simp [length_carry hup]) (ih hup) _ _

lemma lt_nextPrefix {bytes next : Bytes} (h : nextPrefix bytes = some next) : bytes < next := by
  obtain ⟨up, hup, rfl⟩ := Option.map_eq_some_iff.mp h
  simpa using lt_of_carry hup

lemma scanned_eq_filter (rows : Rows) {array : String} {low : Hlc} {stop : Option Bytes} :
    (scanRangeBounded rows (keyOf C (array, low)) stop).takeWhile
        (fun e => (keyHead array).isPrefixOf e.1) =
      rows.entries.filter fun e => (keyHead array).isPrefixOf e.1 &&
        decide (keyOf C (array, low) ≤ e.1 ∧ ∀ bound ∈ stop, e.1 < bound) := by
  rw [scanRangeBounded, PrefixScan.takeWhile_eq_filter (rows.sorted.filter _), List.filter_filter]
  intro e he
  have hstart := (of_decide_eq_true (List.mem_filter.mp he).2).1
  exact (PrefixScan.le_of_isPrefix (List.prefix_append _ _)).trans hstart

variable [LinearOrder Hlc]

/-- The length byte says where the name ends. -/
theorem splitKey_keyOf (hC : C.Faithful) {place : String × Hlc} (h : ValidName place.1) :
    splitKey C (keyOf C place) = some place := by
  have hlen := hC.length_toBytes place.2
  rw [keyOf, keyHead, List.cons_append, splitKey, toNat_length h,
    if_neg (by rw [List.length_append, hlen]; exact lt_irrefl _), List.take_left, List.drop_left,
    Bytes.toString?_ofString, List.take_of_length_le hlen.le, hC.fromBytes_toBytes]
  rfl

lemma keyOf_inj (hC : C.Faithful) {a b : String × Hlc} (ha : ValidName a.1) (hb : ValidName b.1)
    (h : keyOf C a = keyOf C b) : a = b :=
  Option.some.inj (by rw [← splitKey_keyOf hC ha, h, splitKey_keyOf hC hb])

lemma keyOf_lt_keyOf_iff (hC : C.Faithful) {array : String} {a b : Hlc} :
    keyOf C (array, a) < keyOf C (array, b) ↔ a < b := by
  rw [keyOf, keyOf, Bytes.append_lt_append_left_iff, hC.toBytes_strictMono.lt_iff_lt]

lemma keyOf_le_keyOf_iff (hC : C.Faithful) {array : String} {a b : Hlc} :
    keyOf C (array, a) ≤ keyOf C (array, b) ↔ a ≤ b := by
  rw [← not_lt, keyOf_lt_keyOf_iff hC, not_lt]

end KeyFacts

section Refinement

variable {Hlc Op Fault : Type} [LinearOrder Hlc] {C : OpCodec Hlc Op Fault} {rows : Rows}
  {m : OpMap Hlc Op}

/-- Whether a key names an HLC below the bound. -/
def namesBelow (C : OpCodec Hlc Op Fault) (bound : Hlc) (key : Bytes) : Bool :=
  (splitKey C key).any fun place => place.2 < bound

lemma toDelete_eq (bound : Hlc) :
    toDelete C rows bound =
      (rows.entries.filter fun e => namesBelow C bound e.1).map fun e => .delete e.1 := by
  rw [toDelete, ← List.filterMap_eq_map, List.filterMap_filter]
  apply List.filterMap_congr
  intro e _
  unfold namesBelow
  cases splitKey C e.1 with
  | none => rfl
  | some place => simp [Function.comp]

lemma mem_toDelete_keys {bound : Hlc} {key : Bytes} :
    key ∈ (toDelete C rows bound).map SortedMap.Write.key ↔
      (rows.get key).isSome ∧ namesBelow C bound key := by
  rw [toDelete_eq, List.map_map, ← SortedMap.mem_keys, SortedMap.keys]
  simp only [List.mem_map, List.mem_filter, Function.comp_apply, SortedMap.Write.key]
  constructor
  · rintro ⟨e, ⟨he, hbelow⟩, rfl⟩
    exact ⟨⟨e, he, rfl⟩, hbelow⟩
  · rintro ⟨⟨e, he, rfl⟩, hbelow⟩
    exact ⟨e, ⟨he, hbelow⟩, rfl⟩

lemma dropBelow_rows (bound : Hlc) :
    (dropBelow C rows bound).2 = rows.filter fun key _ => !namesBelow C bound key := by
  have hdeletes : ∀ w ∈ toDelete C rows bound, w.value = none := by
    rw [toDelete_eq]
    intro w hw
    obtain ⟨e, -, rfl⟩ := List.mem_map.mp hw
    rfl
  ext1 key
  rw [dropBelow, SortedMap.get_writeAll_of_deletes _ hdeletes, SortedMap.get_filter]
  simp only [mem_toDelete_keys]
  cases rows.get key with
  | none => simp
  | some value => cases namesBelow C bound key <;> rfl

lemma hlc_lt_of_lt {a b : String ×ₗ Hlc} (hab : a < b) (hsame : (ofLex a).1 = (ofLex b).1) :
    (ofLex a).2 < (ofLex b).2 :=
  ((Prod.Lex.lt_iff.mp hab).resolve_left hsame.not_lt).2

/-- The row of one recorded op. -/
def rowOf (C : OpCodec Hlc Op Fault) (e : (String ×ₗ Hlc) × Op) : Bytes × Bytes :=
  (keyOf C (ofLex e.1), (C.encodeOp e.2).toOption.getD [])

/-- The rows are those of the recorded ops, and all of them can be read back. -/
structure Refines (C : OpCodec Hlc Op Fault) (rows : Rows) (m : OpMap Hlc Op) : Prop where
  rows_perm : rows.entries.Perm (m.entries.map (rowOf C))
  valid : ∀ e ∈ m.entries, ValidName (ofLex e.1).1
  encoded : ∀ e ∈ m.entries, (C.encodeOp e.2).isOk

namespace Refines

lemma splitKey_row (hC : C.Faithful) (h : Refines C rows m) {e : (String ×ₗ Hlc) × Op}
    (he : e ∈ m.entries) : splitKey C (rowOf C e).1 = some (ofLex e.1) :=
  splitKey_keyOf hC (h.valid e he)

lemma decodeOp_row (hC : C.Faithful) (h : Refines C rows m) {e : (String ×ₗ Hlc) × Op}
    (he : e ∈ m.entries) : C.decodeOp (rowOf C e).2 = .ok e.2 := by
  have hok := h.encoded e he
  cases hencode : C.encodeOp e.2 with
  | error fault =>
    rw [hencode] at hok
    cases hok
  | ok bytes =>
    rw [rowOf, hencode]
    exact hC.decodeOp_encodeOp hencode

lemma filterMap_rows {β : Type} (h : Refines C rows m) {f : Bytes × Bytes → Option β}
    {keep : (String ×ₗ Hlc) × Op → Bool} {g : (String ×ₗ Hlc) × Op → β}
    (hf : ∀ e ∈ m.entries, f (rowOf C e) = if keep e then some (g e) else none) :
    (rows.entries.filterMap f).Perm ((m.entries.filter keep).map g) := by
  have hperm := h.rows_perm.filterMap f
  rw [List.filterMap_map] at hperm
  rw [← List.filterMap_eq_map, List.filterMap_filter]
  refine hperm.trans (List.Perm.of_eq (List.filterMap_congr ?_))
  intro e he
  rw [Function.comp_apply, hf e he]
  rfl

theorem scanFrom_perm (hC : C.Faithful) (h : Refines C rows m) (low : Hlc) :
    (scanFrom C rows low).Perm
      ((m.entries.filter fun e => low ≤ (ofLex e.1).2).map fun e => .ok e.2) := by
  apply h.filterMap_rows
  intro e he
  rw [h.splitKey_row hC he, h.decodeOp_row hC he, Option.bind_some]
  by_cases hlow : low ≤ (ofLex e.1).2
  · simp [hlow]
  · simp [not_le.mp hlow, hlow]

lemma namesBelow_row (hC : C.Faithful) (h : Refines C rows m) (bound : Hlc)
    {e : (String ×ₗ Hlc) × Op} (he : e ∈ m.entries) :
    namesBelow C bound (rowOf C e).1 = decide ((ofLex e.1).2 < bound) := by
  rw [namesBelow, h.splitKey_row hC he, Option.any_some]

theorem dropBelow_count (hC : C.Faithful) (h : Refines C rows m) (bound : Hlc) :
    (dropBelow C rows bound).1 = (m.entries.filter fun e => (ofLex e.1).2 < bound).length := by
  have hperm := h.rows_perm.filter fun e => namesBelow C bound e.1
  have hsame : m.entries.filter ((fun e => namesBelow C bound e.1) ∘ rowOf C) =
      m.entries.filter fun e => (ofLex e.1).2 < bound :=
    List.filter_congr fun e he => h.namesBelow_row hC bound he
  rw [dropBelow, toDelete_eq, List.length_map, hperm.length_eq, List.filter_map, List.length_map,
    hsame]

lemma filter_rows (h : Refines C rows m) {p : Bytes → Bytes → Bool}
    {keep : String ×ₗ Hlc → Op → Bool}
    (hp : ∀ e ∈ m.entries, p (rowOf C e).1 (rowOf C e).2 = keep e.1 e.2) :
    Refines C (rows.filter p) (m.filter keep) where
  rows_perm := by
    have hsame : m.entries.filter ((fun e => p e.1 e.2) ∘ rowOf C) = (m.filter keep).entries :=
      List.filter_congr fun e he => hp e he
    rw [← hsame, ← List.filter_map]
    exact h.rows_perm.filter fun e => p e.1 e.2
  valid := fun e he => h.valid e (SortedMap.mem_entries_filter.mp he).1
  encoded := fun e he => h.encoded e (SortedMap.mem_entries_filter.mp he).1

theorem dropBelow_refines (hC : C.Faithful) (h : Refines C rows m) (bound : Hlc) :
    Refines C (dropBelow C rows bound).2 (m.filter fun place _ => bound ≤ (ofLex place).2) := by
  rw [dropBelow_rows]
  apply h.filter_rows
  intro e he
  rw [h.namesBelow_row hC bound he, ← decide_not]
  exact decide_eq_decide.mpr not_lt

lemma erase_refines (hC : C.Faithful) (h : Refines C rows m) {place : String ×ₗ Hlc}
    (hplace : ValidName (ofLex place).1) :
    Refines C (rows.erase (keyOf C (ofLex place))) (m.erase place) := by
  apply h.filter_rows
  intro e he
  refine decide_eq_decide.mpr (not_congr ⟨fun hkey => ?_, fun hsame => ?_⟩)
  · exact ofLex_inj.mp (keyOf_inj hC (h.valid e he) hplace hkey)
  · rw [← hsame, rowOf]

lemma insert_refines (hC : C.Faithful) (h : Refines C rows m) {place : String ×ₗ Hlc} {op : Op}
    {value : Bytes} (hplace : ValidName (ofLex place).1) (hvalue : C.encodeOp op = .ok value) :
    Refines C (rows.insert (keyOf C (ofLex place)) value) (m.insert place op) := by
  have herase := h.erase_refines hC hplace
  have hrow : rowOf C (place, op) = (keyOf C (ofLex place), value) := by
    rw [rowOf, hvalue]
    rfl
  have hmem : ∀ e ∈ (m.insert place op).entries, e = (place, op) ∨ e ∈ (m.erase place).entries :=
    fun e he => List.mem_cons.mp ((m.entries_insert_perm place op).mem_iff.mp he)
  refine ⟨?_, fun e he => ?_, fun e he => ?_⟩
  · refine (rows.entries_insert_perm _ _).trans
      (List.Perm.trans ?_ ((m.entries_insert_perm place op).map _).symm)
    rw [List.map_cons, hrow]
    exact herase.rows_perm.cons _
  · rcases hmem e he with rfl | he
    · exact hplace
    · exact herase.valid e he
  · rcases hmem e he with rfl | he
    · rw [hvalue]
      rfl
    · exact herase.encoded e he

/-- One call on the rows and on the map. -/
theorem step_refines (hC : C.Faithful) (h : Refines C rows m) (call : Call Hlc Op) :
    Refines C (step C rows call) (m.step C call) := by
  cases call with
  | dropBelow bound => exact h.dropBelow_refines hC bound
  | append op =>
    rw [step, OpMap.step, append]
    by_cases hname : ValidName (C.array op)
    · rw [makeKey_of_valid hname]
      cases hvalue : C.encodeOp op with
      | error fault =>
        rw [if_neg (fun hboth => nomatch hboth.2)]
        exact h
      | ok value =>
        rw [if_pos ⟨hname, rfl⟩]
        exact h.insert_refines hC hname hvalue
    · obtain ⟨e, he⟩ : ∃ e, (checkName (C.array op) : Except (ArrayError Fault) _) = .error e :=
        checkName_of_not_valid hname
      rw [if_neg (fun hboth => hname hboth.1), makeKey, he]
      exact h

/-- The rows that the calls leave, and the map they stand for. -/
theorem run_refines (hC : C.Faithful) (h : Refines C rows m) (calls : List (Call Hlc Op)) :
    Refines C (calls.foldl (step C) rows) (calls.foldl (OpMap.step C) m) := by
  induction calls generalizing rows m with
  | nil => exact h
  | cons call calls ih => exact ih (h.step_refines hC call)

/-- Rows of one array come in the order of their HLCs, as the ops of the map do. -/
lemma filter_rows_eq (hC : C.Faithful) (h : Refines C rows m) (array : String)
    {p : Bytes × Bytes → Bool} (hp : ∀ e ∈ m.entries, p (rowOf C e) → (ofLex e.1).1 = array) :
    rows.entries.filter p = (m.entries.filter (p ∘ rowOf C)).map (rowOf C) := by
  have hperm := h.rows_perm.filter p
  rw [List.filter_map] at hperm
  have hsorted : ((m.entries.filter (p ∘ rowOf C)).map (rowOf C)).Pairwise
      (fun a b => a.1 < b.1) := by
    refine List.pairwise_map.mpr ((m.sorted.filter _).imp_of_mem ?_)
    intro a b ha hb hab
    obtain ⟨ha, hpa⟩ := List.mem_filter.mp ha
    obtain ⟨hb, hpb⟩ := List.mem_filter.mp hb
    have hsame : (ofLex a.1).1 = (ofLex b.1).1 := (hp a ha hpa).trans (hp b hb hpb).symm
    rw [rowOf, rowOf, ← Prod.mk.eta (p := ofLex a.1), hsame]
    exact (keyOf_lt_keyOf_iff hC).mpr (hlc_lt_of_lt hab hsame)
  exact List.Perm.eq_of_pairwise (fun a b _ _ hab hba => absurd hab (lt_asymm hba))
    (rows.sorted.filter p) hsorted hperm

/-- Which ops of the map have their rows in the scan: the end of the range is past the row of
every HLC up to `high`, and the check of each HLC leaves out what lies beyond. -/
lemma row_scanned_iff (hC : C.Faithful) (h : Refines C rows m) {array : String}
    (harray : ValidName array) {low high : Hlc} {e : (String ×ₗ Hlc) × Op} (he : e ∈ m.entries)
    (hhigh : (ofLex e.1).2 ≤ high) :
    ((keyHead array).isPrefixOf (rowOf C e).1 && decide (keyOf C (array, low) ≤ (rowOf C e).1 ∧
        ∀ bound ∈ nextPrefix (keyOf C (array, high)), (rowOf C e).1 < bound)) = true ↔
      (ofLex e.1).1 = array ∧ low ≤ (ofLex e.1).2 := by
  rw [Bool.and_eq_true, decide_eq_true_iff, List.isPrefixOf_iff_prefix, rowOf,
    keyHead_isPrefix_keyOf_iff harray (h.valid e he)]
  generalize hplace : ofLex e.1 = place at hhigh
  obtain ⟨name, hlc⟩ := place
  constructor
  · rintro ⟨rfl, hlow, -⟩
    exact ⟨rfl, (keyOf_le_keyOf_iff hC).mp hlow⟩
  · rintro ⟨rfl, hlow⟩
    refine ⟨rfl, (keyOf_le_keyOf_iff hC).mpr hlow, fun bound hbound => ?_⟩
    exact ((keyOf_le_keyOf_iff hC).mpr hhigh).trans_lt (lt_nextPrefix hbound)

theorem scanRange_eq (hC : C.Faithful) (h : Refines C rows m) {array : String}
    (harray : ValidName array) (low high : Hlc) :
    scanRange C rows array low high =
      .ok ((m.entries.filter fun e => (ofLex e.1).1 = array ∧ low ≤ (ofLex e.1).2 ∧
        (ofLex e.1).2 ≤ high).map fun e => .ok e.2) := by
  rw [scanRange, makeKey_of_valid harray, makeKey_of_valid harray, makeArrayPrefix_of_valid harray]
  by_cases hempty : high < low
  · have hnone : m.entries.filter (fun e => (ofLex e.1).1 = array ∧ low ≤ (ofLex e.1).2 ∧
        (ofLex e.1).2 ≤ high) = [] := by
      rw [List.filter_eq_nil_iff]
      intro e _ hin
      obtain ⟨-, hlow, hhigh⟩ := of_decide_eq_true hin
      exact hempty.not_ge (hlow.trans hhigh)
    rw [hnone]
    simp only [bind, Except.bind, hempty, if_true]
    rfl
  · simp only [bind, Except.bind, hempty, if_false, pure, Except.pure]
    rw [scanned_eq_filter, h.filter_rows_eq hC array, List.filterMap_map, List.filterMap_filter,
      ← List.filterMap_eq_map, List.filterMap_filter]
    · congr 1
      apply List.filterMap_congr
      intro e he
      rw [Function.comp_apply, Function.comp_apply, h.splitKey_row hC he, h.decodeOp_row hC he,
        Option.bind_some]
      by_cases hhigh : (ofLex e.1).2 ≤ high
      · rw [if_congr (h.row_scanned_iff hC harray he hhigh) rfl rfl]
        by_cases hlow : low ≤ (ofLex e.1).2
        · simp [hlow, hhigh, hlow.not_gt, hhigh.not_gt]
        · simp [hlow]
      · simp [not_le.mp hhigh, hhigh]
    · intro e he hp
      have hhead := (Bool.and_eq_true _ _ ▸ hp).1
      exact ((keyHead_isPrefix_keyOf_iff harray (h.valid e he)).mp
        (List.isPrefixOf_iff_prefix.mp hhead)).symm

end Refines

lemma refines_empty : Refines C SortedMap.empty SortedMap.empty :=
  ⟨List.Perm.nil, fun _ he => (nomatch he), fun _ he => (nomatch he)⟩

lemma ops_sorted (m : OpMap Hlc Op) {array : String} {p : (String ×ₗ Hlc) × Op → Bool}
    (hp : ∀ e, p e → (ofLex e.1).1 = array) :
    (m.entries.filter p).Pairwise fun a b => (ofLex a.1).2 < (ofLex b.1).2 := by
  refine (m.sorted.filter p).imp_of_mem ?_
  intro a b ha hb hab
  exact hlc_lt_of_lt hab ((hp a (List.mem_filter.mp ha).2).trans (hp b (List.mem_filter.mp hb).2).symm)

/-- After any calls the scans read the map: of one array the ops in a closed interval in HLC order,
of all arrays those at or above a bound; `drop_below` takes out and counts those below its bound.
The empty name is refused. -/
theorem op_log_refines_map (hC : C.Faithful) (calls : List (Call Hlc Op)) :
    let rows := calls.foldl (step C) SortedMap.empty
    let m : OpMap Hlc Op := calls.foldl (OpMap.step C) SortedMap.empty
    (∀ array low high, ValidName array →
      let found := m.entries.filter fun e =>
        (ofLex e.1).1 = array ∧ low ≤ (ofLex e.1).2 ∧ (ofLex e.1).2 ≤ high
      scanRange C rows array low high = .ok (found.map fun e => .ok e.2) ∧
        found.Pairwise fun a b => (ofLex a.1).2 < (ofLex b.1).2) ∧
    (∀ low, (scanFrom C rows low).Perm
      ((m.entries.filter fun e => low ≤ (ofLex e.1).2).map fun e => .ok e.2)) ∧
    (∀ bound,
      (dropBelow C rows bound).1 = (m.entries.filter fun e => (ofLex e.1).2 < bound).length ∧
      Refines C (dropBelow C rows bound).2 (m.filter fun place _ => bound ≤ (ofLex place).2)) ∧
    (∀ op, C.array op = "" → append C rows op =
      .error (.segmentCorruption "op_log: array name must not be empty")) ∧
    ∀ low high, scanRange C rows "" low high =
      .error (.segmentCorruption "op_log: array name must not be empty") := by
  intro rows m
  have h : Refines C rows m := refines_empty.run_refines hC calls
  refine ⟨fun array low high harray => ⟨h.scanRange_eq hC harray low high, ?_⟩,
    h.scanFrom_perm hC, fun bound => ⟨h.dropBelow_count hC bound, h.dropBelow_refines hC bound⟩,
    fun op hop => ?_, fun low high => ?_⟩
  · exact ops_sorted m fun e he => (of_decide_eq_true he).1
  · rw [append, hop, makeKey, checkName_empty]
    rfl
  · rw [scanRange, makeKey, checkName_empty]
    rfl

/-- HLCs of one counted byte, and ops that hold nothing but their array and HLC. -/
def sampleCodec : OpCodec UInt8 (String × UInt8) Empty where
  toBytes hlc := List.replicate 17 0 ++ [hlc]
  fromBytes bytes := bytes.getLastD 0
  array := Prod.fst
  hlc := Prod.snd
  encodeOp op := .ok (op.2 :: Bytes.ofString op.1)
  decodeOp
    | [] => .error (.segmentCorruption "empty op")
    | hlc :: name => match Bytes.toString? name with
      | none => .error (.segmentCorruption "name is not UTF-8")
      | some array => .ok (array, hlc)

lemma sampleCodec_faithful : sampleCodec.Faithful where
  length_toBytes _ := rfl
  fromBytes_toBytes _ := rfl
  toBytes_strictMono a b hab := (Bytes.append_lt_append_left_iff _ _ _).mpr (List.Lex.rel hab)
  decodeOp_encodeOp {op bytes} h := by
    cases h
    simp [sampleCodec]

/-- Two arrays of which one's name starts the other's, and an HLC whose last byte is `0xFF`. -/
def sampleCalls : List (Call UInt8 (String × UInt8)) :=
  [.append ("a", 255), .append ("ab", 1), .append ("a", 3), .append ("ab", 7), .dropBelow 2]

theorem op_log_refines_map_nested :
    scanRange sampleCodec (sampleCalls.foldl (step sampleCodec) SortedMap.empty) "a" 3 255 =
      .ok [.ok ("a", 3), .ok ("a", 255)] ∧
    (dropBelow sampleCodec (sampleCalls.foldl (step sampleCodec) SortedMap.empty) 8).1 = 2 := by
  obtain ⟨hrange, -, hdrop, -⟩ := op_log_refines_map sampleCodec_faithful sampleCalls
  refine ⟨(hrange "a" 3 255 (by decide +kernel)).1.trans ?_, (hdrop 8).1.trans ?_⟩
  · rfl
  · rfl

/-- The empty name is within 255 bytes, and a scan of it is refused. -/
theorem empty_name_scan_refused :
    (Bytes.ofString "").length ≤ 255 ∧ sampleCodec.Faithful ∧
      scanRange sampleCodec (sampleCalls.foldl (step sampleCodec) SortedMap.empty) "" 0 255 =
        .error (.segmentCorruption "op_log: array name must not be empty") :=
  ⟨by decide +kernel, sampleCodec_faithful, rfl⟩

/-- What an append writes, if it succeeds. -/
def putOf (C : OpCodec Hlc Op Fault) (op : Op) : Option (SortedMap.Write Bytes Bytes) :=
  if ValidName (C.array op) then
    (C.encodeOp op).toOption.map (.put (keyOf C (C.array op, C.hlc op)))
  else none

lemma step_append (op : Op) : step C rows (.append op) = rows.writeAll (putOf C op).toList := by
  rw [step, append, putOf]
  by_cases hname : ValidName (C.array op)
  · rw [makeKey_of_valid hname, if_pos hname]
    cases C.encodeOp op <;> rfl
  · obtain ⟨e, he⟩ : ∃ e, (checkName (C.array op) : Except (ArrayError Fault) _) = .error e :=
      checkName_of_not_valid hname
    rw [if_neg hname, makeKey, he]
    rfl

lemma foldl_append (ops : List Op) :
    (ops.map .append).foldl (step C) rows = rows.writeAll (ops.filterMap (putOf C)) := by
  induction ops generalizing rows with
  | nil => rfl
  | cons op ops ih =>
    rw [List.map_cons, List.foldl_cons, step_append, ih, ← SortedMap.writeAll_append]
    cases hput : putOf C op <;> simp [hput]

/-- Replicas that start alike and get the same ops store the same bytes, whatever the order and
however often each op arrives. -/
theorem replicas_store_same_rows (hC : C.Faithful) {ops ops' : List Op}
    (hsame : ∀ op, op ∈ ops ↔ op ∈ ops')
    (hone : ∀ a ∈ ops, ∀ b ∈ ops, C.array a = C.array b → C.hlc a = C.hlc b → a = b)
    (rows : Rows) :
    (ops.map .append).foldl (step C) rows = (ops'.map .append).foldl (step C) rows := by
  rw [foldl_append, foldl_append]
  apply SortedMap.writeAll_of_same_writes
  · simp only [List.mem_filterMap, hsame, implies_true]
  · intro w hw u hu hkey
    obtain ⟨a, ha, hwa⟩ := List.mem_filterMap.mp hw
    obtain ⟨b, hb, hub⟩ := List.mem_filterMap.mp hu
    obtain ⟨hva, hwa⟩ := Option.ite_none_right_eq_some.mp hwa
    obtain ⟨hvb, hub⟩ := Option.ite_none_right_eq_some.mp hub
    obtain ⟨x, hx, rfl⟩ := Option.map_eq_some_iff.mp hwa
    obtain ⟨y, hy, rfl⟩ := Option.map_eq_some_iff.mp hub
    have hplace := Prod.mk.inj (keyOf_inj hC hva hvb hkey)
    obtain rfl := hone a ha b hb hplace.1 hplace.2
    rw [Option.some.inj (hx.symm.trans hy)]

theorem replicas_store_same_rows_repeated :
    ([("a", 2), ("b", 1)].map .append).foldl (step sampleCodec) SortedMap.empty =
      ([("b", 1), ("a", 2), ("b", 1)].map .append).foldl (step sampleCodec) SortedMap.empty :=
  replicas_store_same_rows sampleCodec_faithful (by simp) (by simp [sampleCodec]) _

end Refinement

end NodedbLite.OpLog
