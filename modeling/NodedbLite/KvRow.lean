import NodedbLite.Results
import NodedbLite.Binary64
import NodedbLite.KvScan

/-! Typed rows of the key-value engine. Row encoding, atomic computation and update
expressions come from the shared crates and are a parameter record here. -/
namespace NodedbLite.Kv

inductive Value
  | null
  | bool (b : Bool)
  | integer (i : Int64)
  | float (x : Binary64)
  | string (s : String)
  | bytes (b : Bytes)
  | other (typeName : String) (encoded : Bytes)
  deriving DecidableEq

abbrev Row := SortedMap String Value

abbrev QueryResult := NodedbLite.QueryResult Value

/-- What an operation answers and the writes it commits. -/
abbrev Planned := Except LiteError (QueryResult × List WriteOp)

/-- Commit the planned writes. A refused operation changes nothing. -/
def commitPlan (store : Store) (p : Planned) : Except LiteError QueryResult × Store :=
  match p with
  | .ok (r, ops) => (.ok r, store.writeAll ops)
  | .error e => (.error e, store)

inductive KvBodyShape
  | raw
  | map
  deriving DecidableEq, Repr

/-- A decoded MessagePack value: a row map, or something of another type. -/
inductive Decoded
  | object (columns : Row)
  | other (typeName : String)
  deriving DecidableEq

inductive KvBodyError
  | rowNotObject (kind : String)
  | rawMissingValue
  | rawExtraKeys (keys : String)
  | rawNotScalar (kind : String)
  | decode (detail : String)
  | encode (detail : String)
  deriving DecidableEq, Repr

inductive AtomicComputeError
  | typeMismatch (detail : String)
  | counter (fault : String)
  | encode (detail : String)
  deriving DecidableEq, Repr

/-- What the shared crates provide: body shapes, MessagePack, the atomic computations, update
expressions, and the texts of their errors. -/
structure Shared (Patch CounterShape : Type) where
  kvBodyShape : Bytes → KvBodyShape
  valueFromMsgpack : Bytes → Except String Decoded
  fieldFromMsgpack : Bytes → Except String Value
  rowToKvBody : Row → KvBodyShape → Except KvBodyError Bytes
  kvBodyToRow : Bytes → Except KvBodyError (Decoded × KvBodyShape)
  resolveUpdates : List (String × Patch) → Row → Row → Except LiteError (List (String × Value))
  incr : Option Bytes → Int64 → CounterShape → Except AtomicComputeError (Int64 × Bytes)
  incrFloat : Option Bytes → String → CounterShape → Except AtomicComputeError (Binary64 × Bytes)
  cas : Option Bytes → Bytes → Bytes → Except AtomicComputeError (Bool × Bytes)
  getset : Option Bytes → Bytes → Except AtomicComputeError Bytes
  typeName : Value → String
  errorText : KvBodyError → String
  floatText : Binary64 → String

variable {Patch CounterShape : Type} (W : Shared Patch CounterShape)

/-- What the row encoding documents: a row encoded as a map body reads back as the same row,
and no bytes at all are not a map. -/
structure RowsReadBack : Prop where
  readBack : ∀ row body, W.rowToKvBody row .map = .ok body →
    W.kvBodyShape body = .map ∧ W.valueFromMsgpack body = .ok (.object row)
  emptyRaw : W.kvBodyShape [] = .raw

def kvBodyError (e : KvBodyError) : LiteError :=
  match e with
  | .rowNotObject _ | .rawMissingValue | .rawExtraKeys _ | .rawNotScalar _ =>
    .badRequest (W.errorText e)
  | .decode _ | .encode _ => .serialization (W.errorText e)

def encodeKvBody (fields : Row) (shape : KvBodyShape) : Except LiteError Bytes :=
  (W.rowToKvBody fields shape).mapError (kvBodyError W)

def encodeKvMap (fields : Row) : Except LiteError Bytes := encodeKvBody W fields .map

def kvBodyColumns (body : Bytes) : Except LiteError (Row × KvBodyShape) :=
  match W.kvBodyToRow body with
  | .error e => .error (kvBodyError W e)
  | .ok (.object columns, shape) => .ok (columns, shape)
  | .ok (.other kind, _) => .error (kvBodyError W (.rowNotObject kind))

/-- The typed columns of a map body, `none` for a raw one. -/
def decodeKvMap (body : Bytes) : Except LiteError (Option Row) :=
  if W.kvBodyShape body = .raw then .ok none
  else match W.valueFromMsgpack body with
    | .ok (.object columns) => .ok (some columns)
    | .ok (.other kind) => .error (.serialization s!"KV body is a {kind}, not a row map")
    | .error e => .error (.serialization s!"KV body does not decode: {e}")

/-- The typed columns of `body`, refusing a raw body. -/
def typedColumns (collection : String) (body : Bytes) (what : String) : Except LiteError Row :=
  match decodeKvMap W body with
  | .error e => .error e
  | .ok (some row) => .ok row
  | .ok none => .error (.typeMismatch collection
      s!"{what} holds a bare value, not a hash; it requires typed columns")

/-- `field` as a float: `none` when absent, an error when not numeric. -/
def numericField (collection : String) (row : Row) (field : String) :
    Except LiteError (Option Binary64) :=
  match row.get field with
  | none => .ok none
  | some (.float f) => .ok (some f)
  | some (.integer i) => .ok (some (Binary64.ofInt i.toInt))
  | some value => .error (.typeMismatch collection
      s!"field '{field}' is {W.typeName value}, not numeric")

/-- A whole-number balance stays an integer, anything else is a float. -/
def numericValue (v : Binary64) : Value :=
  if v.isWhole && (Binary64.ofInt (-2 ^ 63)).le v && v.le (Binary64.ofInt (2 ^ 63 - 1)) then
    .integer v.toInt64
  else .float v

/-- The live body under a composite key with its deadline. A stored entry too short to hold
a deadline is an error with the given text. -/
def readLive (store : Store) (now : UInt64) (rkey : Bytes) (corrupt : String) :
    Except LiteError (Option (UInt64 × Bytes)) :=
  match store.get rkey with
  | none => .ok none
  | some raw =>
    match decodeValue raw with
    | none => .error (.storage corrupt)
    | some (deadline, body) =>
      if isExpired now deadline then .ok none else .ok (some (deadline, body))

/-- The number a value denotes exactly. -/
def Value.exact : Value → Option ℚ
  | .integer i => some i.toInt
  | .float (.finite q) => some q
  | _ => none

lemma decodeKvMap_encodeKvMap (hW : RowsReadBack W) {row : Row} {body : Bytes}
    (h : encodeKvMap W row = .ok body) : decodeKvMap W body = .ok (some row) := by
  unfold encodeKvMap encodeKvBody at h
  cases henc : W.rowToKvBody row .map with
  | error e => simp [henc, Except.mapError] at h
  | ok b =>
    simp only [henc, Except.mapError, Except.ok.injEq] at h
    subst h
    obtain ⟨hshape, hdec⟩ := hW.readBack row b henc
    simp [decodeKvMap, hshape, hdec]

lemma ofInt_minInt : Binary64.ofInt (-2 ^ 63) = .finite (-2 ^ 63) := by
  decide +kernel

lemma ofInt_maxInt : Binary64.ofInt (2 ^ 63 - 1) = .finite (2 ^ 63) := by
  decide +kernel

/-- Storing a balance keeps it, except that `2 ^ 63` passes the integer test and saturates. -/
lemma exact_numericValue (q : ℚ) :
    (numericValue (.finite q)).exact = some (if q = 2 ^ 63 then 2 ^ 63 - 1 else q) := by
  unfold numericValue
  rw [ofInt_minInt, ofInt_maxInt]
  simp only [Binary64.isWhole, Binary64.le, Bool.and_eq_true, decide_eq_true_eq]
  split_ifs with hint htop htop
  · subst htop
    decide +kernel
  · obtain ⟨⟨hden, hlo⟩, hhi⟩ := hint
    obtain ⟨i, rfl⟩ : ∃ i : ℤ, q = i := ⟨q.num, (Rat.coe_int_num_of_den_eq_one hden).symm⟩
    have hlo' : (-2 ^ 63 : ℤ) ≤ i := by exact_mod_cast hlo
    have hhi' : i < 2 ^ 63 := by
      have hle : i ≤ 2 ^ 63 := by exact_mod_cast hhi
      have hne : i ≠ 2 ^ 63 := fun h => htop (by rw [h]; norm_num)
      omega
    have hclamp : (Int64.ofIntClamp i).toInt = i :=
      Int64.toInt_ofIntClamp hlo' (by
        have hmax : Int64.maxValue.toInt = 2 ^ 63 - 1 := by decide
        rw [hmax]
        omega)
    simp [Value.exact, Binary64.toInt64, hclamp]
  · exfalso
    subst htop
    exact hint ⟨⟨by decide, by norm_num⟩, le_refl _⟩
  · rfl

end NodedbLite.Kv
