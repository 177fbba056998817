import NodedbLite.StrictCrud
import NodedbLite.ExceptFold

/-! What is assumed of the tuple format, and a format that meets it: the schema version, and for each
value a tag, the length of its bytes and the bytes. -/
namespace NodedbLite.Strict

open Storage

/-- The types of values, apart from null. -/
inductive Kind
  | integer
  | string
  | uuid
  | decimal
  | other
  deriving DecidableEq, Inhabited

def Value.kind : Value → Option Kind
  | .null => none
  | .integer _ => some .integer
  | .string _ => some .string
  | .uuid _ => some .uuid
  | .decimal _ => some .decimal
  | .other _ => some .other

/-- A value a column takes: one of its type, or null where the column allows it. -/
def Fits {T : Type} (kind : T → Kind) (c : ColumnDef T) (v : Value) : Prop :=
  v.kind = some (kind c.columnType) ∨ v = .null ∧ c.nullable = true

instance {T : Type} (kind : T → Kind) (c : ColumnDef T) : DecidablePred (Fits kind c) :=
  fun _ => inferInstanceAs (Decidable (_ ∨ _))

/-- What is asked of the tuple format for a schema: a tuple names the version of the schema, reads
back with it, the values of the key columns as they were written, and those are of the columns' own
types. -/
structure TupleLaws {T : Type} (env : StrictEnv T) (kind : T → Kind) (schema : StrictSchema T) :
    Prop where
  extractAll_encode : ∀ {values tuple}, env.encode schema values = .ok tuple →
    ∃ read, env.extractAll schema tuple = .ok read ∧
      ∀ i ∈ schema.pkIndices, read.getD i .null = values.getD i .null
  schemaVersion_encode : ∀ {values tuple}, env.encode schema values = .ok tuple →
    env.schemaVersion tuple = .ok schema.version
  fits_encode : ∀ {values tuple}, env.encode schema values = .ok tuple →
    ∀ i ∈ schema.pkIndices, ∀ column, schema.columns[i]? = some column →
      Fits kind column (values.getD i .null)

section Words

def Value.tag : Value → UInt8
  | .null => 0
  | .integer _ => 1
  | .string _ => 2
  | .uuid _ => 3
  | .decimal _ => 4
  | .other _ => 5

def Value.payload : Value → Bytes
  | .null => []
  | .integer v => Bytes.ofNatBE 8 v.toUInt64.toNat
  | .string s => Bytes.ofString s
  | .uuid s => Bytes.ofString s
  | .decimal d => Bytes.ofNatLE 16 d
  | .other debug => Bytes.ofString debug

def Value.ofPayload (tag : UInt8) (payload : Bytes) : Option Value :=
  if tag = 0 then some .null
  else if tag = 1 then some (.integer (UInt64.ofNat (Bytes.toNatBE payload)).toInt64)
  else if tag = 2 then (Bytes.toString? payload).map .string
  else if tag = 3 then (Bytes.toString? payload).map .uuid
  else if tag = 4 then
    if h : Bytes.toNatLE payload < 256 ^ 16 then some (.decimal ⟨Bytes.toNatLE payload, h⟩) else none
  else (Bytes.toString? payload).map .other

lemma Value.ofPayload_payload (v : Value) : Value.ofPayload v.tag v.payload = some v := by
  cases v with
  | null => rfl
  | integer v =>
    have hlt := v.toUInt64.toNat_lt
    simp only [ofPayload, tag, payload, Bytes.toNatBE_ofNatBE]
    rw [Nat.mod_eq_of_lt (by norm_num; omega)]
    simp
  | string s => simp [ofPayload, tag, payload]
  | uuid s => simp [ofPayload, tag, payload]
  | decimal d =>
    have hmod : (d : Nat) % 256 ^ 16 = d := Nat.mod_eq_of_lt d.isLt
    simp only [ofPayload, tag, payload, Bytes.toNatLE_ofNatLE, hmod, dif_pos d.isLt]
    rfl
  | other debug => simp [ofPayload, tag, payload]

/-- A value: its tag, the length of its bytes and the bytes. -/
def Value.word (v : Value) : Bytes := v.tag :: Bytes.ofNatBE 8 v.payload.length ++ v.payload

def readWord : Bytes → Option (Value × Bytes)
  | [] => none
  | tag :: rest =>
    let n := Bytes.toNatBE (rest.take 8)
    (Value.ofPayload tag ((rest.drop 8).take n)).map (fun v => (v, (rest.drop 8).drop n))

lemma readWord_word {v : Value} (hlen : v.payload.length < 256 ^ 8) (rest : Bytes) :
    readWord (v.word ++ rest) = some (v, rest) := by
  have htake : (Bytes.ofNatBE 8 v.payload.length ++ (v.payload ++ rest)).take 8
      = Bytes.ofNatBE 8 v.payload.length := by
    rw [List.take_left' (Bytes.length_ofNatBE 8 _)]
  have hdrop : (Bytes.ofNatBE 8 v.payload.length ++ (v.payload ++ rest)).drop 8
      = v.payload ++ rest := by
    rw [List.drop_left' (Bytes.length_ofNatBE 8 _)]
  rw [Value.word, List.cons_append, List.cons_append, List.append_assoc, readWord]
  simp only [htake, hdrop, Bytes.toNatBE_ofNatBE, Nat.mod_eq_of_lt hlen, List.take_left,
    List.drop_left, Value.ofPayload_payload]
  rfl

/-- Exactly `n` words. -/
def readWords : Nat → Bytes → Option (List Value)
  | 0, bs => if bs = [] then some [] else none
  | n + 1, bs => (readWord bs).bind (fun out => (readWords n out.2).map (out.1 :: ·))

lemma readWords_words {values : List Value} (hlen : ∀ v ∈ values, v.payload.length < 256 ^ 8) :
    readWords values.length (values.flatMap Value.word) = some values := by
  induction values with
  | nil => rfl
  | cons v values ih =>
    rw [List.flatMap_cons, List.length_cons, readWords, readWord_word (hlen v List.mem_cons_self)]
    simp [ih (fun w hw => hlen w (List.mem_cons_of_mem _ hw))]

def wordsEncode (schema : StrictSchema Kind) (values : List Value) : Except String Bytes :=
  if schema.version < 256 ^ 4 ∧ (∀ v ∈ values, v.payload.length < 256 ^ 8) ∧
      List.Forall₂ (Fits id) schema.columns values then
    .ok (Bytes.ofNatBE 4 schema.version ++ values.flatMap Value.word)
  else .error "row does not fit the schema"

def wordsExtractAll (schema : StrictSchema Kind) (tuple : Bytes) : Except String (List Value) :=
  match readWords schema.columns.length (tuple.drop 4) with
  | some values => .ok values
  | none => .error "tuple does not fit the schema"

def wordsSchemaVersion (tuple : Bytes) : Except String Nat := .ok (Bytes.toNatBE (tuple.take 4))

/-- An engine with this format and no secondary index. -/
def wordsEnv : StrictEnv Kind where
  strict := ⟨10, by decide⟩
  strictHistory := ⟨11, by decide⟩
  metadata := ⟨0, by decide⟩
  strict_ne := by decide
  metadata_ne := by decide
  metadata_ne_history := by decide
  accepts := fun kind v => v.kind = some kind
  encode := wordsEncode
  extractAll := wordsExtractAll
  schemaVersion := wordsSchemaVersion
  entries := fun _ _ _ => .ok []

lemma wordsEncode_eq_ok {schema : StrictSchema Kind} {values : List Value} {tuple : Bytes}
    (h : wordsEncode schema values = .ok tuple) :
    schema.version < 256 ^ 4 ∧ (∀ v ∈ values, v.payload.length < 256 ^ 8) ∧
      List.Forall₂ (Fits id) schema.columns values ∧
      tuple = Bytes.ofNatBE 4 schema.version ++ values.flatMap Value.word := by
  unfold wordsEncode at h
  split at h
  next hok => exact ⟨hok.1, hok.2.1, hok.2.2, (Except.ok.inj h).symm⟩
  next => cases h

theorem wordsEnv_laws (schema : StrictSchema Kind) : TupleLaws wordsEnv id schema where
  extractAll_encode {values tuple} h := by
    obtain ⟨_, hlen, hfits, rfl⟩ := wordsEncode_eq_ok h
    refine ⟨values, ?_, fun _ _ => rfl⟩
    change wordsExtractAll schema _ = _
    unfold wordsExtractAll
    rw [List.drop_left' (Bytes.length_ofNatBE 4 _), hfits.length_eq, readWords_words hlen]
  schemaVersion_encode {values tuple} h := by
    obtain ⟨hversion, _, _, rfl⟩ := wordsEncode_eq_ok h
    change wordsSchemaVersion _ = _
    unfold wordsSchemaVersion
    rw [List.take_left' (Bytes.length_ofNatBE 4 _), Bytes.toNatBE_ofNatBE,
      Nat.mod_eq_of_lt hversion]
  fits_encode h i _ column hcolumn := by
    have hfits := (wordsEncode_eq_ok h).2.2.1
    obtain ⟨hi, rfl⟩ := List.getElem?_eq_some_iff.mp hcolumn
    have hi' := hfits.length_eq ▸ hi
    rw [List.getD_eq_getElem _ _ hi']
    exact (List.forall₂_iff_get.mp hfits).2 i hi hi'

end Words

end NodedbLite.Strict
