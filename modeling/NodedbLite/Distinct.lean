import NodedbLite.Aggregate
import NodedbLite.FirstOfEach
import NodedbLite.Digits

/-! DISTINCT on the rows of a scan. Rows are told apart by the text of their JSON form, in which the
types JSON does not have are null or strings. -/
namespace NodedbLite.Query

open FirstOfEach

def isFinite (bits : UInt64) : Bool := bits &&& 0x7FF0000000000000 ≠ 0x7FF0000000000000

/-- A JSON value. Its numbers are integers and finite floats. -/
inductive Json
  | null
  | bool (b : Bool)
  | int (n : Int64)
  | float (x : { bits : UInt64 // isFinite bits = true })
  | string (s : String)
  | array (items : List Json)
  | object (fields : List (String × Json))

/-- The JSON and MessagePack readers, the writer, dates as texts and short floats. -/
structure JsonApi (T : Type) where
  toText : Json → T
  fromStr : String → Option (List (String × Json))
  fromMsgpack : Bytes → Option (List (String × Value))
  dateTimeText : Int64 → String
  naiveDateTimeText : Int64 → String
  shortFloat : UInt32 → Json

section Rows

variable {T : Type} (A : JsonApi T)

def hexText (b : Bytes) : String :=
  String.ofList (b.flatMap (fun x =>
    (Digits.encode 16 2 x.toNat).map (fun digit => Char.ofNat digit.toNat)))

mutual

def valueToJson : Value → Json
  | .null => .null
  | .bool b => .bool b
  | .integer n => .int n
  | .float bits => if h : isFinite bits = true then .float ⟨bits, h⟩ else .null
  | .string s => .string s
  | .bytes b => .string (hexText b)
  | .array items => .array (valuesToJson items)
  | .object fields => .object (fieldsToJson fields)
  | .naiveDateTime micros => .string (A.naiveDateTimeText micros)
  | .dateTime micros => .string (A.dateTimeText micros)
  | .vector items => .array (items.map A.shortFloat)
  | _ => .null

def valuesToJson : List Value → List Json
  | [] => []
  | v :: vs => valueToJson v :: valuesToJson vs

def fieldsToJson : List (String × Value) → List (String × Json)
  | [] => []
  | (name, v) :: fields => (name, valueToJson v) :: fieldsToJson fields

end

/-- The fields of a document column, which stand for the column. -/
def inlinedFields (col : String) (val : Value) : Option (List (String × Json)) :=
  match val with
  | .string s => if col = "document" then A.fromStr s else none
  | .bytes b => if col = "data" then (A.fromMsgpack b).map (fieldsToJson A) else none
  | _ => none

def orInsert (map : SortedMap String Json) (field : String × Json) : SortedMap String Json :=
  if (map.get field.1).isSome then map else map.insert field.1 field.2

def rowToJson (columns : List String) (row : List Value) : SortedMap String Json :=
  (columns.zip row).foldl (fun map cell =>
    match inlinedFields A cell.1 cell.2 with
    | some fields => fields.foldl orInsert map
    | none => map.insert cell.1 (valueToJson A cell.2)) SortedMap.empty

/-- The cell of a named column. -/
def cellOf (columns : List String) (row : List Value) (name : String) : Value :=
  match columns.findIdx? (· = name) with
  | some i => row.getD i .null
  | none => .null

def projectRow (columns : List String) (row : List Value) (projection : List String) :
    SortedMap String Json :=
  SortedMap.ofList (projection.map (fun name => (name, valueToJson A (cellOf columns row name))))

/-- The document a row is known by. -/
def distinctDoc (columns projection : List String) (row : List Value) : SortedMap String Json :=
  if projection.isEmpty then rowToJson A columns row else projectRow A columns row projection

def distinctRows [DecidableEq T] (result : QueryResult) (projection : List String) : QueryResult :=
  { result with
    rows := retainUnseen (fun row => A.toText (.object (distinctDoc A result.columns projection row).entries))
      [] result.rows }

end Rows

section Meaning

/-- What DISTINCT compares: the row, or its projected cells. -/
def distinctCells (columns projection : List String) (row : List Value) : List Value :=
  if projection.isEmpty then row else projection.map (cellOf columns row)

open Classical in
/-- The first row of each class of equal rows. -/
noncomputable def firstRows (columns projection : List String) (rows : List (List Value)) :
    List (List Value) :=
  firstOfEach (fun row => (distinctCells columns projection row).map Value.meaning) rows

/-- A row has the JSON form of an earlier row exactly if it is equal to an earlier row. -/
def FormsTell {T : Type} (A : JsonApi T) (columns projection : List String)
    (rows : List (List Value)) : Prop :=
  ∀ before row after, rows = before ++ row :: after →
    ((∃ a ∈ before, distinctDoc A columns projection a = distinctDoc A columns projection row) ↔
      ∃ a ∈ before, SameValues (distinctCells columns projection a)
        (distinctCells columns projection row))

mutual

/-- A value JSON has a form of its own for. -/
def Value.Plain : Value → Prop
  | .null | .bool _ | .integer _ | .string _ => True
  | .float bits => isFinite bits = true
  | .array items => ValuesPlain items
  | .object fields => FieldsPlain fields
  | _ => False

def ValuesPlain : List Value → Prop
  | [] => True
  | v :: vs => v.Plain ∧ ValuesPlain vs

def FieldsPlain : List (String × Value) → Prop
  | [] => True
  | (_, v) :: fields => v.Plain ∧ FieldsPlain fields

end

end Meaning

section Exact

variable {T : Type} {A : JsonApi T}

lemma distinctDoc_congr {columns projection : List String} {a b : List Value}
    (h : distinctCells columns projection a = distinctCells columns projection b) :
    distinctDoc A columns projection a = distinctDoc A columns projection b := by
  unfold distinctCells at h
  unfold distinctDoc
  split at h
  · rw [h]
  · rename_i hne
    rw [if_neg hne, if_neg hne, projectRow, projectRow]
    congr 1
    apply List.map_congr_left
    intro name hname
    rw [List.map_inj_left.mp h name hname]

lemma distinctRows_iff [DecidableEq T] (hinj : Function.Injective A.toText) (result : QueryResult)
    (projection : List String) :
    (distinctRows A result projection).rows = firstRows result.columns projection result.rows ↔
      FormsTell A result.columns projection result.rows := by
  classical
  have htext : ∀ a b : List Value,
      A.toText (.object (distinctDoc A result.columns projection a).entries)
        = A.toText (.object (distinctDoc A result.columns projection b).entries) ↔
      distinctDoc A result.columns projection a = distinctDoc A result.columns projection b := by
    intro a b
    constructor
    · intro h
      exact SortedMap.ext (fun k => congrArg (List.lookup k) (Json.object.inj (hinj h)))
    · intro h
      rw [h]
  have hall : ∀ l : List (List Value), l.filter (fun row => decide (A.toText (.object (distinctDoc A
      result.columns projection row).entries) ∉ ([] : List T))) = l := by
    intro l
    simp
  unfold distinctRows
  rw [retainUnseen_eq, hall, firstRows, firstOfEach_eq_iff]
  simp only [htext]
  rfl

mutual

/-- The plain value of a JSON form. -/
def ofJson : Json → Value
  | .null => .null
  | .bool b => .bool b
  | .int n => .integer n
  | .float x => .float x.1
  | .string s => .string s
  | .array items => .array (valuesOfJson items)
  | .object fields => .object (fieldsOfJson fields)

def valuesOfJson : List Json → List Value
  | [] => []
  | j :: js => ofJson j :: valuesOfJson js

def fieldsOfJson : List (String × Json) → List (String × Value)
  | [] => []
  | (name, j) :: fields => (name, ofJson j) :: fieldsOfJson fields

end

mutual

lemma ofJson_valueToJson : ∀ {v : Value}, v.Plain → ofJson (valueToJson A v) = v
  | .null, _ | .bool _, _ | .integer _, _ | .string _, _ => rfl
  | .float bits, h => by
    have hbits : isFinite bits = true := h
    simp [valueToJson, hbits, ofJson]
  | .array items, h => by rw [valueToJson, ofJson, valuesOfJson_valuesToJson h]
  | .object fields, h => by rw [valueToJson, ofJson, fieldsOfJson_fieldsToJson h]

lemma valuesOfJson_valuesToJson : ∀ {vs : List Value}, ValuesPlain vs →
    valuesOfJson (valuesToJson A vs) = vs
  | [], _ => rfl
  | v :: vs, h => by
    rw [valuesToJson, valuesOfJson, ofJson_valueToJson h.1, valuesOfJson_valuesToJson h.2]

lemma fieldsOfJson_fieldsToJson : ∀ {fields : List (String × Value)}, FieldsPlain fields →
    fieldsOfJson (fieldsToJson A fields) = fields
  | [], _ => rfl
  | (name, v) :: fields, h => by
    rw [fieldsToJson, fieldsOfJson, ofJson_valueToJson h.1, fieldsOfJson_fieldsToJson h.2]

end

/-- The JSON form tells plain values apart. -/
theorem valueToJson_inj {v w : Value} (hv : v.Plain) (hw : w.Plain)
    (h : valueToJson A v = valueToJson A w) : v = w := by
  rw [← ofJson_valueToJson (A := A) hv, h, ofJson_valueToJson hw]

/-- Without a document column the JSON form of a plain row has its cells under their columns. -/
lemma rowToJson_plain {columns : List String} (hcolumns : "document" ∉ columns) {row : List Value}
    (hrow : ∀ v ∈ row, v.Plain) :
    rowToJson A columns row
      = SortedMap.ofList ((columns.zip row).map (fun cell => (cell.1, valueToJson A cell.2))) := by
  unfold rowToJson SortedMap.ofList
  rw [List.foldl_map]
  apply List.foldl_ext
  intro map cell hcell
  have hnone : inlinedFields A cell.1 cell.2 = none := by
    obtain ⟨hcol, hval⟩ := List.of_mem_zip (a := cell.1) (b := cell.2) hcell
    have hplain := hrow _ hval
    cases hv : cell.2 with
    | string s => exact if_neg (fun heq : cell.1 = "document" => hcolumns (heq ▸ hcol))
    | bytes b =>
      rw [hv] at hplain
      exact hplain.elim
    | _ => rfl
  rw [hnone]

lemma rowToJson_inj {columns : List String} (hnodup : columns.Nodup) (hcolumns : "document" ∉ columns)
    {a b : List Value} (ha : ∀ v ∈ a, v.Plain) (hb : ∀ v ∈ b, v.Plain)
    (hlenA : a.length = columns.length) (hlenB : b.length = columns.length)
    (h : rowToJson A columns a = rowToJson A columns b) : a = b := by
  have hget : ∀ {row : List Value}, (∀ v ∈ row, v.Plain) → row.length = columns.length →
      ∀ {i : Nat} {c : String} {v : Value}, columns[i]? = some c → row[i]? = some v →
        (rowToJson A columns row).get c = some (valueToJson A v) := by
    intro row hplain hlen i c v hc hv
    rw [rowToJson_plain hcolumns hplain]
    apply SortedMap.get_ofList_of_mem
    · rw [List.map_map]
      have hfst : (columns.zip row).map (Prod.fst ∘ fun cell => (cell.1, valueToJson A cell.2)) = columns := by
        exact List.map_fst_zip hlen.ge
      rwa [hfst]
    · exact List.mem_map.mpr ⟨(c, v), List.mem_of_getElem? (by rw [List.getElem?_zip_eq_some]; exact ⟨hc, hv⟩), rfl⟩
  apply List.ext_getElem (hlenA.trans hlenB.symm)
  intro i hi hi'
  have hc : columns[i]? = some columns[i] := List.getElem?_eq_getElem (hlenA ▸ hi)
  have hcellA := hget ha hlenA hc (List.getElem?_eq_getElem hi)
  have hcellB := hget hb hlenB hc (List.getElem?_eq_getElem hi')
  rw [h, hcellB] at hcellA
  exact (valueToJson_inj (hb _ (List.getElem_mem hi')) (ha _ (List.getElem_mem hi))
    (Option.some.inj hcellA)).symm

lemma distinctCells_of_doc {columns projection : List String}
    (hcolumns : projection = [] → columns.Nodup ∧ "document" ∉ columns) {a b : List Value}
    (ha : a.length = columns.length ∧ ∀ v ∈ a, v.Plain)
    (hb : b.length = columns.length ∧ ∀ v ∈ b, v.Plain)
    (h : distinctDoc A columns projection a = distinctDoc A columns projection b) :
    distinctCells columns projection a = distinctCells columns projection b := by
  have hcell : ∀ {row : List Value}, (∀ v ∈ row, v.Plain) → ∀ name,
      (cellOf columns row name).Plain := by
    intro row hrow name
    unfold cellOf
    split
    · rw [List.getD_eq_getElem?_getD]
      rename_i i _
      cases hget : row[i]? with
      | none => trivial
      | some v => exact hrow v (List.mem_of_getElem? hget)
    · trivial
  unfold distinctDoc at h
  unfold distinctCells
  split at h
  · rename_i hnil
    obtain ⟨hnodup, hdocument⟩ := hcolumns (List.isEmpty_iff.mp hnil)
    rw [if_pos hnil, if_pos hnil]
    exact rowToJson_inj hnodup hdocument ha.2 hb.2 ha.1 hb.1 h
  · rename_i hne
    rw [if_neg hne, if_neg hne]
    apply List.map_congr_left
    intro name hname
    have hget := congrArg (SortedMap.get · name) h
    simp only [projectRow] at hget
    rw [SortedMap.get_ofList_map_of_mem (fun n => valueToJson A (cellOf columns a n)) hname,
      SortedMap.get_ofList_map_of_mem (fun n => valueToJson A (cellOf columns b n)) hname] at hget
    exact valueToJson_inj (hcell ha.2 name) (hcell hb.2 name) (Option.some.inj hget)

/-- DISTINCT keeps the first row of each class of equal rows exactly if a row has the JSON form of an
earlier one exactly where it is equal to an earlier one. Rows of plain values in which equal numbers
are written alike are of this kind, for every projection; without one the column names must differ
and none be a document. -/
theorem distinct_exact_iff [DecidableEq T] (hinj : Function.Injective A.toText) (result : QueryResult)
    (projection : List String) :
    ((distinctRows A result projection).rows = firstRows result.columns projection result.rows ↔
      FormsTell A result.columns projection result.rows) ∧
    ((projection = [] → result.columns.Nodup ∧ "document" ∉ result.columns) →
      (∀ row ∈ result.rows, row.length = result.columns.length ∧ ∀ v ∈ row, v.Plain) →
      (∀ a ∈ result.rows, ∀ b ∈ result.rows, SameValues (distinctCells result.columns projection a)
          (distinctCells result.columns projection b) →
        distinctCells result.columns projection a = distinctCells result.columns projection b) →
      (distinctRows A result projection).rows = firstRows result.columns projection result.rows) := by
  refine ⟨distinctRows_iff hinj result projection, fun hcolumns hrows halike => ?_⟩
  refine (distinctRows_iff hinj result projection).mpr fun before row after hsplit => ?_
  have hmem : ∀ a ∈ before ++ row :: after, a ∈ result.rows := fun a ha => hsplit ▸ ha
  have hrow := hmem row (by simp)
  refine exists_congr fun a => and_congr_right fun ha => ?_
  have ha := hmem a (List.mem_append_left _ ha)
  constructor
  · intro h
    rw [SameValues, distinctCells_of_doc hcolumns (hrows a ha) (hrows row hrow) h]
  · exact fun h => distinctDoc_congr (halike a ha row hrow h)

end Exact

section Runs

noncomputable instance Json.decidableEq : DecidableEq Json := Classical.decEq Json

/-- Documents that are their own texts. -/
def docApi : JsonApi Json where
  toText := id
  fromStr _ := none
  fromMsgpack _ := none
  dateTimeText _ := ""
  naiveDateTimeText _ := ""
  shortFloat _ := .null

theorem distinct_plain_rows :
    (distinctRows docApi ⟨["n"], [[.integer 1], [.string "1"], [.integer 1]], 0, none⟩ ["n"]).rows
      = firstRows ["n"] ["n"] [[.integer 1], [.string "1"], [.integer 1]] := by
  refine (distinct_exact_iff Function.injective_id _ ["n"]).2 (by simp) ?_ ?_
  · intro row hrow
    simp only [List.mem_cons, List.not_mem_nil, or_false] at hrow
    rcases hrow with rfl | rfl | rfl <;> simp [Value.Plain]
  · intro a ha b hb hsame
    simp only [List.mem_cons, List.not_mem_nil, or_false] at ha hb
    rcases ha with rfl | rfl | rfl <;> rcases hb with rfl | rfl | rfl <;>
      first | rfl | simp [SameValues, distinctCells, cellOf, Value.meaning] at hsame

/-- Of two different UUIDs one is dropped. -/
theorem distinct_merges_uuids :
    (distinctRows docApi ⟨["n"], [[.uuid "a"], [.uuid "b"]], 0, none⟩ []).rows
      ≠ firstRows ["n"] [] [[.uuid "a"], [.uuid "b"]] := by
  intro h
  obtain ⟨row, hrow, hsame⟩ := ((distinctRows_iff Function.injective_id _ []).mp h [[.uuid "a"]]
    [.uuid "b"] [] rfl).mp ⟨_, List.mem_cons_self, rfl⟩
  obtain rfl := List.mem_singleton.mp hrow
  simp [SameValues, distinctCells, Value.meaning] at hsame

end Runs

end NodedbLite.Query
