import NodedbLite.StrictEngine

/-! Reads and writes of strict collections. Every write plans its tuples from the stored rows and
then commits them, with the index entries they imply, as one storage batch. A write that fails
returns the engine as it leaves it. -/
namespace NodedbLite.Strict

open Storage

variable {T : Type} (env : StrictEnv T)

def EntryWrite.op : EntryWrite → WriteOp
  | .put key => .put env.metadata key []
  | .delete key => .delete env.metadata key

/-- Commit row writes with the index entries they imply as one storage batch. -/
def commit (t : Tree) (collection : String) (ops : List WriteOp) : Except LiteError Tree :=
  (env.entries t collection ops).map
    (fun entries => batchWriteRows t (ops ++ entries.map (EntryWrite.op env)))

namespace StrictEngine

variable (e : StrictEngine T)

section Inserts

/-- The keys and tuples of rows to insert; `keys` are those of the rows before. -/
def planInserts (st : CollectionState T) (collection : String) :
    List (List Value) → List Bytes → Except LiteError (List (Bytes × Bytes))
  | [], _ => .ok []
  | values :: rows, keys => do
    let tuple ← (env.encode st.schema values).mapError strictErrToLite
    let key := st.storageKey collection values
    if key ∈ keys ∨ (getRows e.tree env.strict key).isSome then
      .error (.badRequest ("duplicate primary key in collection '" ++ collection ++ "'"))
    else do
      let rest ← planInserts st collection rows (key :: keys)
      .ok ((key, tuple) :: rest)

def putOp (row : Bytes × Bytes) : WriteOp := .put env.strict row.1 row.2

def recordBirths (t : Tree) (collection : String)
    (rows : List (List Value × (Bytes × Bytes))) : Tree :=
  rows.foldl (fun t row =>
    recordBirth env t collection row.2.1 row.2.2 (extractSystemFromValues row.1)) t

def insertRows (collection : String) (rows : List (List Value)) :
    Except LiteError (StrictEngine T) := do
  let st ← e.getState collection
  let planned ← e.planInserts env st collection rows []
  let t ← commit env e.tree collection (planned.map (putOp env))
  .ok { e with
    tree := if st.schema.bitemporal then recordBirths env t collection (rows.zip planned) else t }

def insert (collection : String) (values : List Value) : Except LiteError (StrictEngine T) :=
  e.insertRows env collection [values]

def encodeRow (st : CollectionState T) (collection : String) (values : List Value) :
    Except LiteError (Bytes × Bytes) := do
  let tuple ← (env.encode st.schema values).mapError strictErrToLite
  .ok (st.storageKey collection values, tuple)

/-- The rows replace those under the same keys. -/
def insertBatch (collection : String) (rows : List (List Value)) :
    Except LiteError (StrictEngine T) := do
  let st ← e.getState collection
  let planned ← rows.mapM (encodeRow env st collection)
  let t ← commit env e.tree collection (planned.map (putOp env))
  .ok { e with tree := t }

end Inserts

section Updates

/-- A row to rewrite: where and what it was, where and what it becomes. -/
structure Move where
  key : Bytes
  existing : Bytes
  newKey : Bytes
  newTuple : Bytes

/-- A changed primary key moves the row. -/
def Move.ops (m : Move) : List WriteOp :=
  (if m.newKey = m.key then [] else [.delete env.strict m.key])
    ++ [.put env.strict m.newKey m.newTuple]

/-- Set one column, if the schema has it and its type takes the value. -/
def assign (st : CollectionState T) (collection : String) (values : List Value)
    (update : String × Value) : Except LiteError (List Value) :=
  match st.schema.columnIndex update.1 with
  | none => .error (.badRequest
      ("unknown column '" ++ update.1 ++ "' in collection '" ++ collection ++ "'"))
  | some i =>
    if update.2 ≠ .null ∧
        ((st.schema.columns[i]?).any (fun c => !env.accepts c.columnType update.2)) = true then
      .error (.badRequest ("column '" ++ ((st.schema.columns[i]?).elim "" ColumnDef.name)
        ++ "': type mismatch"))
    else .ok (values.set i update.2)

/-- The rewritten row of a change; nothing if no row has the key. -/
def planUpdate (st : CollectionState T) (collection : String)
    (change : Value × SortedMap String Value) : Except LiteError (Option Move) :=
  let key := CollectionState.storageKeyFromPk collection change.1
  match getRows e.tree env.strict key with
  | none => .ok none
  | some existing => do
    let values ← decodeTuple env st existing
    let values' ← change.2.entries.foldlM (assign env st collection) values
    let newTuple ← (env.encode st.schema values').mapError strictErrToLite
    .ok (some ⟨key, existing, st.storageKey collection values', newTuple⟩)

def supersede (t : Tree) (collection : String) (now : Int) (moves : List Move) : Tree :=
  moves.foldl (fun t m =>
    recordHistorySupersession env t collection (keySuffix collection m.key) m.existing now) t

def bear (t : Tree) (collection : String) (now : Int) (moves : List Move) : Tree :=
  moves.foldl (fun t m => recordBirth env t collection m.newKey m.newTuple now) t

/-- Plan every change from the stored rows, close the old versions, commit and open the new ones.
`now` is the clock during the call. -/
def updateMany (collection : String) (changes : List (Value × SortedMap String Value))
    (now : Int) : StrictEngine T × Except LiteError Nat :=
  match (do
    let st ← e.getState collection
    let planned ← changes.mapM (e.planUpdate env st collection)
    pure (st, planned.filterMap id) : Except LiteError (CollectionState T × List Move)) with
  | .error err => (e, .error err)
  | .ok (st, moves) =>
    let closed := if st.schema.bitemporal then supersede env e.tree collection now moves else e.tree
    match commit env closed collection (moves.flatMap (Move.ops env)) with
    | .error err => ({ e with tree := closed }, .error err)
    | .ok t =>
      ({ e with tree := if st.schema.bitemporal then bear env t collection now moves else t },
        .ok moves.length)

def update (collection : String) (pk : Value) (updates : SortedMap String Value) (now : Int) :
    StrictEngine T × Except LiteError Bool :=
  let out := e.updateMany env collection [(pk, updates)] now
  (out.1, out.2.map (fun n => n = 1))

/-- Replace the tuple under `pk` by one of the given values. -/
def updateByValues (collection : String) (pk : Value) (newValues : List Value) :
    Except LiteError (StrictEngine T × Bool) := do
  let st ← e.getState collection
  let key := CollectionState.storageKeyFromPk collection pk
  if (getRows e.tree env.strict key).isNone then .ok (e, false)
  else do
    let newTuple ← (env.encode st.schema newValues).mapError strictErrToLite
    let t ← commit env e.tree collection [.put env.strict key newTuple]
    .ok ({ e with tree := t }, true)

end Updates

def delete (collection : String) (pk : Value) (now : Int) :
    StrictEngine T × Except LiteError Bool :=
  match e.getState collection with
  | .error err => (e, .error err)
  | .ok st =>
    let key := CollectionState.storageKeyFromPk collection pk
    match getRows e.tree env.strict key with
    | none => (e, .ok false)
    | some oldTuple =>
      let closed :=
        if st.schema.bitemporal then
          recordHistorySupersession env e.tree collection (keySuffix collection key) oldTuple now
        else e.tree
      match commit env closed collection [.delete env.strict key] with
      | .error err => ({ e with tree := closed }, .error err)
      | .ok t => ({ e with tree := t }, .ok true)

section Reads

def get (collection : String) (pk : Value) : Except LiteError (Option (List Value)) := do
  let st ← e.getState collection
  match getRows e.tree env.strict (CollectionState.storageKeyFromPk collection pk) with
  | some bytes => (decodeTuple env st bytes).map some
  | none => .ok none

def rowsPrefix (collection : String) : Bytes := Bytes.ofString collection ++ [colon]

end Reads

end StrictEngine

end NodedbLite.Strict
