import NodedbLite.StrictWrites
import NodedbLite.GuardedRun

/-! Primary keys of strict rows. Over any sequence of row writes every stored row lies under the key
of its own primary key, and a key value leads back to its row, as long as the schema has one key
column and no replacement of a whole row changes its key. -/
namespace NodedbLite.Strict

open Storage

variable {T : Type} {env : StrictEnv T} {kind : T → Kind} {c : String}

section Injective

lemma encodePkComponent_inj {v w : Value} {k : Kind} (hv : v.kind = some k) (hw : w.kind = some k)
    (h : encodePkComponent v = encodePkComponent w) : v = w := by
  cases v with
  | null => cases hv
  | integer a =>
    obtain rfl := Option.some.inj hv
    cases w with
    | integer b =>
      have hmod : ∀ x : UInt64, x.toNat % 256 ^ 8 = x.toNat := fun x =>
        Nat.mod_eq_of_lt (lt_of_lt_of_eq x.toNat_lt (by norm_num))
      have hnat := congrArg Bytes.toNatBE h
      simp only [encodePkComponent, Bytes.toNatBE_ofNatBE, hmod] at hnat
      have hxor := UInt64.toNat_inj.mp hnat
      rw [UInt64.xor_left_inj] at hxor
      cases a
      cases b
      exact congrArg (fun u => Value.integer ⟨u⟩) hxor
    | _ => cases hw
  | string a =>
    obtain rfl := Option.some.inj hv
    cases w with
    | string b => rw [Bytes.ofString_injective h]
    | _ => cases hw
  | uuid a =>
    obtain rfl := Option.some.inj hv
    cases w with
    | uuid b => rw [Bytes.ofString_injective h]
    | _ => cases hw
  | decimal a =>
    obtain rfl := Option.some.inj hv
    cases w with
    | decimal b =>
      have hnat := congrArg Bytes.toNatLE h
      simp only [encodePkComponent, Bytes.toNatLE_ofNatLE, Nat.mod_eq_of_lt a.isLt,
        Nat.mod_eq_of_lt b.isLt] at hnat
      rw [Fin.ext hnat]
    | _ => cases hw
  | other a =>
    obtain rfl := Option.some.inj hv
    cases w with
    | other b => rw [Bytes.ofString_injective h]
    | _ => cases hw

end Injective

section Runs

/-- The writes of rows of one collection. -/
inductive RowCall
  | insertRows (rows : List (List Value))
  | insertBatch (rows : List (List Value))
  | updateMany (changes : List (Value × SortedMap String Value)) (now : Int)
  | updateByValues (pk : Value) (values : List Value)
  | delete (pk : Value) (now : Int)

/-- The engine after a call, whether it succeeds or fails. -/
def StrictEngine.rowStep (env : StrictEnv T) (c : String) (e : StrictEngine T) :
    RowCall → StrictEngine T
  | .insertRows rows => (e.insertRows env c rows).toOption.getD e
  | .insertBatch rows => (e.insertBatch env c rows).toOption.getD e
  | .updateMany changes now => (e.updateMany env c changes now).1
  | .updateByValues pk values => ((e.updateByValues env c pk values).toOption.map Prod.fst).getD e
  | .delete pk now => (e.delete env c pk now).1

/-- The values of the key columns. -/
def CollectionState.pkValues (st : CollectionState T) (values : List Value) : List Value :=
  st.schema.pkIndices.map (fun i => values.getD i .null)

/-- Stored rows lie under the keys of their primary keys, which find them, and different primary
keys have different keys. -/
structure KeysFaithful (env : StrictEnv T) (c : String) (st : CollectionState T)
    (e : StrictEngine T) : Prop where
  row : ∀ {key tuple}, StrictEngine.rowsPrefix c <+: key → getRows e.tree env.strict key = some tuple →
    ∃ values pk, decodeTuple env st tuple = .ok values ∧ st.pkValues values = [pk] ∧
      key = st.storageKey c values ∧ e.get env c pk = .ok (some values)
  distinct : ∀ {values values' tuple tuple'}, env.encode st.schema values = .ok tuple →
    env.encode st.schema values' = .ok tuple' → st.storageKey c values = st.storageKey c values' →
    st.pkValues values = st.pkValues values'

/-- A replacement of a whole row keeps the key of the row. -/
def KeepsKey (c : String) (e : StrictEngine T) : RowCall → Prop
  | .updateByValues pk values => ∀ st, e.collections.get c = some st →
      st.storageKey c values = CollectionState.storageKeyFromPk c pk
  | _ => True

end Runs

section Keyed

/-- A put of a row under its own key, or a delete. -/
inductive ProperOp (env : StrictEnv T) (st : CollectionState T) (c : String) : WriteOp → Prop
  | put {values tuple} (h : env.encode st.schema values = .ok tuple) :
      ProperOp env st c (.put env.strict (st.storageKey c values) tuple)
  | delete (key : Bytes) : ProperOp env st c (.delete env.strict key)

/-- The rows of the collection are tuples under their own keys. -/
def RowsKeyed (env : StrictEnv T) (st : CollectionState T) (c : String) (t : Tree) : Prop :=
  ∀ key tuple, StrictEngine.rowsPrefix c <+: key → getRows t env.strict key = some tuple →
    ∃ values, env.encode st.schema values = .ok tuple ∧ key = st.storageKey c values

variable {st : CollectionState T} {t t' : Tree}

lemma RowsKeyed.congr (h : RowsKeyed env st c t)
    (hrows : ∀ key, getRows t' env.strict key = getRows t env.strict key) :
    RowsKeyed env st c t' := by
  intro key tuple hkey hget
  exact h key tuple hkey (by rw [← hrows, hget])

lemma RowsKeyed.commit (h : RowsKeyed env st c t) {ops : List WriteOp}
    (hops : ∀ op ∈ ops, ProperOp env st c op) (hcommit : commit env t c ops = .ok t') :
    RowsKeyed env st c t' := by
  intro key tuple hkey hget
  rw [getRows_commit hcommit env.metadata_ne.symm] at hget
  cases hlast : SortedMap.lastWrite (ops.map WriteOp.composite) (prefixKey env.strict key) with
  | none =>
    rw [hlast] at hget
    exact h key tuple hkey hget
  | some written =>
    rw [hlast] at hget
    obtain ⟨w, hw, hwkey, hvalue⟩ := SortedMap.exists_of_lastWrite_eq_some hlast
    obtain ⟨op, hop, rfl⟩ := List.mem_map.mp hw
    have hwritten : written = some tuple := hget
    cases hops op hop with
    | put hencode =>
      obtain ⟨-, rfl⟩ := prefixKey_inj.mp hwkey
      rw [hwritten] at hvalue
      obtain rfl := Option.some.inj hvalue
      exact ⟨_, hencode, rfl⟩
    | delete key' =>
      rw [hwritten] at hvalue
      cases hvalue

/-- A row ready to be put: a tuple of the schema under its own key. -/
def Planned (env : StrictEnv T) (st : CollectionState T) (c : String) (row : Bytes × Bytes) : Prop :=
  ∃ values, env.encode st.schema values = .ok row.2 ∧ row.1 = st.storageKey c values

lemma Planned.properOp {row : Bytes × Bytes} (h : Planned env st c row) :
    ProperOp env st c (StrictEngine.putOp env row) := by
  obtain ⟨values, hencode, hkey⟩ := h
  unfold StrictEngine.putOp
  rw [hkey]
  exact .put hencode

variable {e : StrictEngine T}

lemma planned_of_planInserts {rows : List (List Value)} {keys : List Bytes}
    {planned : List (Bytes × Bytes)} (h : e.planInserts env st c rows keys = .ok planned) :
    ∀ row ∈ planned, Planned env st c row := by
  induction rows generalizing keys planned with
  | nil =>
    obtain rfl := Except.ok.inj h
    exact fun row hrow => absurd hrow List.not_mem_nil
  | cons values rows ih =>
    unfold StrictEngine.planInserts at h
    obtain ⟨tuple, htuple, h⟩ := ExceptFold.bind_eq_ok.mp h
    dsimp only at h
    split at h
    · cases h
    · obtain ⟨rest, hrest, hout⟩ := ExceptFold.bind_eq_ok.mp h
      obtain rfl := Except.ok.inj hout
      intro row hrow
      rcases List.mem_cons.mp hrow with rfl | hrow
      · exact ⟨values, ExceptFold.mapError_ok htuple, rfl⟩
      · exact ih hrest row hrow

lemma planned_of_mapM {rows : List (List Value)} {planned : List (Bytes × Bytes)}
    (h : rows.mapM (StrictEngine.encodeRow env st c) = .ok planned) :
    ∀ row ∈ planned, Planned env st c row := by
  intro row hrow
  obtain ⟨values, -, hencode⟩ := ExceptFold.exists_source_of_mapM_ok h hrow
  obtain ⟨tuple, htuple, hout⟩ := ExceptFold.bind_eq_ok.mp hencode
  obtain rfl := Except.ok.inj hout
  exact ⟨values, ExceptFold.mapError_ok htuple, rfl⟩

lemma planned_of_planUpdate {change : Value × SortedMap String Value} {m : StrictEngine.Move}
    (h : e.planUpdate env st c change = .ok (some m)) : Planned env st c (m.newKey, m.newTuple) := by
  unfold StrictEngine.planUpdate at h
  dsimp only at h
  split at h
  · cases h
  · obtain ⟨values, -, h⟩ := ExceptFold.bind_eq_ok.mp h
    obtain ⟨values', -, h⟩ := ExceptFold.bind_eq_ok.mp h
    obtain ⟨tuple, htuple, hout⟩ := ExceptFold.bind_eq_ok.mp h
    obtain rfl := Option.some.inj (Except.ok.inj hout)
    exact ⟨values', ExceptFold.mapError_ok htuple, rfl⟩

lemma planned_of_planUpdates {changes : List (Value × SortedMap String Value)}
    {moves : List StrictEngine.Move}
    (h : StrictEngine.planUpdates env e st c changes = .ok moves) :
    ∀ m ∈ moves, Planned env st c (m.newKey, m.newTuple) := by
  unfold StrictEngine.planUpdates at h
  cases hplan : changes.mapM (e.planUpdate env st c) with
  | error err => rw [hplan] at h; cases h
  | ok planned =>
    rw [hplan] at h
    obtain rfl := Except.ok.inj h
    intro m hm
    have hmem : some m ∈ planned := by simpa using List.mem_filterMap.mp hm
    obtain ⟨change, -, hchange⟩ := ExceptFold.exists_source_of_mapM_ok hplan hmem
    exact planned_of_planUpdate hchange

lemma properOp_of_mem_moves {moves : List StrictEngine.Move}
    (h : ∀ m ∈ moves, Planned env st c (m.newKey, m.newTuple)) :
    ∀ op ∈ moves.flatMap (StrictEngine.Move.ops env), ProperOp env st c op := by
  intro op hop
  obtain ⟨m, hm, hmop⟩ := List.mem_flatMap.mp hop
  rcases List.mem_append.mp hmop with hdelete | hput
  · split at hdelete
    · exact absurd hdelete List.not_mem_nil
    · rw [List.mem_singleton.mp hdelete]
      exact .delete _
  · rw [List.mem_singleton.mp hput]
    exact (h m hm).properOp

/-- The collection is open and its rows lie under their own keys. -/
structure Keyed (env : StrictEnv T) (st : CollectionState T) (c : String) (e : StrictEngine T) :
    Prop where
  opened : e.collections.get c = some st
  rows : RowsKeyed env st c e.tree

lemma RowsKeyed.commit_puts {t t' : Tree} (h : RowsKeyed env st c t)
    {planned : List (Bytes × Bytes)} (hplanned : ∀ row ∈ planned, Planned env st c row)
    (hcommit : Strict.commit env t c (planned.map (StrictEngine.putOp env)) = .ok t') :
    RowsKeyed env st c t' := by
  refine h.commit (fun op hop => ?_) hcommit
  obtain ⟨row, hrow, rfl⟩ := List.mem_map.mp hop
  exact (hplanned row hrow).properOp

lemma Keyed.insertRows {e' : StrictEngine T} (h : Keyed env st c e) {rows : List (List Value)}
    (hrows : e.insertRows env c rows = .ok e') : Keyed env st c e' := by
  obtain ⟨planned, t, hplan, hcommit, rfl⟩ := StrictEngine.insertRows_eq_ok h.opened hrows
  have hcommitted := h.rows.commit_puts (planned_of_planInserts hplan) hcommit
  refine ⟨h.opened, ?_⟩
  dsimp only
  split
  · exact hcommitted.congr (fun key => getRows_recordBirths t key _)
  · exact hcommitted

lemma Keyed.insertBatch {e' : StrictEngine T} (h : Keyed env st c e) {rows : List (List Value)}
    (hrows : e.insertBatch env c rows = .ok e') : Keyed env st c e' := by
  obtain ⟨planned, t, hplan, hcommit, rfl⟩ := StrictEngine.insertBatch_eq_ok h.opened hrows
  exact ⟨h.opened, h.rows.commit_puts (planned_of_mapM hplan) hcommit⟩

lemma getRows_closedTree (now : Int) (moves : List StrictEngine.Move) (key : Bytes) :
    getRows (StrictEngine.closedTree env e c st now moves) env.strict key
      = getRows e.tree env.strict key := by
  unfold StrictEngine.closedTree
  split
  · exact getRows_supersede ..
  · rfl

lemma getRows_bornTree (now : Int) (moves : List StrictEngine.Move) (t : Tree) (key : Bytes) :
    getRows (StrictEngine.bornTree env c st now moves t) env.strict key
      = getRows t env.strict key := by
  unfold StrictEngine.bornTree
  split
  · exact getRows_bear ..
  · rfl

lemma Keyed.updateMany (h : Keyed env st c e) (changes : List (Value × SortedMap String Value))
    (now : Int) : Keyed env st c (e.updateMany env c changes now).1 := by
  rw [StrictEngine.updateMany_eq h.opened]
  cases hplan : StrictEngine.planUpdates env e st c changes with
  | error err => exact h
  | ok moves =>
    have hclosed : RowsKeyed env st c (StrictEngine.closedTree env e c st now moves) :=
      h.rows.congr (getRows_closedTree now moves)
    dsimp only
    cases hcommit : Strict.commit env (StrictEngine.closedTree env e c st now moves) c
        (moves.flatMap (StrictEngine.Move.ops env)) with
    | error err => exact ⟨h.opened, hclosed⟩
    | ok t =>
      have hops := properOp_of_mem_moves (planned_of_planUpdates hplan)
      exact ⟨h.opened, (hclosed.commit hops hcommit).congr (getRows_bornTree now moves t)⟩

lemma Keyed.updateByValues (h : Keyed env st c e) {pk : Value} {values : List Value}
    (hkeep : st.storageKey c values = CollectionState.storageKeyFromPk c pk)
    {out : StrictEngine T × Bool} (hout : e.updateByValues env c pk values = .ok out) :
    Keyed env st c out.1 := by
  rcases StrictEngine.updateByValues_eq_ok h.opened hout with rfl | ⟨tuple, t, hencode, hcommit, rfl⟩
  · exact h
  · refine ⟨h.opened, h.rows.commit ?_ hcommit⟩
    intro op hop
    rw [List.mem_singleton.mp hop, ← hkeep]
    exact .put hencode

lemma Keyed.delete (h : Keyed env st c e) (pk : Value) (now : Int) :
    Keyed env st c (e.delete env c pk now).1 := by
  rw [StrictEngine.delete_eq h.opened]
  cases getRows e.tree env.strict (CollectionState.storageKeyFromPk c pk) with
  | none => exact h
  | some oldTuple =>
    dsimp only
    generalize hclosed : (if st.schema.bitemporal then _ else e.tree : Tree) = closed
    have hrows : RowsKeyed env st c closed := by
      rw [← hclosed]
      split
      · exact h.rows.congr (fun key => getRows_putRows_of_ne (.inl env.strict_ne))
      · exact h.rows
    cases hcommit : Strict.commit env closed c
        [.delete env.strict (CollectionState.storageKeyFromPk c pk)] with
    | error err => exact ⟨h.opened, hrows⟩
    | ok t =>
      refine ⟨h.opened, hrows.commit ?_ hcommit⟩
      intro op hop
      rw [List.mem_singleton.mp hop]
      exact .delete _

lemma Keyed.rowStep (h : Keyed env st c e) {call : RowCall} (hgood : KeepsKey c e call) :
    Keyed env st c (e.rowStep env c call) := by
  cases call with
  | insertRows rows =>
    dsimp only [StrictEngine.rowStep]
    cases hout : e.insertRows env c rows with
    | error err => exact h
    | ok e' => exact h.insertRows hout
  | insertBatch rows =>
    dsimp only [StrictEngine.rowStep]
    cases hout : e.insertBatch env c rows with
    | error err => exact h
    | ok e' => exact h.insertBatch hout
  | updateMany changes now => exact h.updateMany changes now
  | updateByValues pk values =>
    dsimp only [StrictEngine.rowStep]
    cases hout : e.updateByValues env c pk values with
    | error err => exact h
    | ok out => exact h.updateByValues (hgood st h.opened) hout
  | delete pk now => exact h.delete pk now

end Keyed

section Faithful

variable {st : CollectionState T} {e : StrictEngine T}

/-- The schema has one key column, which is not nullable. -/
def OneKeyColumn (schema : StrictSchema T) : Prop :=
  ∃ i column, schema.pkIndices = [i] ∧ schema.columns[i]? = some column ∧ column.nullable = false

lemma pkValues_of_one {i : Nat} (h : st.schema.pkIndices = [i]) (values : List Value) :
    st.pkValues values = [values.getD i .null] := by
  rw [CollectionState.pkValues, h]
  rfl

lemma storageKey_of_one {i : Nat} (h : st.schema.pkIndices = [i]) (values : List Value) :
    st.storageKey c values = CollectionState.storageKeyFromPk c (values.getD i .null) := by
  rw [CollectionState.storageKey, CollectionState.storageKeyFromPk, h]
  simp

lemma TupleLaws.decodeTuple (laws : TupleLaws env kind st.schema) {values : List Value}
    {tuple : Bytes} (h : env.encode st.schema values = .ok tuple) :
    ∃ read, decodeTuple env st tuple = .ok read ∧
      ∀ i ∈ st.schema.pkIndices, read.getD i .null = values.getD i .null := by
  obtain ⟨read, hread, hkeys⟩ := laws.extractAll_encode h
  refine ⟨read, ?_, hkeys⟩
  unfold Strict.decodeTuple
  rw [laws.schemaVersion_encode h]
  change (if st.schema.version ≤ st.schema.version then _ else _ : Except LiteError (List Value)) = _
  rw [if_pos le_rfl, hread]
  rfl

lemma TupleLaws.kind_of_column (laws : TupleLaws env kind st.schema) {values : List Value}
    {tuple : Bytes} (h : env.encode st.schema values = .ok tuple) {i : Nat} {column : ColumnDef T}
    (hpk : st.schema.pkIndices = [i]) (hcolumn : st.schema.columns[i]? = some column)
    (hnull : column.nullable = false) :
    (values.getD i .null).kind = some (kind column.columnType) := by
  rcases laws.fits_encode h i (hpk ▸ List.mem_singleton.mpr rfl) column hcolumn with
    hkind | ⟨-, hnullable⟩
  · exact hkind
  · rw [hnull] at hnullable
    cases hnullable

lemma Keyed.keysFaithful (laws : TupleLaws env kind st.schema) (hone : OneKeyColumn st.schema)
    (h : Keyed env st c e) : KeysFaithful env c st e := by
  obtain ⟨i, column, hpk, hcolumn, hnull⟩ := hone
  constructor
  · intro key tuple hkey hget
    obtain ⟨values, hencode, rfl⟩ := h.rows key tuple hkey hget
    obtain ⟨read, hread, hkeys⟩ := laws.decodeTuple hencode
    have hsame := hkeys i (hpk ▸ List.mem_singleton.mpr rfl)
    refine ⟨read, _, hread, pkValues_of_one hpk read, ?_, ?_⟩
    · rw [storageKey_of_one hpk, storageKey_of_one hpk, hsame]
    · unfold StrictEngine.get
      rw [StrictEngine.getState_of_get h.opened, hsame, ← storageKey_of_one hpk]
      simp only [bind, Except.bind]
      rw [hget]
      dsimp only
      rw [hread]
      rfl
  · intro values values' tuple tuple' hencode hencode' hkeys
    rw [storageKey_of_one hpk, storageKey_of_one hpk] at hkeys
    have hbytes := (List.cons.inj (List.append_cancel_left hkeys)).2
    rw [pkValues_of_one hpk, pkValues_of_one hpk,
      encodePkComponent_inj (laws.kind_of_column hencode hpk hcolumn hnull)
        (laws.kind_of_column hencode' hpk hcolumn hnull) hbytes]

end Faithful

/-- From a collection without rows, with one key column, every run whose replacements of whole rows
keep the key leaves primary keys faithful. -/
theorem primary_keys_faithful {st : CollectionState T} (laws : TupleLaws env kind st.schema)
    (hone : OneKeyColumn st.schema) {e₀ e : StrictEngine T} (hopen : e₀.collections.get c = some st)
    (hempty : ∀ key, StrictEngine.rowsPrefix c <+: key → getRows e₀.tree env.strict key = none)
    (h : GuardedRun.Reaches (fun e call => some (e.rowStep env c call)) (KeepsKey c) e₀ e) :
    KeysFaithful env c st e := by
  have hinit : Keyed env st c e₀ := by
    refine ⟨hopen, ?_⟩
    intro key tuple hkey hget
    rw [hempty key hkey] at hget
    cases hget
  have hkeyed : Keyed env st c e := by
    apply h.invariant hinit
    intro s call t hs hgood hstep
    rw [← Option.some.inj hstep]
    exact hs.rowStep hgood
  exact hkeyed.keysFaithful laws hone

/-- An open collection without rows. -/
def freshCollection (c : String) (schema : StrictSchema Kind) : StrictEngine Kind :=
  ⟨SortedMap.empty, SortedMap.empty.insert c schema, [c],
    SortedMap.empty.insert c (CollectionState.new schema)⟩

/-- A text key and a number. -/
def namedNumbers : StrictSchema Kind :=
  ⟨[⟨"id", .string, false, true⟩, ⟨"n", .integer, true, false⟩], 1, false⟩

/-- An insert and a replacement of the whole row. -/
def replacedRow : StrictEngine Kind :=
  ((freshCollection "c" namedNumbers).rowStep wordsEnv "c"
    (.insertRows [[.string "a", .integer 1]])).rowStep wordsEnv "c"
      (.updateByValues (.string "a") [.string "a", .integer 2])

theorem primary_keys_faithful_replaced :
    KeysFaithful wordsEnv "c" (CollectionState.new namedNumbers) replacedRow ∧
      (replacedRow.get wordsEnv "c" (.string "a")).toOption
        = some (some [.string "a", .integer 2]) := by
  constructor
  · have hone : OneKeyColumn (CollectionState.new namedNumbers).schema :=
      ⟨0, ⟨"id", .string, false, true⟩, by decide, rfl, rfl⟩
    have hopen : (freshCollection "c" namedNumbers).collections.get "c"
        = some (CollectionState.new namedNumbers) := rfl
    have hinit : Keyed wordsEnv (CollectionState.new namedNumbers) "c"
        (freshCollection "c" namedNumbers) := ⟨hopen, fun _ _ _ hget => by cases hget⟩
    have hreach : GuardedRun.Reaches
        (fun (e : StrictEngine Kind) call => some (e.rowStep wordsEnv "c" call)) (KeepsKey "c")
        (freshCollection "c" namedNumbers) replacedRow := by
      refine (GuardedRun.Reaches.refl.step trivial rfl).step ?_ rfl
      intro st hst
      have hinserted : Keyed wordsEnv (CollectionState.new namedNumbers) "c"
          ((freshCollection "c" namedNumbers).rowStep wordsEnv "c"
            (.insertRows [[.string "a", .integer 1]])) := hinit.rowStep trivial
      obtain rfl := Option.some.inj (hst.symm.trans hinserted.opened)
      decide +kernel
    exact primary_keys_faithful (wordsEnv_laws _) hone hopen (fun _ _ => rfl) hreach
  · simp only [replacedRow, StrictEngine.rowStep, StrictEngine.insertRows,
      StrictEngine.updateByValues, commit, batchWriteRows_eq]
    decide +kernel

/-- Two text keys. -/
def twoTexts : StrictSchema Kind :=
  ⟨[⟨"x", .string, false, true⟩, ⟨"y", .string, false, true⟩], 1, false⟩

/-- Text keys of two columns run together, and a replaced row stays under its old key. -/
theorem composite_keys_collide :
    ((CollectionState.new twoTexts).storageKey "c" [.string "a", .string "bc"]
        = (CollectionState.new twoTexts).storageKey "c" [.string "ab", .string "c"] ∧
      ((freshCollection "c" twoTexts).insertRows wordsEnv "c"
        [[.string "a", .string "bc"], [.string "ab", .string "c"]]).toOption.isNone) ∧
    (((freshCollection "c" namedNumbers).insert wordsEnv "c" [.string "a", .integer 1]).bind
      (fun e => (e.updateByValues wordsEnv "c" (.string "a") [.string "b", .integer 1]).map
        (fun out => ((out.1.get wordsEnv "c" (.string "a")).toOption,
          (out.1.get wordsEnv "c" (.string "b")).toOption)))).toOption
      = some (some (some [.string "b", .integer 1]), some none) := by
  refine ⟨⟨by decide +kernel, by decide +kernel⟩, ?_⟩
  simp only [StrictEngine.insert, StrictEngine.insertRows, StrictEngine.updateByValues, commit,
    batchWriteRows_eq]
  decide +kernel

end NodedbLite.Strict
