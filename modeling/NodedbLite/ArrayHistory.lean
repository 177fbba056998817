import NodedbLite.ArraySync

/-! An array without a retention policy as the list of the ops applied to it: while no two ops
write one coordinate at one system time, what the engine keeps and answers is a function of
this list and of the order in which the coordinates were first put. -/
namespace NodedbLite.Arrays

variable {Coord Attr : Type} [LinearOrder Coord]

/-- The coordinates put so far in the order of their first puts, with one more put. -/
def noted (puts : List Coord) (coord : Coord) : List Coord :=
  if coord ∈ puts then puts else puts ++ [coord]

def notePut (puts : List Coord) (op : ArrayOp Coord Attr) : List Coord :=
  if op.kind = .put then noted puts op.coord else puts

def putOrder (ops : List (ArrayOp Coord Attr)) : List Coord := ops.foldl notePut []

lemma mem_noted_self (puts : List Coord) (coord : Coord) : coord ∈ noted puts coord := by
  unfold noted
  split
  next h => exact h
  next => simp

lemma mem_noted_of_mem {puts : List Coord} {coord : Coord} (h : coord ∈ puts) (c : Coord) :
    coord ∈ noted puts c := by
  unfold noted
  split
  next => exact h
  next => exact List.mem_append_left _ h

lemma idxOf_noted {puts : List Coord} {coord : Coord} (h : coord ∈ puts) (c : Coord) :
    (noted puts c).idxOf coord = puts.idxOf coord := by
  unfold noted
  split
  next => rfl
  next => exact List.idxOf_append_of_mem h

lemma mem_notePut_of_mem {puts : List Coord} {coord : Coord} (h : coord ∈ puts)
    (op : ArrayOp Coord Attr) : coord ∈ notePut puts op := by
  unfold notePut
  split
  next => exact mem_noted_of_mem h op.coord
  next => exact h

lemma idxOf_notePut {puts : List Coord} {coord : Coord} (h : coord ∈ puts)
    (op : ArrayOp Coord Attr) : (notePut puts op).idxOf coord = puts.idxOf coord := by
  unfold notePut
  split
  next => exact idxOf_noted h op.coord
  next => rfl

/-- Surrogates are handed out in the order of the first puts. -/
structure BoundInOrder (puts : List Coord) (bound : SortedMap Coord Nat) (next : Nat) : Prop where
  next_eq : next = puts.length + firstSurrogate
  get_eq : ∀ coord, bound.get coord
    = if coord ∈ puts then some (puts.idxOf coord + firstSurrogate) else none

/-- There is a surrogate for the coordinate. -/
def Room (puts : List Coord) (coord : Coord) : Prop :=
  coord ∈ puts ∨ puts.length + firstSurrogate + 1 < 2 ^ 32

lemma BoundInOrder.bind_ok {puts : List Coord} {b : CellBindings Coord} {next : Nat}
    (h : BoundInOrder puts b.bound next) (name : String) {coord : Coord}
    (hroom : Room puts coord) :
    ∃ b' next', b.bind name coord next
        = .ok ((noted puts coord).idxOf coord + firstSurrogate, b', next') ∧
      BoundInOrder (noted puts coord) b'.bound next' := by
  unfold CellBindings.bind
  rw [h.get_eq coord]
  by_cases hmem : coord ∈ puts
  · rw [if_pos hmem]
    refine ⟨b, next, ?_, ?_⟩
    · rw [idxOf_noted hmem]
    · rw [noted, if_pos hmem]
      exact h
  · have hfree := hroom.resolve_left hmem
    have hlast : (puts ++ [coord]).idxOf coord = puts.length := by
      rw [List.idxOf_append_of_notMem hmem, List.idxOf_cons_self, Nat.add_zero]
    rw [if_neg hmem, noted, if_neg hmem, hlast]
    dsimp only
    have hmax : max next firstSurrogate = puts.length + firstSurrogate := by
      rw [h.next_eq]
      omega
    rw [hmax, if_pos hfree]
    refine ⟨_, _, rfl, ?_, ?_⟩
    · rw [List.length_append, List.length_singleton]
      omega
    · intro c
      rw [SortedMap.get_insert, h.get_eq c]
      by_cases hc : c = coord
      · rw [if_pos hc, hc, if_pos (by simp), hlast]
      · rw [if_neg hc]
        by_cases hcmem : c ∈ puts
        · rw [if_pos hcmem, if_pos (List.mem_append_left _ hcmem),
            List.idxOf_append_of_mem hcmem]
        · rw [if_neg hcmem, if_neg (by simp [hcmem, hc])]

lemma BoundInOrder.bind_error {puts : List Coord} {b : CellBindings Coord} {next : Nat}
    (h : BoundInOrder puts b.bound next) (name : String) {coord : Coord}
    (hroom : ¬ Room puts coord) : ∃ e, b.bind name coord next = .error e := by
  unfold Room at hroom
  rw [not_or] at hroom
  unfold CellBindings.bind
  rw [h.get_eq coord, if_neg hroom.1]
  dsimp only
  have hnext := h.next_eq
  rw [if_neg (by omega)]
  exact ⟨_, rfl⟩

/-- The coordinate is inside the tile grid. -/
def InGrid (schema : ArraySchema Coord) (coord : Coord) : Prop :=
  ∃ hilbertPrefix, schema.tilePrefix coord = .ok hilbertPrefix

omit [LinearOrder Coord] in
lemma not_inGrid {schema : ArraySchema Coord} {coord : Coord} (h : ¬ InGrid schema coord) :
    ∃ e, schema.tilePrefix coord = .error e := by
  cases hp : schema.tilePrefix coord with
  | error e => exact ⟨e, rfl⟩
  | ok p => exact absurd ⟨p, hp⟩ h

/-- The version a put adds when its coordinate is noted. -/
def CellWrite.cell (w : CellWrite Coord Attr) (puts : List Coord) : Cell Attr :=
  .live ⟨w.validFromMs, w.validUntilMs, w.attrs, puts.idxOf w.coord + firstSurrogate⟩

section InMemory
variable {puts : List Coord} {db : ArrayDb Coord Attr} {st : ArrayState Coord Attr}

lemma putInMemory_ok (h : BoundInOrder puts st.bindings.bound db.nextSurrogate) (name : String)
    {w : CellWrite Coord Attr} {hilbertPrefix : Nat}
    (hgrid : st.schema.tilePrefix w.coord = .ok hilbertPrefix) (hroom : Room puts w.coord) :
    ∃ bindings next, db.putInMemory name st w
        = (.ok (), { db.withArray name { st with
            memtable := st.memtable.setEntry (.mk hilbertPrefix w.systemFromMs) w.coord
              (w.cell (noted puts w.coord))
            bindings } with nextSurrogate := next }) ∧
      BoundInOrder (noted puts w.coord) bindings.bound next := by
  obtain ⟨bindings, next, hbind, horder⟩ := h.bind_ok name hroom
  refine ⟨bindings, next, ?_, horder⟩
  unfold ArrayDb.putInMemory
  dsimp only
  rw [hbind]
  dsimp only [ArrayMemtable.putCell, ArrayMemtable.write, tileIdForCell]
  rw [hgrid]
  rfl

lemma putInMemory_error (h : BoundInOrder puts st.bindings.bound db.nextSurrogate) (name : String)
    {w : CellWrite Coord Attr}
    (hrefused : ¬ (InGrid st.schema w.coord ∧ Room puts w.coord)) :
    ∃ e db', db.putInMemory name st w = (.error e, db') := by
  unfold ArrayDb.putInMemory
  dsimp only
  by_cases hroom : Room puts w.coord
  · obtain ⟨e, hgrid⟩ := not_inGrid (fun hgrid => hrefused ⟨hgrid, hroom⟩)
    obtain ⟨bindings, next, hbind, horder⟩ := h.bind_ok name hroom
    rw [hbind]
    dsimp only [ArrayMemtable.putCell, ArrayMemtable.write, tileIdForCell]
    rw [hgrid]
    dsimp only
    split <;> exact ⟨_, _, rfl⟩
  · obtain ⟨e, hbind⟩ := h.bind_error name hroom
    rw [hbind]
    exact ⟨e, db, rfl⟩

lemma markInMemory_ok {name : String} (hst : db.arrays.get name = some st) {coord : Coord}
    {hilbertPrefix : Nat} (hgrid : st.schema.tilePrefix coord = .ok hilbertPrefix) (t : Int)
    (cell : Cell Attr) : db.markInMemory name coord t cell
      = (.ok (), db.withArray name { st with
          memtable := st.memtable.setEntry (.mk hilbertPrefix t) coord cell }) := by
  unfold ArrayDb.markInMemory ArrayMemtable.write tileIdForCell
  rw [hst]
  dsimp only
  rw [hgrid]

lemma markInMemory_error {name : String} (hst : db.arrays.get name = some st) {coord : Coord}
    (hgrid : ¬ InGrid st.schema coord) (t : Int) (cell : Cell Attr) :
    ∃ e, db.markInMemory name coord t cell = (.error e, db) := by
  obtain ⟨e, he⟩ := not_inGrid hgrid
  unfold ArrayDb.markInMemory ArrayMemtable.write tileIdForCell
  rw [hst]
  dsimp only
  rw [he]
  exact ⟨_, rfl⟩

end InMemory

namespace ArrayOp

/-- The version an op adds, once its coordinate is noted. -/
def cell (op : ArrayOp Coord Attr) (puts : List Coord) : Cell Attr :=
  match op.kind with
  | .put => op.cellWrite.cell puts
  | .delete => .tombstone
  | .erase => .gdprErased

def tile (op : ArrayOp Coord Attr) (schema : ArraySchema Coord) : TileId :=
  .mk ((schema.tilePrefix op.coord).toOption.getD 0) op.systemFromMs

def row (op : ArrayOp Coord Attr) (schema : ArraySchema Coord) (puts : List Coord) :
    Row Coord Attr :=
  (op.tile schema, op.coord, op.cell puts)

/-- The engine call of an op. -/
def label (op : ArrayOp Coord Attr) (nowMs : Int) : ArrayLabel Coord Attr :=
  match op.kind with
  | .put => .put op.array nowMs op.cellWrite
  | .delete => .delete op.array op.coord op.systemFromMs
  | .erase => .erase op.array nowMs op.coord op.systemFromMs

end ArrayOp

/-- The engine takes the op: its coordinate is in the grid, and a put has a surrogate. -/
structure Accepts (schema : ArraySchema Coord) (puts : List Coord) (op : ArrayOp Coord Attr) :
    Prop where
  inGrid : InGrid schema op.coord
  room : op.kind = .put → Room puts op.coord

omit [LinearOrder Coord] in
lemma not_inGrid_of_refused {schema : ArraySchema Coord} {puts : List Coord}
    {op : ArrayOp Coord Attr} (hkind : op.kind ≠ .put) (h : ¬ Accepts schema puts op) :
    ¬ InGrid schema op.coord :=
  fun hgrid => h ⟨hgrid, fun hput => absurd hput hkind⟩

lemma applyKind_snd (env : ArrayEnv Coord Attr) (nowMs : Int) (db : ArrayDb Coord Attr)
    (op : ArrayOp Coord Attr) :
    (db.applyKind env nowMs op).2 = db.call env (op.label nowMs) := by
  unfold ArrayDb.applyKind ArrayOp.label
  cases op.kind <;> rfl

section Result
variable {puts : List Coord} {db : ArrayDb Coord Attr} {st : ArrayState Coord Attr}
  {op : ArrayOp Coord Attr}

lemma applyKind_fst_error (env : ArrayEnv Coord Attr) (nowMs : Int)
    (hst : db.arrays.get op.array = some st)
    (h : BoundInOrder puts st.bindings.bound db.nextSurrogate)
    (hrefused : ¬ Accepts st.schema puts op) : ∃ e, (db.applyKind env nowMs op).1 = .error e := by
  unfold ArrayDb.applyKind
  cases hkind : op.kind with
  | put =>
    obtain ⟨e, db', hput⟩ := putInMemory_error h op.array (w := op.cellWrite)
      (fun hok => hrefused ⟨hok.1, fun _ => hok.2⟩)
    dsimp only
    unfold ArrayDb.putCell
    rw [hst]
    dsimp only
    rw [hput]
    exact ⟨e, rfl⟩
  | delete =>
    have hgrid := not_inGrid_of_refused (by rw [hkind]; decide) hrefused
    obtain ⟨e, he⟩ := markInMemory_error hst hgrid op.systemFromMs .tombstone
    dsimp only [ArrayDb.deleteCell]
    rw [he]
    exact ⟨e, rfl⟩
  | erase =>
    have hgrid := not_inGrid_of_refused (by rw [hkind]; decide) hrefused
    obtain ⟨e, he⟩ := markInMemory_error hst hgrid op.systemFromMs .gdprErased
    dsimp only [ArrayDb.gdprEraseCell]
    rw [he]
    exact ⟨e, rfl⟩

lemma unflushed_accepted (nowMs : Int) (hst : db.arrays.get op.array = some st)
    (h : BoundInOrder puts st.bindings.bound db.nextSurrogate) (haccepts : Accepts st.schema puts op) :
    ∃ bindings, (db.unflushed (op.label nowMs)).arrays.get op.array = some { st with
        memtable := st.memtable.setEntry (op.tile st.schema) op.coord (op.cell (notePut puts op))
        bindings } ∧
      BoundInOrder (notePut puts op) bindings.bound
        (db.unflushed (op.label nowMs)).nextSurrogate := by
  obtain ⟨p, hgrid⟩ := haccepts.inGrid
  have htile : op.tile st.schema = .mk p op.systemFromMs := by
    unfold ArrayOp.tile
    rw [hgrid]
    rfl
  rw [htile]
  unfold ArrayOp.label ArrayOp.cell notePut
  cases hkind : op.kind with
  | put =>
    obtain ⟨bindings, next, hput, horder⟩ :=
      putInMemory_ok h op.array (w := op.cellWrite) hgrid (haccepts.room hkind)
    dsimp only [ArrayDb.unflushed]
    rw [hst]
    dsimp only
    rw [hput, if_pos rfl]
    exact ⟨bindings, (SortedMap.get_insert ..).trans (if_pos rfl), horder⟩
  | delete =>
    dsimp only [ArrayDb.unflushed]
    rw [markInMemory_ok hst hgrid, if_neg (by simp)]
    exact ⟨st.bindings, (SortedMap.get_insert ..).trans (if_pos rfl), h⟩
  | erase =>
    dsimp only [ArrayDb.unflushed]
    rw [markInMemory_ok hst hgrid, if_neg (by simp)]
    exact ⟨st.bindings, (SortedMap.get_insert ..).trans (if_pos rfl), h⟩

end Result

/-- Two ops that write one coordinate at one system time. -/
def SameSlot (a b : ArrayOp Coord Attr) : Prop :=
  a.coord = b.coord ∧ a.systemFromMs = b.systemFromMs

instance (a b : ArrayOp Coord Attr) : Decidable (SameSlot a b) :=
  inferInstanceAs (Decidable (_ ∧ _))

/-- The engine holds exactly the versions of the ops, wherever its flushes have put them. -/
structure Holds (name : String) (schema : ArraySchema Coord) (puts : List Coord)
    (ops : List (ArrayOp Coord Attr)) (db plain : ArrayDb Coord Attr) : Prop where
  agree : Agree db plain
  twin : ∃ twin, plain.arrays.get name = some twin ∧ twin.schema = schema ∧
    twin.auditRetainMs = none ∧ BoundInOrder puts twin.bindings.bound plain.nextSurrogate ∧
    (rows twin.memtable.tiles.entries).Perm (ops.map (fun op => op.row schema puts))
  puts : ∀ op ∈ ops, op.kind = .put → op.coord ∈ puts
  inGrid : ∀ op ∈ ops, InGrid schema op.coord
  slots : ops.Pairwise (fun a b => ¬ SameSlot a b)

lemma ArrayOp.row_notePut {schema : ArraySchema Coord} {puts : List Coord}
    {op : ArrayOp Coord Attr} (h : op.kind = .put → op.coord ∈ puts) (o : ArrayOp Coord Attr) :
    op.row schema (notePut puts o) = op.row schema puts := by
  unfold ArrayOp.row ArrayOp.cell
  cases hkind : op.kind with
  | put =>
    dsimp only [CellWrite.cell]
    have hidx : (notePut puts o).idxOf op.cellWrite.coord = puts.idxOf op.cellWrite.coord :=
      idxOf_notePut (h hkind) o
    rw [hidx]
  | delete => rfl
  | erase => rfl

lemma exists_op_of_row {schema : ArraySchema Coord} {puts : List Coord}
    {ops : List (ArrayOp Coord Attr)} {id : TileId} {coord : Coord} {cell : Cell Attr}
    (h : (id, coord, cell) ∈ ops.map (fun op => op.row schema puts)) :
    ∃ op ∈ ops, op.coord = coord ∧ op.systemFromMs = id.systemFromMs := by
  obtain ⟨op, hop, heq⟩ := List.mem_map.mp h
  cases heq
  exact ⟨op, hop, rfl, rfl⟩

section Step
variable {name : String} {schema : ArraySchema Coord} {puts : List Coord}
  {ops : List (ArrayOp Coord Attr)} {db plain : ArrayDb Coord Attr} {op : ArrayOp Coord Attr}

lemma Holds.unrepeated (h : Holds name schema puts ops db plain) (harray : op.array = name)
    (hslot : ∀ o ∈ ops, ¬ SameSlot o op) (nowMs : Int) :
    Unrepeated ⟨db, plain⟩ (op.label nowMs) := by
  obtain ⟨twin, htwin, hschema, _, _, hrows⟩ := h.twin
  have hunwritten : (FlushSys.mk db plain).unwritten op.array op.coord op.systemFromMs = true := by
    unfold FlushSys.unwritten
    rw [harray, htwin]
    dsimp only
    rw [Bool.or_eq_true, Bool.not_eq_true', Bool.eq_false_iff]
    right
    intro hwritten
    unfold ArrayState.written at hwritten
    split at hwritten
    next id hid =>
      obtain ⟨cell, hcell⟩ := Option.isSome_iff_exists.mp hwritten
      obtain ⟨tile, htile, hget⟩ := Option.bind_eq_some_iff.mp hcell
      have hrow := hrows.mem_iff.mp (mem_rows_entries.mpr ⟨tile, htile, hget⟩)
      obtain ⟨o, ho, hcoord, hstamp⟩ := exists_op_of_row hrow
      exact hslot o ho ⟨hcoord, hstamp.trans (tileIdForCell_eq_ok.mp hid).2⟩
    next => cases hwritten
  unfold ArrayOp.label
  cases op.kind with
  | put => exact hunwritten
  | delete => exact hunwritten
  | erase => exact hunwritten

lemma Holds.exists_state (h : Holds name schema puts ops db plain) :
    ∃ st, db.arrays.get name = some st ∧ st.schema = schema ∧ st.auditRetainMs = none ∧
      BoundInOrder puts st.bindings.bound db.nextSurrogate := by
  obtain ⟨twin, htwin, hschema, hretain, horder, _⟩ := h.twin
  cases hst : db.arrays.get name with
  | none =>
    rw [(h.agree.missing name).mp hst] at htwin
    cases htwin
  | some st =>
    have hfollows := h.agree.follows name st twin hst htwin
    refine ⟨st, rfl, hfollows.schema.trans hschema, hfollows.retain.trans hretain, ?_⟩
    rw [hfollows.bound, h.agree.next]
    exact horder

lemma Holds.agree_applyKind (h : Holds name schema puts ops db plain) (harray : op.array = name)
    (hslot : ∀ o ∈ ops, ¬ SameSlot o op) (env : ArrayEnv Coord Attr) (nowMs : Int) :
    Agree (db.applyKind env nowMs op).2 (plain.unflushed (op.label nowMs)) := by
  rw [applyKind_snd]
  exact @agree_flushStep _ _ _ env ⟨db, plain⟩ _ _ h.agree (h.unrepeated harray hslot nowMs) rfl

/-- An accepted op in a slot of its own becomes one more of the ops held. -/
lemma Holds.applyKind_accepted (h : Holds name schema puts ops db plain)
    (harray : op.array = name) (hslot : ∀ o ∈ ops, ¬ SameSlot o op)
    (haccepts : Accepts schema puts op) (env : ArrayEnv Coord Attr) (nowMs : Int) :
    Holds name schema (notePut puts op) (ops ++ [op]) (db.applyKind env nowMs op).2
      (plain.unflushed (op.label nowMs)) := by
  subst harray
  obtain ⟨twin, htwin, htschema, htretain, htorder, hrows⟩ := h.twin
  obtain ⟨bindings, htwin', horder'⟩ :=
    unflushed_accepted nowMs htwin htorder (htschema.symm ▸ haccepts)
  refine ⟨h.agree_applyKind rfl hslot env nowMs, ⟨_, htwin', htschema, htretain, horder', ?_⟩, ?_, ?_, ?_⟩
  · have hunwritten : twin.memtable.Unwritten (op.tile twin.schema) op.coord := by
      intro cell hcell
      obtain ⟨o, ho, hcoord, hstamp⟩ := exists_op_of_row (hrows.mem_iff.mp hcell)
      exact hslot o ho ⟨hcoord, hstamp⟩
    have hsame : ops.map (fun o => o.row schema (notePut puts op))
        = ops.map (fun o => o.row schema puts) :=
      List.map_congr_left (fun o ho => ArrayOp.row_notePut (h.puts o ho) op)
    rw [List.map_append, hsame]
    apply (rows_setEntry_perm hunwritten _).trans
    rw [htschema]
    exact (hrows.cons _).trans (List.perm_append_singleton _ _).symm
  · intro o ho hput
    rcases List.mem_append.mp ho with ho | ho
    · exact mem_notePut_of_mem (h.puts o ho hput) op
    · rw [List.mem_singleton.mp ho] at hput ⊢
      rw [notePut, if_pos hput]
      exact mem_noted_self puts op.coord
  · intro o ho
    rcases List.mem_append.mp ho with ho | ho
    · exact h.inGrid o ho
    · rw [List.mem_singleton.mp ho]
      exact haccepts.inGrid
  · rw [List.pairwise_append]
    refine ⟨h.slots, List.pairwise_singleton _ _, ?_⟩
    intro o ho o' ho'
    rw [List.mem_singleton.mp ho']
    exact hslot o ho

lemma Holds.applyKind_refused (h : Holds name schema puts ops db plain)
    (harray : op.array = name) (hrefused : ¬ Accepts schema puts op) (env : ArrayEnv Coord Attr)
    (nowMs : Int) : ∃ e, (db.applyKind env nowMs op).1 = .error e := by
  subst harray
  obtain ⟨st, hst, hschema, _, horder⟩ := h.exists_state
  exact applyKind_fst_error env nowMs hst horder (hschema.symm ▸ hrefused)

end Step

/-- What a read answers when the op is the newest it sees. -/
def ArrayOp.value (op : ArrayOp Coord Attr) (puts : List Coord) : Option (CellPayload Attr) :=
  match op.kind with
  | .put => some ⟨op.validFromMs, op.validUntilMs, op.attrs.getD [],
      puts.idxOf op.coord + firstSurrogate⟩
  | .delete | .erase => none

/-- The ops a read of the coordinate at a time sees. -/
def visibleOps (ops : List (ArrayOp Coord Attr)) (coord : Coord) (t : Int) :
    List (ArrayOp Coord Attr) :=
  ops.filter (fun op => op.coord = coord ∧ op.systemFromMs ≤ t)

def latestOp (ops : List (ArrayOp Coord Attr)) (coord : Coord) (t : Int) :
    Option (ArrayOp Coord Attr) :=
  (NewestSort.stable ArrayOp.systemFromMs).newest (visibleOps ops coord t)

/-- The answer of a read, from the ops alone. -/
def readOps (schema : ArraySchema Coord) (puts : List Coord) (ops : List (ArrayOp Coord Attr))
    (coord : Coord) (t : Int) : Except LiteError (Option (CellPayload Attr)) :=
  match schema.tilePrefix coord with
  | .error e => .error (.storage s!"tile_id_for_cell: {e}")
  | .ok _ => .ok ((latestOp ops coord t).bind (fun op => op.value puts))

lemma versionsOf_rows_ops (schema : ArraySchema Coord) (puts : List Coord)
    (ops : List (ArrayOp Coord Attr)) (coord : Coord) (t : Int) :
    versionsOf coord (rowsAsOf t (ops.map (fun op => op.row schema puts)))
      = (visibleOps ops coord t).map (fun op => (op.tile schema, op.cell puts)) := by
  induction ops with
  | nil => rfl
  | cons op ops ih =>
    have hstamp : (op.row schema puts).1.systemFromMs = op.systemFromMs := rfl
    unfold versionsOf rowsAsOf visibleOps at ih ⊢
    rw [List.map_cons, List.filter_cons, List.filter_cons]
    simp only [hstamp, decide_eq_true_eq]
    by_cases ht : op.systemFromMs ≤ t
    · rw [if_pos ht, List.filterMap_cons]
      by_cases hcoord : op.coord = coord
      · simp only [ArrayOp.row, hcoord, ht, and_self, if_true]
        rw [List.map_cons, ← ih]
        rfl
      · simp only [ArrayOp.row, hcoord, false_and, if_false]
        exact ih
    · rw [if_neg ht, if_neg (fun h => ht h.2)]
      exact ih

lemma nodup_visibleOps {ops : List (ArrayOp Coord Attr)}
    (h : ops.Pairwise (fun a b => ¬ SameSlot a b)) (coord : Coord) (t : Int) :
    ((visibleOps ops coord t).map ArrayOp.systemFromMs).Nodup := by
  unfold List.Nodup
  rw [List.pairwise_map]
  have hsub := List.Pairwise.sublist (List.filter_sublist (p := fun op : ArrayOp Coord Attr =>
    decide (op.coord = coord ∧ op.systemFromMs ≤ t))) h
  apply hsub.imp_of_mem
  intro a b ha hb hslot heq
  have ha' := of_decide_eq_true (List.mem_filter.mp ha).2
  have hb' := of_decide_eq_true (List.mem_filter.mp hb).2
  exact hslot ⟨ha'.1.trans hb'.1.symm, heq⟩

omit [LinearOrder Coord] in
lemma payload_version (id : TileId) (cell : Cell Attr) :
    (ceilingResolveCell (some (id, cell))).payload
      = match cell with | .live payload => some payload | _ => none := by
  cases cell <;> rfl

lemma ArrayOp.payload_cell (op : ArrayOp Coord Attr) (id : TileId) (puts : List Coord) :
    (ceilingResolveCell (some (id, op.cell puts))).payload = op.value puts := by
  rw [payload_version]
  unfold ArrayOp.cell ArrayOp.value
  cases op.kind <;> rfl

/-- The engine answers from the ops it was given. -/
theorem Holds.readCoord {name : String} {schema : ArraySchema Coord} {puts : List Coord}
    {ops : List (ArrayOp Coord Attr)} {db plain : ArrayDb Coord Attr}
    (h : Holds name schema puts ops db plain) (env : ArrayEnv Coord Attr) (coord : Coord)
    (t : Int) : db.readCoord env name coord t = readOps schema puts ops coord t := by
  obtain ⟨st, hst, hschema, hretain, _⟩ := h.exists_state
  obtain ⟨twin, htwin, htschema, _, _, hrows⟩ := h.twin
  obtain ⟨_, htiled, segments, hload, hperm⟩ :=
    (h.agree.follows name st twin hst htwin).kept hretain
  unfold ArrayDb.readCoord readOps
  cases hcoord : schema.tilePrefix coord with
  | error e => rw [coordVersions_outside hst (hschema.symm ▸ hcoord)]; rfl
  | ok p =>
    have htiled' : WellTiled st.schema (allRows st segments) :=
      (hschema.trans htschema.symm) ▸ htiled.of_perm hperm.symm
    obtain ⟨vs, hvs, hvsperm⟩ := coordVersions_perm hst hload htiled' (hschema.symm ▸ hcoord) t
    have hops : vs.Perm ((visibleOps ops coord t).map
        (fun op => (op.tile schema, op.cell puts))) := by
      rw [← versionsOf_rows_ops]
      exact hvsperm.trans (versionsOf_perm (rowsAsOf_perm (hperm.trans hrows)))
    have hnodup := nodup_visibleOps h.slots coord t
    have hstamps : (vs.map Version.stamp).Nodup := by
      rw [(hops.map Version.stamp).nodup_iff, List.map_map]
      exact hnodup
    have hnewest := NewestSort.newest_eq_of_perm env.sortUnstable env.sortUnstable hops hstamps
    have hmap := NewestSort.newest_map env.sortUnstable (NewestSort.stable ArrayOp.systemFromMs)
      (f := fun op : ArrayOp Coord Attr => (op.tile schema, op.cell puts)) (fun _ => rfl) hnodup
    rw [hvs]
    change Except.ok (ceilingResolveCell (env.sortUnstable.newest vs)).payload = _
    rw [hnewest, hmap, latestOp]
    cases (NewestSort.stable ArrayOp.systemFromMs).newest (visibleOps ops coord t) with
    | none => rfl
    | some op => exact congrArg Except.ok (op.payload_cell _ puts)

end NodedbLite.Arrays
