import NodedbLite.ColumnarTable
import NodedbLite.ColumnarMutation
import NodedbLite.GuardedRun
import NodedbLite.ExceptFold

/-! Runs of the columnar engine over a storage whose calls succeed, next to the tables its
collections stand for. A table takes every insert, delete and update the engine accepts and
no notice of flushes. -/
namespace NodedbLite.Columnar

open KeyedTable

variable {Schema Row Pk : Type} [DecidableEq Pk] {M : MutationEngine Schema Row Pk}

structure ColumnarSys (M : MutationEngine Schema Row Pk) where
  eng : ColumnarEngine M
  tables : String → KeyedTable Row

inductive ColumnarLabel (Schema Row Pk : Type)
  | create (name : String) (schema : Schema) (profile : ColumnarProfile) (bitemporal : Bool)
  | insert (name : String) (values : Row)
  | delete (name : String) (pk : Pk)
  | update (name : String) (oldPk : Pk) (newValues : Row)
  | flush (name : String) (now : Int)
  | flushAll (now : Int)

namespace ColumnarSys

def init : ColumnarSys M := ⟨.new .empty, fun _ => .empty⟩

/-- Change the table of a collection, by the keys its mutation engine gives the rows. -/
def change (sys : ColumnarSys M) (name : String)
    (f : (Row → Pk) → KeyedTable Row → KeyedTable Row) : String → KeyedTable Row :=
  match sys.eng.collections.get name with
  | none => sys.tables
  | some c => Function.update sys.tables name (f (M.pkOf c.mutation) (sys.tables name))

end ColumnarSys

/-- One call. A refused call leaves everything as it was. -/
def columnarStep (sys : ColumnarSys M) : ColumnarLabel Schema Row Pk → Option (ColumnarSys M)
  | .create name schema profile bitemporal =>
    match sys.eng.createCollection name schema profile bitemporal with
    | .ok eng => some ⟨eng, Function.update sys.tables name .empty⟩
    | .error _ => some sys
  | .insert name values =>
    match sys.eng.insert name values with
    | .ok eng => some ⟨eng, sys.change name (fun keyOf t => t.insert keyOf values)⟩
    | .error _ => some sys
  | .delete name pk =>
    match sys.eng.delete name pk with
    | .ok (true, eng) => some ⟨eng, sys.change name (fun keyOf t => t.remove keyOf pk)⟩
    | .ok (false, _) | .error _ => some sys
  | .update name oldPk newValues =>
    match sys.eng.update name oldPk newValues with
    | .ok (true, eng) =>
      some ⟨eng, sys.change name (fun keyOf t => (t.remove keyOf oldPk).insert keyOf newValues)⟩
    | .ok (false, _) | .error _ => some sys
  | .flush name now => some ⟨(sys.eng.flushCollection now none name).2, sys.tables⟩
  | .flushAll now => some ⟨(sys.eng.flushAll now).2, sys.tables⟩

/-- Every collection keeps its table, and the storage holds what a reopen needs. -/
structure Sound (sys : ColumnarSys M) : Prop where
  keeps : ∀ name c, sys.eng.collections.get name = some c →
    Keeps (sys.eng.storage.loadSegmentBytes name) c (sys.tables name)
  names : ∀ name, name ∈ sys.eng.storage.names ↔ (sys.eng.collections.get name).isSome
  schemas : ∀ name c, sys.eng.collections.get name = some c →
    ∃ schema, sys.eng.storage.schemas.get name = some ⟨schema, c.profile, c.bitemporal⟩
  metas : ∀ name, (sys.eng.storage.metas.get name).getD []
    = ((sys.eng.collections.get name).map (·.segments)).getD []

lemma sound_init : Sound (ColumnarSys.init : ColumnarSys M) := by
  have hget : ∀ name, (ColumnarSys.init : ColumnarSys M).eng.collections.get name = none :=
    fun _ => rfl
  refine ⟨?_, ?_, ?_, ?_⟩
  · intro name c hc
    rw [hget] at hc
    cases hc
  · intro name
    rw [hget]
    simp [ColumnarSys.init, ColumnarEngine.new, Storage.empty]
  · intro name c hc
    rw [hget] at hc
    cases hc
  · intro name
    rw [hget]
    rfl

lemma lookup_eq_ok {eng : ColumnarEngine M} {name : String} {c : CollectionState M} :
    eng.lookup name = .ok c ↔ eng.collections.get name = some c := by
  unfold ColumnarEngine.lookup
  cases eng.collections.get name <;> simp

lemma Sound.replace {sys sys' : ColumnarSys M} (h : Sound sys) {name : String}
    {c : CollectionState M}
    (hget : ∀ other, sys'.eng.collections.get other
      = if other = name then some c else sys.eng.collections.get other)
    (hnames : ∀ other, other ∈ sys'.eng.storage.names
      ↔ other = name ∨ other ∈ sys.eng.storage.names)
    (hothers : ∀ other, other ≠ name →
      sys'.eng.storage.loadSegmentBytes other = sys.eng.storage.loadSegmentBytes other ∧
      sys'.eng.storage.schemas.get other = sys.eng.storage.schemas.get other ∧
      sys'.eng.storage.metas.get other = sys.eng.storage.metas.get other ∧
      sys'.tables other = sys.tables other)
    (hkeeps : Keeps (sys'.eng.storage.loadSegmentBytes name) c (sys'.tables name))
    (hschema : ∃ schema,
      sys'.eng.storage.schemas.get name = some ⟨schema, c.profile, c.bitemporal⟩)
    (hmeta : (sys'.eng.storage.metas.get name).getD [] = c.segments) : Sound sys' := by
  refine ⟨?_, ?_, ?_, ?_⟩
  · intro other d hd
    rw [hget] at hd
    split at hd
    next heq =>
      obtain rfl := Option.some.inj hd
      rw [heq]
      exact hkeeps
    next hne =>
      obtain ⟨hfiles, _, _, htable⟩ := hothers other hne
      rw [hfiles, htable]
      exact h.keeps other d hd
  · intro other
    rw [hget, hnames, h.names]
    split <;> simp_all
  · intro other d hd
    rw [hget] at hd
    split at hd
    next heq =>
      obtain rfl := Option.some.inj hd
      rw [heq]
      exact hschema
    next hne =>
      rw [(hothers other hne).2.1]
      exact h.schemas other d hd
  · intro other
    rw [hget]
    split
    next heq =>
      rw [heq]
      exact hmeta
    next hne =>
      rw [(hothers other hne).2.2.1]
      exact h.metas other

lemma Sound.segments_eq {sys : ColumnarSys M} (h : Sound sys) {name : String}
    {c : CollectionState M} (hc : sys.eng.collections.get name = some c) :
    (sys.eng.storage.metas.get name).getD [] = c.segments := by
  rw [h.metas, hc]
  rfl

lemma Sound.mem_names {sys : ColumnarSys M} (h : Sound sys) {name : String}
    {c : CollectionState M} (hc : sys.eng.collections.get name = some c) (other : String) :
    other ∈ sys.eng.storage.names ↔ other = name ∨ other ∈ sys.eng.storage.names := by
  constructor
  · exact Or.inr
  · rintro (rfl | hmem)
    · exact (h.names _).mpr (by rw [hc]; rfl)
    · exact hmem

lemma ColumnarSys.change_self {sys : ColumnarSys M} {name : String} {c : CollectionState M}
    (hc : sys.eng.collections.get name = some c)
    (f : (Row → Pk) → KeyedTable Row → KeyedTable Row) :
    sys.change name f
      = Function.update sys.tables name (f (M.pkOf c.mutation) (sys.tables name)) := by
  unfold ColumnarSys.change
  rw [hc]

lemma Sound.withMutation {sys : ColumnarSys M} (h : Sound sys) {name : String}
    {c : CollectionState M} (hc : sys.eng.collections.get name = some c) {mutation : M.State}
    {f : (Row → Pk) → KeyedTable Row → KeyedTable Row}
    (hkeeps : Keeps (sys.eng.storage.loadSegmentBytes name) { c with mutation }
      (f (M.pkOf c.mutation) (sys.tables name))) :
    Sound ⟨sys.eng.withCollection name { c with mutation }, sys.change name f⟩ := by
  rw [ColumnarSys.change_self hc]
  apply h.replace
  · intro other
    exact SortedMap.get_insert ..
  · exact h.mem_names hc
  · intro other hne
    exact ⟨rfl, rfl, rfl, Function.update_of_ne hne ..⟩
  · dsimp only
    rw [Function.update_self]
    exact hkeeps
  · exact h.schemas name c hc
  · have hmeta := h.segments_eq hc
    exact hmeta

lemma insert_eq_ok {eng eng' : ColumnarEngine M} {name : String} {values : Row}
    (h : eng.insert name values = .ok eng') :
    ∃ c mutation, eng.collections.get name = some c ∧ M.insert c.mutation values = .ok mutation ∧
      eng' = eng.withCollection name { c with mutation } := by
  obtain ⟨c, hc, hrest⟩ := ExceptFold.bind_eq_ok.mp h
  cases hinsert : M.insert c.mutation values with
  | error e =>
    rw [hinsert] at hrest
    cases hrest
  | ok mutation =>
    rw [hinsert] at hrest
    exact ⟨c, mutation, lookup_eq_ok.mp hc, hinsert, (Except.ok.inj hrest).symm⟩

lemma mutateByPk_eq_true {verb : String} {eng eng' : ColumnarEngine M} {name : String}
    {mutate : M.State → Except ColumnarError M.State}
    (h : ColumnarEngine.mutateByPk verb eng name mutate = .ok (true, eng')) :
    ∃ c mutation, eng.collections.get name = some c ∧ mutate c.mutation = .ok mutation ∧
      eng' = eng.withCollection name { c with mutation } := by
  obtain ⟨c, hc, hrest⟩ := ExceptFold.bind_eq_ok.mp h
  split at hrest
  next => cases hrest
  next =>
    split at hrest
    next mutation hmutate =>
      obtain ⟨_, rfl⟩ := Prod.ext_iff.mp (Except.ok.inj hrest)
      exact ⟨c, mutation, lookup_eq_ok.mp hc, hmutate, rfl⟩
    next => cases hrest
    next => cases hrest

lemma Sound.create {sys : ColumnarSys M} (h : Sound sys) {name : String} {schema : Schema}
    {profile : ColumnarProfile} {bitemporal : Bool} {eng : ColumnarEngine M}
    (hcreate : sys.eng.createCollection name schema profile bitemporal = .ok eng) :
    Sound ⟨eng, Function.update sys.tables name .empty⟩ := by
  unfold ColumnarEngine.createCollection at hcreate
  split at hcreate
  next => cases hcreate
  next habsent =>
    obtain rfl := Except.ok.inj hcreate
    have hnone : sys.eng.collections.get name = none := by simpa using habsent
    apply h.replace
    · intro other
      exact SortedMap.get_insert ..
    · intro other
      rw [List.mem_append, SortedMap.mem_keys, List.mem_singleton, h.names]
      exact or_comm
    · intro other hne
      exact ⟨rfl, by simp [SortedMap.get_insert, hne], rfl, Function.update_of_ne hne ..⟩
    · dsimp only
      rw [Function.update_self]
      exact keeps_new _ schema profile bitemporal
    · exact ⟨schema, by simp [SortedMap.get_insert]⟩
    · refine (h.metas name).trans ?_
      rw [hnone]
      rfl

lemma foldl_putDel (collection : String) (ops : List (Nat × Finset Nat))
    (d : Storage Schema Row) :
    ∃ dels, (ops.map (fun e => Storage.putDel collection e.1 e.2)).foldl
      (fun d write => write d) d = { d with dels } := by
  induction ops generalizing d with
  | nil => exact ⟨d.dels, rfl⟩
  | cons op ops ih =>
    obtain ⟨dels, hdels⟩ := ih (Storage.putDel collection op.1 op.2 d)
    exact ⟨dels, hdels⟩

/-- A flush that comes to its end has written the segment and the metadata list. -/
lemma foldl_writes (payload : FlushPayload Row) (collection : String) (d : Storage Schema Row) :
    ∃ dels, (payload.writes collection).foldl (fun d write => write d) d
      = { d with
          segments := d.segments.insert (toLex (collection, payload.segmentId))
            payload.segmentRows
          metas := d.metas.insert collection payload.metas
          dels } := by
  exact foldl_putDel collection payload.delOps _

lemma loadSegmentBytes_insert {d : Storage Schema Row} {collection name : String}
    {segmentId : Nat} {rows : List Row} {d' : Storage Schema Row}
    (h : d'.segments = d.segments.insert (toLex (collection, segmentId)) rows) :
    d'.loadSegmentBytes name
      = if name = collection then filesWith (d.loadSegmentBytes name) segmentId rows
        else d.loadSegmentBytes name := by
  funext id
  rw [Storage.loadSegmentBytes, h, SortedMap.get_insert]
  split
  next heq =>
    obtain ⟨rfl, rfl⟩ := Prod.ext_iff.mp (toLex.injective heq)
    rw [if_pos rfl]
    exact (if_pos rfl).symm
  next hne =>
    split
    next heq =>
      have hid : id ≠ segmentId := fun hid => hne (by rw [heq, hid])
      rw [filesWith_of_ne hid]
      rfl
    next => rfl

lemma flushCollection_ok {eng : ColumnarEngine M} {name : String} {c : CollectionState M}
    (hc : eng.collections.get name = some c) (now : Int) :
    (M.memtable c.mutation = [] ∧ eng.flushCollection now none name = (.ok (), eng)) ∨
    ∃ dels, eng.flushCollection now none name = (.ok (),
      { eng.withCollection name (c.drain now).2 with
        storage := { eng.storage with
          segments := eng.storage.segments.insert (toLex (name, c.nextSegmentId))
            (M.memtable c.mutation)
          metas := eng.storage.metas.insert name (c.drain now).2.segments
          dels } }) := by
  unfold ColumnarEngine.flushCollection
  rw [lookup_eq_ok.mpr hc]
  dsimp only
  split
  next hempty => exact .inl ⟨hempty, rfl⟩
  next =>
    rw [CallBudget.perform_none]
    obtain ⟨dels, hdels⟩ := foldl_writes (c.drain now).1 name eng.storage
    exact .inr ⟨dels, by rw [hdels]; rfl⟩

lemma flushCollection_missing {eng : ColumnarEngine M} {name : String}
    (hc : eng.collections.get name = none) (now : Int) (budget : CallBudget) :
    eng.flushCollection now budget name
      = (.error (.collectionNotFound "columnar" name), eng) := by
  unfold ColumnarEngine.flushCollection ColumnarEngine.lookup
  rw [hc]

lemma Sound.flush {sys : ColumnarSys M} (h : Sound sys) (now : Int) (name : String) :
    Sound ⟨(sys.eng.flushCollection now none name).2, sys.tables⟩ := by
  cases hc : sys.eng.collections.get name with
  | none =>
    rw [flushCollection_missing hc]
    exact h
  | some c =>
    rcases flushCollection_ok hc now with ⟨_, heq⟩ | ⟨dels, heq⟩
    · rw [heq]
      exact h
    · rw [heq]
      have hkeeps := (h.keeps name c hc).drain now
      apply h.replace
      · intro other
        exact SortedMap.get_insert ..
      · exact h.mem_names hc
      · intro other hne
        refine ⟨?_, rfl, ?_, rfl⟩
        · rw [loadSegmentBytes_insert rfl, if_neg hne]
        · simp [SortedMap.get_insert, hne]
      · rw [loadSegmentBytes_insert rfl, if_pos rfl]
        exact hkeeps
      · exact h.schemas name c hc
      · simp [SortedMap.get_insert]

lemma Sound.flushNames {sys : ColumnarSys M} (h : Sound sys) (now : Int) (names : List String) :
    Sound ⟨(ColumnarEngine.flushNames now names sys.eng).2, sys.tables⟩ := by
  induction names generalizing sys with
  | nil => exact h
  | cons name names ih =>
    have hflush := h.flush now name
    unfold ColumnarEngine.flushNames
    split
    next eng' heq =>
      rw [heq] at hflush
      exact ih hflush
    next e eng' heq =>
      rw [heq] at hflush
      exact hflush

/-- Every call keeps the tables. -/
lemma sound_columnarStep {sys sys' : ColumnarSys M} {label : ColumnarLabel Schema Row Pk}
    (h : Sound sys) (hstep : columnarStep sys label = some sys') : Sound sys' := by
  cases label with
  | create name schema profile bitemporal =>
    unfold columnarStep at hstep
    dsimp only at hstep
    split at hstep
    next eng hcreate =>
      obtain rfl := Option.some.inj hstep
      exact h.create hcreate
    next =>
      obtain rfl := Option.some.inj hstep
      exact h
  | insert name values =>
    unfold columnarStep at hstep
    dsimp only at hstep
    split at hstep
    next eng hinsert =>
      obtain rfl := Option.some.inj hstep
      obtain ⟨c, mutation, hc, hmutation, rfl⟩ := insert_eq_ok hinsert
      exact h.withMutation hc ((h.keeps name c hc).insert hmutation)
    next =>
      obtain rfl := Option.some.inj hstep
      exact h
  | delete name pk =>
    unfold columnarStep at hstep
    dsimp only at hstep
    split at hstep
    next eng hdelete =>
      obtain rfl := Option.some.inj hstep
      obtain ⟨c, mutation, hc, hmutation, rfl⟩ := mutateByPk_eq_true hdelete
      exact h.withMutation hc ((h.keeps name c hc).delete hmutation)
    all_goals
      obtain rfl := Option.some.inj hstep
      exact h
  | update name oldPk newValues =>
    unfold columnarStep at hstep
    dsimp only at hstep
    split at hstep
    next eng hupdate =>
      obtain rfl := Option.some.inj hstep
      obtain ⟨c, mutation, hc, hmutation, rfl⟩ := mutateByPk_eq_true hupdate
      exact h.withMutation hc ((h.keeps name c hc).update hmutation)
    all_goals
      obtain rfl := Option.some.inj hstep
      exact h
  | flush name now =>
    obtain rfl := Option.some.inj hstep
    exact h.flush now name
  | flushAll now =>
    obtain rfl := Option.some.inj hstep
    exact h.flushNames now _

/-- The states the engine reaches from an empty storage. -/
abbrev ColumnarReaches (sys : ColumnarSys M) : Prop :=
  GuardedRun.Reaches columnarStep (fun _ _ => True) .init sys

lemma ColumnarReaches.sound {sys : ColumnarSys M} (h : ColumnarReaches sys) : Sound sys :=
  h.invariant sound_init (fun _ _ _ hs _ hstep => sound_columnarStep hs hstep)

end NodedbLite.Columnar
