import NodedbLite.StrictTuples
import NodedbLite.StorageViews

/-! What the row writes of a strict collection leave: rows of the strict namespace come from the
committed operations alone, since index entries and versions go to other namespaces. -/
namespace NodedbLite.Strict

open Storage

variable {T : Type} {env : StrictEnv T} {c : String}

section Namespaces

variable {t t' : Tree} {ns ns' : Namespace} {key key' value : Bytes}

lemma getRows_putRows_of_ne (h : ns ≠ ns' ∨ key ≠ key') :
    getRows (putRows t ns' key' value) ns key = getRows t ns key := by
  refine (SortedMap.get_insert ..).trans (if_neg ?_)
  intro heq
  obtain ⟨hns, hkey⟩ := prefixKey_inj.mp heq
  exact h.elim (fun hne => hne hns) (fun hne => hne hkey)

lemma lastWrite_entries (entries : List EntryWrite) (h : ns ≠ env.metadata) :
    SortedMap.lastWrite ((entries.map (EntryWrite.op env)).map WriteOp.composite) (prefixKey ns key)
      = none := by
  rw [SortedMap.lastWrite_eq_none_iff]
  intro w hw heq
  obtain ⟨op, hop, rfl⟩ := List.mem_map.mp hw
  obtain ⟨entry, -, rfl⟩ := List.mem_map.mp hop
  cases entry with
  | put key' => exact h (prefixKey_inj.mp heq).1.symm
  | delete key' => exact h (prefixKey_inj.mp heq).1.symm

lemma getRows_commit {ops : List WriteOp} (h : commit env t c ops = .ok t') (hns : ns ≠ env.metadata) :
    getRows t' ns key = (SortedMap.lastWrite (ops.map WriteOp.composite) (prefixKey ns key)).getD
      (getRows t ns key) := by
  unfold commit at h
  cases hentries : env.entries t c ops with
  | error err => rw [hentries] at h; cases h
  | ok entries =>
    rw [hentries] at h
    obtain rfl := Except.ok.inj h
    rw [getRows_batchWriteRows, List.map_append, SortedMap.lastWrite_append,
      lastWrite_entries entries hns]
    rfl

lemma foldl_putRows_of_ne {α : Type} (k v : α → Bytes) (l : List α) (t : Tree) (h : ns ≠ ns') :
    getRows (l.foldl (fun t a => putRows t ns' (k a) (v a)) t) ns key = getRows t ns key := by
  induction l generalizing t with
  | nil => rfl
  | cons a l ih => rw [List.foldl_cons, ih, getRows_putRows_of_ne (.inl h)]

end Namespaces

section Versions

variable (t : Tree) (key : Bytes)

lemma getRows_recordBirths (rows : List (List Value × (Bytes × Bytes))) :
    getRows (StrictEngine.recordBirths env t c rows) env.strict key = getRows t env.strict key :=
  foldl_putRows_of_ne _ _ rows t env.strict_ne

lemma getRows_supersede (now : Int) (moves : List StrictEngine.Move) :
    getRows (StrictEngine.supersede env t c now moves) env.strict key = getRows t env.strict key :=
  foldl_putRows_of_ne _ _ moves t env.strict_ne

lemma getRows_bear (now : Int) (moves : List StrictEngine.Move) :
    getRows (StrictEngine.bear env t c now moves) env.strict key = getRows t env.strict key :=
  foldl_putRows_of_ne _ _ moves t env.strict_ne

end Versions

namespace StrictEngine

variable {e e' : StrictEngine T}

lemma getState_eq_ok {st : CollectionState T} :
    e.getState c = .ok st ↔ e.collections.get c = some st := by
  unfold getState
  cases e.collections.get c <;> simp

lemma getState_of_get {st : CollectionState T} (h : e.collections.get c = some st) :
    e.getState c = .ok st := getState_eq_ok.mpr h

section Inversion

variable {st : CollectionState T} (hst : e.collections.get c = some st)

include hst

lemma insertRows_eq_ok {rows : List (List Value)} (h : e.insertRows env c rows = .ok e') :
    ∃ planned t, e.planInserts env st c rows [] = .ok planned ∧
      commit env e.tree c (planned.map (putOp env)) = .ok t ∧
      e' = { e with tree :=
        if st.schema.bitemporal then recordBirths env t c (rows.zip planned) else t } := by
  unfold insertRows at h
  rw [getState_of_get hst] at h
  obtain ⟨_, ⟨⟩, h⟩ := ExceptFold.bind_eq_ok.mp h
  obtain ⟨planned, hplan, hrest⟩ := ExceptFold.bind_eq_ok.mp h
  obtain ⟨t, hcommit, hout⟩ := ExceptFold.bind_eq_ok.mp hrest
  exact ⟨planned, t, hplan, hcommit, (Except.ok.inj hout).symm⟩

lemma insertBatch_eq_ok {rows : List (List Value)} (h : e.insertBatch env c rows = .ok e') :
    ∃ planned t, rows.mapM (encodeRow env st c) = .ok planned ∧
      commit env e.tree c (planned.map (putOp env)) = .ok t ∧ e' = { e with tree := t } := by
  unfold insertBatch at h
  rw [getState_of_get hst] at h
  obtain ⟨_, ⟨⟩, h⟩ := ExceptFold.bind_eq_ok.mp h
  obtain ⟨planned, hplan, hrest⟩ := ExceptFold.bind_eq_ok.mp h
  obtain ⟨t, hcommit, hout⟩ := ExceptFold.bind_eq_ok.mp hrest
  exact ⟨planned, t, hplan, hcommit, (Except.ok.inj hout).symm⟩

/-- The old versions are closed before the commit. -/
def closedTree (env : StrictEnv T) (e : StrictEngine T) (c : String) (st : CollectionState T)
    (now : Int) (moves : List Move) : Tree :=
  if st.schema.bitemporal then supersede env e.tree c now moves else e.tree

/-- The new versions are opened after it. -/
def bornTree (env : StrictEnv T) (c : String) (st : CollectionState T) (now : Int)
    (moves : List Move) (t : Tree) : Tree :=
  if st.schema.bitemporal then bear env t c now moves else t

/-- The planned moves of an update. -/
def planUpdates (env : StrictEnv T) (e : StrictEngine T) (st : CollectionState T) (c : String)
    (changes : List (Value × SortedMap String Value)) : Except LiteError (List Move) :=
  (changes.mapM (e.planUpdate env st c)).map (·.filterMap id)

lemma updateMany_eq (changes : List (Value × SortedMap String Value)) (now : Int) :
    e.updateMany env c changes now =
      match planUpdates env e st c changes with
      | .error err => (e, .error err)
      | .ok moves =>
        match commit env (closedTree env e c st now moves) c (moves.flatMap (Move.ops env)) with
        | .error err => ({ e with tree := closedTree env e c st now moves }, .error err)
        | .ok t => ({ e with tree := bornTree env c st now moves t }, .ok moves.length) := by
  unfold updateMany planUpdates
  rw [getState_of_get hst]
  simp only [bind, Except.bind]
  cases changes.mapM (e.planUpdate env st c) <;> rfl

lemma updateByValues_eq_ok {pk : Value} {values : List Value} {out : StrictEngine T × Bool}
    (h : e.updateByValues env c pk values = .ok out) : out = (e, false) ∨
      ∃ tuple t, env.encode st.schema values = .ok tuple ∧
        commit env e.tree c [.put env.strict (CollectionState.storageKeyFromPk c pk) tuple] = .ok t ∧
        out = ({ e with tree := t }, true) := by
  unfold updateByValues at h
  rw [getState_of_get hst] at h
  change (if _ then _ else _ : Except LiteError (StrictEngine T × Bool)) = .ok out at h
  split at h
  · exact .inl (Except.ok.inj h).symm
  · obtain ⟨tuple, htuple, hrest⟩ := ExceptFold.bind_eq_ok.mp h
    obtain ⟨t, hcommit, hout⟩ := ExceptFold.bind_eq_ok.mp hrest
    cases hencode : env.encode st.schema values with
    | error err => rw [hencode] at htuple; cases htuple
    | ok tuple' =>
      rw [hencode] at htuple
      obtain rfl := Except.ok.inj htuple
      exact .inr ⟨_, t, rfl, hcommit, (Except.ok.inj hout).symm⟩

lemma delete_eq (pk : Value) (now : Int) :
    e.delete env c pk now =
      match getRows e.tree env.strict (CollectionState.storageKeyFromPk c pk) with
      | none => (e, .ok false)
      | some oldTuple =>
        let closed :=
          if st.schema.bitemporal then
            recordHistorySupersession env e.tree c
              (keySuffix c (CollectionState.storageKeyFromPk c pk)) oldTuple now
          else e.tree
        match commit env closed c
            [.delete env.strict (CollectionState.storageKeyFromPk c pk)] with
        | .error err => ({ e with tree := closed }, .error err)
        | .ok t => ({ e with tree := t }, .ok true) := by
  have hstate := getState_of_get hst
  unfold delete
  generalize e.getState c = state at hstate ⊢
  subst hstate
  rfl

end Inversion

end StrictEngine

end NodedbLite.Strict
