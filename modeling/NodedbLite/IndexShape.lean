import NodedbLite.IndexSystem

/-! The shape every catalog state has: definitions are filed under their own names, every entry
belongs to a defined index, and the postings are the entries sorted by the document they parse
to. Beside it, for each operation, the writes it marks. -/
namespace NodedbLite.Index

open Query (Value)

variable {Predicate : Type} {A : IndexApi Predicate}

namespace IndexState

section Marking

variable (s : IndexState Predicate) (k : Bytes) (v : Option Bytes)

@[simp] lemma mark_defs : (s.mark k v).defs = s.defs := by unfold mark; split <;> rfl

@[simp] lemma mark_entries : (s.mark k v).entries = s.entries := by unfold mark; split <;> rfl

@[simp] lemma mark_postings : (s.mark k v).postings = s.postings := by unfold mark; split <;> rfl

@[simp] lemma mark_tombstoned : (s.mark k v).tombstoned = s.tombstoned := by
  unfold mark; split <;> rfl

end Marking

/-- Mark a list of writes in order. -/
def markAll (s : IndexState Predicate) (ops : List WriteOp) : IndexState Predicate :=
  ops.foldl (fun s op => s.mark op.key op.value) s

/-- `t` differs from `s`, as far as marks and collected writes go, by marking `ops`. -/
structure Marks (s t : IndexState Predicate) (ops : List WriteOp) : Prop where
  pending : t.pending = (s.markAll ops).pending
  sink : t.sink = (s.markAll ops).sink

variable {s t u : IndexState Predicate} {ops us : List WriteOp} {k : Bytes}

lemma toWrite_key_value (op : WriteOp) : WriteBehind.toWrite op.key op.value = op := by
  cases op <;> rfl

lemma mark_congr (hp : t.pending = s.pending) (hs : t.sink = s.sink) (k : Bytes)
    (v : Option Bytes) :
    (t.mark k v).pending = (s.mark k v).pending ∧ (t.mark k v).sink = (s.mark k v).sink := by
  unfold mark
  rw [hs]
  split
  · exact ⟨hp, rfl⟩
  · exact ⟨by rw [hp], rfl⟩

lemma Marks.refl : Marks s s [] := ⟨rfl, rfl⟩

lemma Marks.concat (h : Marks s t ops) {k : Bytes} {v : Option Bytes}
    (hu : u.pending = (t.mark k v).pending ∧ u.sink = (t.mark k v).sink) :
    Marks s u (ops ++ [WriteBehind.toWrite k v]) := by
  have hc := mark_congr h.pending h.sink k v
  have hall : s.markAll (ops ++ [WriteBehind.toWrite k v]) = (s.markAll ops).mark k v := by
    simp [markAll, List.foldl_append]
  exact ⟨hu.1.trans (hall ▸ hc.1), hu.2.trans (hall ▸ hc.2)⟩

lemma markAll_congr (hp : t.pending = s.pending) (hs : t.sink = s.sink) (ops : List WriteOp) :
    Marks s (t.markAll ops) ops := by
  induction ops using List.reverseRecOn with
  | nil => exact ⟨hp, hs⟩
  | append_singleton ops op ih =>
    have h := ih.concat (mark_congr rfl rfl op.key op.value)
    simpa only [markAll, List.foldl_append, List.foldl_cons, List.foldl_nil,
      toWrite_key_value] using h

lemma Marks.trans (h : Marks s t ops) (g : Marks t u us) : Marks s u (ops ++ us) := by
  have hc := markAll_congr h.pending h.sink us
  have hall : s.markAll (ops ++ us) = (s.markAll ops).markAll us := List.foldl_append
  exact ⟨g.pending.trans (hall ▸ hc.pending), g.sink.trans (hall ▸ hc.sink)⟩

lemma markAll_of_sink {out : List WriteOp} (h : s.sink = some out) (ops : List WriteOp) :
    (s.markAll ops).sink = some (out ++ ops) ∧ (s.markAll ops).pending = s.pending := by
  induction ops generalizing s out with
  | nil => exact ⟨by simpa [markAll] using h, rfl⟩
  | cons op ops ih =>
    have hone : s.mark op.key op.value = { s with sink := some (out ++ [op]) } := by
      simp only [mark, h, toWrite_key_value]
    obtain ⟨hs, hp⟩ := ih (s := s.mark op.key op.value) (congrArg IndexState.sink hone)
    rw [List.append_assoc] at hs
    exact ⟨hs, hp.trans (by rw [hone])⟩

lemma markAll_of_no_sink (h : s.sink = none) (ops : List WriteOp) :
    (s.markAll ops).sink = none ∧ (s.markAll ops).pending = s.pending.markAll ops := by
  induction ops generalizing s with
  | nil => exact ⟨h, rfl⟩
  | cons op ops ih =>
    have hone : s.mark op.key op.value = { s with pending := s.pending.mark op.key op.value } := by
      simp only [mark, h]
    obtain ⟨hs, hp⟩ := ih (s := s.mark op.key op.value) (by rw [hone]; exact h)
    exact ⟨hs, hp.trans (by rw [hone]; rfl)⟩

lemma dirty_markAll_of_ne (h : ∀ op ∈ ops, op.key ≠ k) :
    (s.markAll ops).pending.dirty.get k = s.pending.dirty.get k := by
  induction ops generalizing s with
  | nil => rfl
  | cons op ops ih =>
    rw [markAll, List.foldl_cons]
    refine (ih (fun o ho => h o (List.mem_cons_of_mem _ ho))).trans ?_
    have hne : k ≠ op.key := (h op List.mem_cons_self).symm
    unfold mark
    split
    · rfl
    · exact WriteBehind.dirty_mark_of_ne _ hne

lemma Marks.dirty_of_ne (h : Marks s t ops) (hk : ∀ op ∈ ops, op.key ≠ k) :
    t.pending.dirty.get k = s.pending.dirty.get k := h.pending ▸ dirty_markAll_of_ne hk

section Operations

lemma applyOne_defs (doc : String × String) (op : IndexWriteOp) :
    (applyOne doc s op).defs = s.defs := by cases op <;> simp [applyOne]

lemma applyOne_tombstoned (doc : String × String) (op : IndexWriteOp) :
    (applyOne doc s op).tombstoned = s.tombstoned := by cases op <;> simp [applyOne]

@[simp] lemma apply_defs (c id : String) (ops : List IndexWriteOp) :
    (s.apply c id ops).defs = s.defs := by
  induction ops generalizing s with
  | nil => rfl
  | cons op ops ih => exact ih.trans (applyOne_defs (c, id) op)

@[simp] lemma apply_tombstoned (c id : String) (ops : List IndexWriteOp) :
    (s.apply c id ops).tombstoned = s.tombstoned := by
  induction ops generalizing s with
  | nil => rfl
  | cons op ops ih => exact ih.trans (applyOne_tombstoned (c, id) op)

/-- An entry is held after a list of changes as its last change says, or as before. -/
lemma mem_entries_apply (c id : String) (ops : List IndexWriteOp) :
    k ∈ (s.apply c id ops).entries ↔
      match SortedMap.lastWrite (ops.map IndexWriteOp.toWrite) k with
      | some v => v.isSome
      | none => k ∈ s.entries := by
  induction ops using List.reverseRecOn with
  | nil => rfl
  | append_singleton ops op ih =>
    have happly : s.apply c id (ops ++ [op]) = applyOne (c, id) (s.apply c id ops) op := by
      simp [apply, List.foldl_append]
    rw [happly, List.map_append, List.map_cons, List.map_nil, SortedMap.lastWrite_concat]
    cases op with
    | put e =>
      by_cases hk : k = e
      · simp [applyOne, IndexWriteOp.toWrite, SortedMap.Write.key, SortedMap.Write.value, hk]
      · simpa [applyOne, IndexWriteOp.toWrite, SortedMap.Write.key, hk, Ne.symm hk] using ih
    | delete e =>
      by_cases hk : k = e
      · simp [applyOne, IndexWriteOp.toWrite, SortedMap.Write.key, SortedMap.Write.value, hk]
      · simpa [applyOne, IndexWriteOp.toWrite, SortedMap.Write.key, hk, Ne.symm hk] using ih

@[simp] lemma clearOne_defs (e : Bytes) : (s.clearOne e).defs = s.defs := by simp [clearOne]

@[simp] lemma clearOne_entries (e : Bytes) : (s.clearOne e).entries = s.entries.remove e := by
  simp [clearOne]

@[simp] lemma clearOne_tombstoned (e : Bytes) : (s.clearOne e).tombstoned = s.tombstoned := by
  simp [clearOne]

lemma foldl_clearOne_defs (es : List Bytes) : (es.foldl clearOne s).defs = s.defs := by
  induction es generalizing s with
  | nil => rfl
  | cons e es ih => exact ih.trans (clearOne_defs e)

lemma foldl_clearOne_tombstoned (es : List Bytes) :
    (es.foldl clearOne s).tombstoned = s.tombstoned := by
  induction es generalizing s with
  | nil => rfl
  | cons e es ih => exact ih.trans (clearOne_tombstoned e)

lemma mem_entries_foldl_clearOne (es : List Bytes) :
    k ∈ (es.foldl clearOne s).entries ↔ k ∈ s.entries ∧ k ∉ es := by
  induction es generalizing s with
  | nil => simp
  | cons e es ih =>
    rw [List.foldl_cons, ih, clearOne_entries, SortedSet.mem_remove, List.mem_cons]
    tauto

lemma marks_foldl_clearOne (es : List Bytes) :
    Marks s (es.foldl clearOne s) (es.map .delete) := by
  induction es using List.reverseRecOn with
  | nil => exact Marks.refl
  | append_singleton es e ih =>
    rw [List.foldl_append, List.map_append]
    refine ih.concat (k := e) (v := none) ?_
    exact mark_congr (by rfl) (by rfl) e none

lemma foldl_clearOne_withDefs (es : List Bytes) (m : SortedMap String (IndexDef Predicate)) :
    es.foldl clearOne { s with defs := m } = { es.foldl clearOne s with defs := m } := by
  induction es generalizing s with
  | nil => rfl
  | cons e es ih =>
    have hone : clearOne { s with defs := m } e = { s.clearOne e with defs := m } := by
      simp only [clearOne, mark, postingRemove]
      cases s.sink <;> rfl
    rw [List.foldl_cons, hone]
    exact ih

lemma clearPrefix_withDefs (head : Bytes) (m : SortedMap String (IndexDef Predicate)) :
    { s with defs := m }.clearPrefix head = { s.clearPrefix head with defs := m } :=
  foldl_clearOne_withDefs _ m

@[simp] lemma clearPrefix_defs (head : Bytes) : (s.clearPrefix head).defs = s.defs :=
  foldl_clearOne_defs _

@[simp] lemma clearPrefix_tombstoned (head : Bytes) :
    (s.clearPrefix head).tombstoned = s.tombstoned := foldl_clearOne_tombstoned _

@[simp] lemma mem_entries_clearPrefix {head : Bytes} :
    k ∈ (s.clearPrefix head).entries ↔ k ∈ s.entries ∧ ¬ head <+: k := by
  rw [clearPrefix, mem_entries_foldl_clearOne, SortedSet.mem_under]
  tauto

lemma marks_clearPrefix (s : IndexState Predicate) (head : Bytes) :
    Marks s (s.clearPrefix head) ((s.entries.under head).map .delete) := marks_foldl_clearOne _

@[simp] lemma putDef_defs (d : IndexDef Predicate) :
    (s.putDef A d).defs = s.defs.insert d.name d := rfl

@[simp] lemma putDef_entries (d : IndexDef Predicate) : (s.putDef A d).entries = s.entries :=
  mark_entries _ _ _

@[simp] lemma putDef_postings (d : IndexDef Predicate) : (s.putDef A d).postings = s.postings :=
  mark_postings _ _ _

@[simp] lemma putDef_tombstoned (d : IndexDef Predicate) :
    (s.putDef A d).tombstoned = s.tombstoned := mark_tombstoned _ _ _

lemma marks_putDef (s : IndexState Predicate) (d : IndexDef Predicate) :
    Marks s (s.putDef A d) [.put d.key (A.encodeDef d)] := by
  refine Marks.refl.concat (k := d.key) (v := some (A.encodeDef d)) ?_
  exact ⟨rfl, rfl⟩

lemma removeDef_of_none {name : String} (h : s.defs.get name = none) : s.removeDef name = s := by
  simp only [removeDef, h]

lemma removeDef_of_some {name : String} {d : IndexDef Predicate} (h : s.defs.get name = some d) :
    s.removeDef name =
      ({ s with defs := s.defs.erase name }.clearPrefix d.entryPrefix).mark d.key none := by
  simp only [removeDef, h]

lemma marks_removeDef {name : String} {d : IndexDef Predicate} (h : s.defs.get name = some d) :
    Marks s (s.removeDef name)
      ((s.entries.under d.entryPrefix).map .delete ++ [.delete d.key]) := by
  rw [removeDef_of_some h]
  have hclear := marks_clearPrefix { s with defs := s.defs.erase name } d.entryPrefix
  have hfrom : Marks s ({ s with defs := s.defs.erase name }.clearPrefix d.entryPrefix)
      ((s.entries.under d.entryPrefix).map .delete) := by
    have hstart : Marks s { s with defs := s.defs.erase name } [] := ⟨rfl, rfl⟩
    exact hstart.trans hclear
  exact hfrom.concat (mark_congr rfl rfl d.key none)

lemma mem_entries_removeDef {name : String} {d : IndexDef Predicate}
    (h : s.defs.get name = some d) :
    k ∈ (s.removeDef name).entries ↔ k ∈ s.entries ∧ ¬ d.entryPrefix <+: k := by
  rw [removeDef_of_some h, mark_entries, mem_entries_clearPrefix]

lemma removeDef_defs {name : String} (h : (s.defs.get name).isSome) :
    (s.removeDef name).defs = s.defs.erase name := by
  obtain ⟨d, hd⟩ := Option.isSome_iff_exists.mp h
  rw [removeDef_of_some hd, mark_defs, clearPrefix_defs]

lemma removeDef_tombstoned {name : String} : (s.removeDef name).tombstoned = s.tombstoned := by
  cases h : s.defs.get name with
  | none => rw [removeDef_of_none h]
  | some d => rw [removeDef_of_some h, mark_tombstoned, clearPrefix_tombstoned]

end Operations

/-- What holds of every catalog state. -/
structure WellFormed (s : IndexState Predicate) : Prop where
  named : ∀ {n d}, s.defs.get n = some d → d.name = n
  owned : ∀ {k}, k ∈ s.entries → ∃ d id, s.defs.get d.name = some d ∧ EntryOf d id k
  posted : ∀ c id k, k ∈ s.postings (c, id) ↔ k ∈ s.entries ∧ parseEntry k = some ⟨c, id⟩

lemma wellFormed_empty : WellFormed (empty : IndexState Predicate) where
  named h := by simp [empty] at h
  owned h := absurd h (SortedSet.notMem_empty _)
  posted _ _ k := iff_of_false (SortedSet.notMem_empty k) (fun h => SortedSet.notMem_empty k h.1)

lemma WellFormed.congr (h : WellFormed s) (hd : t.defs = s.defs) (he : t.entries = s.entries)
    (hp : t.postings = s.postings) : WellFormed t where
  named hn := h.named (hd ▸ hn)
  owned hk := by
    obtain ⟨d, id, hget, hof⟩ := h.owned (he ▸ hk)
    exact ⟨d, id, hd ▸ hget, hof⟩
  posted c id k := by rw [he, hp]; exact h.posted c id k

lemma WellFormed.mark (h : WellFormed s) (k : Bytes) (v : Option Bytes) : WellFormed (s.mark k v) :=
  h.congr (mark_defs s k v) (mark_entries s k v) (mark_postings s k v)

lemma WellFormed.inEntries (h : WellFormed s) (hk : k ∈ s.entries) : entriesPrefix <+: k := by
  obtain ⟨d, id, -, hof⟩ := h.owned hk
  exact hof.inEntries

lemma WellFormed.mem_defList (h : WellFormed s) {d : IndexDef Predicate} :
    d ∈ s.defList ↔ s.defs.get d.name = some d := by
  rw [defList, List.mem_map]
  constructor
  · rintro ⟨⟨n, e⟩, he, rfl⟩
    have hget := SortedMap.get_eq_some_iff.mpr he
    rwa [h.named hget]
  · intro hget
    exact ⟨(d.name, d), SortedMap.get_eq_some_iff.mp hget, rfl⟩

lemma WellFormed.mem_defsOf (h : WellFormed s) {d : IndexDef Predicate} {c : String} :
    d ∈ s.defsOf c ↔ s.defs.get d.name = some d ∧ d.collection = c := by
  rw [defsOf, List.mem_filter, h.mem_defList, decide_eq_true_iff]

lemma WellFormed.mem_defsOn (h : WellFormed s) {d : IndexDef Predicate} {c : String}
    {e : IndexEngine} :
    d ∈ s.defsOn c e ↔ s.defs.get d.name = some d ∧ d.collection = c ∧ d.engine = e := by
  rw [defsOn, List.mem_filter, h.mem_defList, decide_eq_true_iff]

lemma WellFormed.nodup_names (h : WellFormed s) : (s.defList.map IndexDef.name).Nodup := by
  have hnames : s.defList.map IndexDef.name = s.defs.keys := by
    rw [defList, List.map_map, SortedMap.keys]
    refine List.map_congr_left (fun e he => h.named ?_)
    exact SortedMap.get_eq_some_iff.mpr he
  exact hnames ▸ s.defs.keys_nodup

lemma WellFormed.nodup_defsOf (h : WellFormed s) (c : String) :
    ((s.defsOf c).map IndexDef.name).Nodup :=
  h.nodup_names.sublist (List.filter_sublist.map _)

/-- An entry change made for document `id` of collection `c`: a put of a key of a defined index, a
delete of a key that parses to the document. -/
def OpFits (s : IndexState Predicate) (c id : String) : IndexWriteOp → Prop
  | .put e => ∃ d, s.defs.get d.name = some d ∧ d.collection = c ∧ EntryOf d id e
  | .delete e => parseEntry e = some ⟨c, id⟩

lemma WellFormed.applyOne (h : WellFormed s) {c id : String} {op : IndexWriteOp}
    (hop : OpFits s c id op) : WellFormed (applyOne (c, id) s op) := by
  cases op with
  | put e =>
    obtain ⟨d, hd, rfl, hof⟩ := hop
    apply WellFormed.mark
    refine ⟨fun hn => h.named hn, fun {k} hk => ?_, fun c' id' k => ?_⟩
    · rcases SortedSet.mem_add.mp hk with rfl | hk
      · exact ⟨d, id, hd, hof⟩
      · exact h.owned hk
    · change k ∈ Function.update s.postings (d.collection, id) _ (c', id') ↔ k ∈ s.entries.add e ∧ _
      rw [SortedSet.mem_add]
      by_cases hdoc : (c', id') = (d.collection, id)
      · obtain ⟨rfl, rfl⟩ := Prod.mk.inj hdoc
        rw [Function.update_self, SortedSet.mem_add, h.posted]
        constructor
        · rintro (rfl | hk)
          · exact ⟨.inl rfl, hof.parse⟩
          · exact ⟨.inr hk.1, hk.2⟩
        · rintro ⟨hk | hk, hp⟩
          · exact .inl hk
          · exact .inr ⟨hk, hp⟩
      · rw [Function.update_of_ne hdoc, h.posted]
        refine and_congr_left (fun hp => ⟨.inr, ?_⟩)
        rintro (rfl | hk)
        · -- The new key parses to the document written, which is another one.
          have hsame := Option.some.inj (hof.parse.symm.trans hp)
          rw [ParsedEntry.mk.injEq] at hsame
          exact absurd (Prod.ext hsame.1.symm hsame.2.symm) hdoc
        · exact hk
  | delete e =>
    apply WellFormed.mark
    refine ⟨fun hn => h.named hn, fun {k} hk => h.owned (SortedSet.mem_remove.mp hk).2,
      fun c' id' k => ?_⟩
    change k ∈ Function.update s.postings (c, id) _ (c', id') ↔ k ∈ s.entries.remove e ∧ _
    rw [SortedSet.mem_remove]
    by_cases hdoc : (c', id') = (c, id)
    · obtain ⟨rfl, rfl⟩ := Prod.mk.inj hdoc
      rw [Function.update_self, SortedSet.mem_remove, h.posted, and_assoc]
    · rw [Function.update_of_ne hdoc, h.posted]
      refine and_congr_left (fun hp => ⟨fun hk => ⟨?_, hk⟩, fun hk => hk.2⟩)
      rintro rfl
      have hsame := Option.some.inj (Eq.trans (Eq.symm hop) hp)
      rw [ParsedEntry.mk.injEq] at hsame
      exact hdoc (Prod.ext hsame.1.symm hsame.2.symm)

lemma WellFormed.apply (h : WellFormed s) {c id : String} {ops : List IndexWriteOp}
    (hops : ∀ op ∈ ops, OpFits s c id op) : WellFormed (s.apply c id ops) := by
  induction ops generalizing s with
  | nil => exact h
  | cons op ops ih =>
    refine ih (h.applyOne (hops op List.mem_cons_self)) (fun o ho => ?_)
    have hfit := hops o (List.mem_cons_of_mem _ ho)
    cases o with
    | put e => rwa [OpFits, applyOne_defs]
    | delete e => exact hfit

lemma WellFormed.clearOne (h : WellFormed s) (e : Bytes) : WellFormed (s.clearOne e) := by
  apply WellFormed.mark
  refine ⟨fun hn => h.named hn, fun {k} hk => h.owned (SortedSet.mem_remove.mp hk).2,
    fun c id k => ?_⟩
  dsimp only
  rw [SortedSet.mem_remove]
  have hother : parseEntry e ≠ some ⟨c, id⟩ →
      (k ∈ s.postings (c, id) ↔ (k ≠ e ∧ k ∈ s.entries) ∧ parseEntry k = some ⟨c, id⟩) := by
    intro hne
    rw [h.posted]
    refine and_congr_left (fun hp => ⟨fun hk => ⟨?_, hk⟩, fun hk => hk.2⟩)
    rintro rfl
    exact hne hp
  cases hp : parseEntry e with
  | none => exact hother (by rw [hp]; exact fun h => by cases h)
  | some parsed =>
    obtain ⟨c', id'⟩ := parsed
    by_cases hdoc : (c, id) = (c', id')
    · obtain ⟨rfl, rfl⟩ := Prod.mk.inj hdoc
      simp only [postingRemove, Function.update_self, SortedSet.mem_remove, h.posted, and_assoc]
    · simp only [postingRemove, Function.update_of_ne hdoc]
      refine hother ?_
      rw [hp]
      rintro heq
      have hsame := Option.some.inj heq
      rw [ParsedEntry.mk.injEq] at hsame
      exact hdoc (Prod.ext hsame.1.symm hsame.2.symm)

lemma WellFormed.clearPrefix (h : WellFormed s) (head : Bytes) : WellFormed (s.clearPrefix head) := by
  rw [IndexState.clearPrefix]
  generalize s.entries.under head = es
  induction es generalizing s with
  | nil => exact h
  | cons e es ih => exact ih (h.clearOne e)

/-- A definition whose name is free or already used on the same collection. -/
def Redeclares (s : IndexState Predicate) (d : IndexDef Predicate) : Prop :=
  ∀ old, s.defs.get d.name = some old → old.collection = d.collection

lemma WellFormed.putDef (h : WellFormed s) {d : IndexDef Predicate} (hre : Redeclares s d) :
    WellFormed (s.putDef A d) where
  named := by
    intro n e hn
    rw [putDef_defs] at hn
    by_cases hname : n = d.name
    · have hself := (SortedMap.get_insert s.defs d.name n d).trans (if_pos hname)
      rw [← Option.some.inj (hself.symm.trans hn), hname]
    · exact h.named (((SortedMap.get_insert s.defs d.name n d).trans (if_neg hname)).symm.trans hn)
  owned := by
    intro k hk
    rw [putDef_entries] at hk
    obtain ⟨e, id, he, hof⟩ := h.owned hk
    by_cases hname : e.name = d.name
    · -- The definition replaced covers the same keys.
      have hcoll : e.collection = d.collection := hre e (hname ▸ he)
      refine ⟨d, id, (SortedMap.get_insert s.defs d.name d.name d).trans (if_pos rfl), ?_, ?_⟩
      · rw [hof.split, hcoll, hname]
      · have hunder := hof.under
        rwa [IndexDef.entryPrefix, hcoll, hname] at hunder
    · exact ⟨e, id, ((SortedMap.get_insert s.defs d.name e.name d).trans (if_neg hname)).trans he,
        hof⟩
  posted c id k := by rw [putDef_entries, putDef_postings]; exact h.posted c id k

lemma WellFormed.removeDef (h : WellFormed s) (name : String) : WellFormed (s.removeDef name) := by
  cases hd : s.defs.get name with
  | none => rwa [removeDef_of_none hd]
  | some d =>
    rw [removeDef_of_some hd, clearPrefix_withDefs]
    apply WellFormed.mark
    refine ⟨fun {n e} hn => ?_, fun {k} hk => ?_, (h.clearPrefix d.entryPrefix).posted⟩
    · have herase := (SortedMap.get_erase s.defs name n).symm.trans hn
      split_ifs at herase
      exact h.named herase
    · obtain ⟨hk, hnot⟩ := mem_entries_clearPrefix.mp hk
      obtain ⟨e, id, he, hof⟩ := h.owned hk
      refine ⟨e, id, (SortedMap.get_erase s.defs name e.name).trans ((if_neg ?_).trans he), hof⟩
      intro hname
      rw [hname, hd] at he
      exact hnot (Option.some.inj he ▸ hof.under)

section Planning

variable {defs : List (IndexDef Predicate)} {c id : String} {old : SortedSet Bytes}
  {new : Option Value}

lemma mem_newKeys : k ∈ newKeys A defs id new ↔
    ∃ row, new = some row ∧ ∃ d ∈ defs, k ∈ entryKeys A d id row := by
  cases new with
  | none => exact iff_of_false (SortedSet.notMem_empty k) (fun ⟨_, h, _⟩ => by cases h)
  | some row =>
    rw [newKeys, SortedSet.mem_ofKeys, List.mem_flatMap]
    simp only [SortedSet.mem_toList, Option.some.injEq, exists_eq_left']

lemma lastWrite_planIndexOps :
    SortedMap.lastWrite ((planIndexOps A defs id old new).map IndexWriteOp.toWrite) k =
      if k ∈ (newKeys A defs id new).diff old then some (some [])
      else if k ∈ old.diff (newKeys A defs id new) then some none else none := by
  rw [planIndexOps, List.map_append, List.map_map, List.map_map, SortedMap.lastWrite_append,
    SortedMap.lastWrite_map (fun k => ⟨rfl, rfl⟩ :
      ∀ k, ((IndexWriteOp.toWrite ∘ IndexWriteOp.put) k).key = k ∧
        ((IndexWriteOp.toWrite ∘ IndexWriteOp.put) k).value = some []),
    SortedMap.lastWrite_map (fun k => ⟨rfl, rfl⟩ :
      ∀ k, ((IndexWriteOp.toWrite ∘ IndexWriteOp.delete) k).key = k ∧
        ((IndexWriteOp.toWrite ∘ IndexWriteOp.delete) k).value = none)]
  simp only [SortedSet.mem_toList]
  split_ifs <;> rfl

lemma mem_entries_apply_plan (hold : ∀ k ∈ old, k ∈ s.entries) :
    k ∈ (s.apply c id (planIndexOps A defs id old new)).entries ↔
      k ∈ newKeys A defs id new ∨ k ∈ s.entries ∧ k ∉ old := by
  rw [mem_entries_apply, lastWrite_planIndexOps]
  have hk := hold k
  simp only [SortedSet.mem_diff]
  by_cases hnew : k ∈ newKeys A defs id new <;> by_cases hmem : k ∈ old
  · simp [hnew, hmem, hk hmem]
  · simp [hnew, hmem]
  · simp [hnew, hmem]
  · simp [hnew, hmem]

lemma WellFormed.opFits_plan (h : WellFormed s)
    (hdefs : ∀ d ∈ defs, s.defs.get d.name = some d ∧ d.collection = c) :
    ∀ op ∈ planIndexOps A defs id (s.postings (c, id)) new, OpFits s c id op := by
  intro op hop
  rcases List.mem_append.mp hop with hop | hop
  · obtain ⟨k, hk, rfl⟩ := List.mem_map.mp hop
    rw [SortedSet.mem_toList, SortedSet.mem_diff, h.posted] at hk
    exact hk.1.2
  · obtain ⟨k, hk, rfl⟩ := List.mem_map.mp hop
    rw [SortedSet.mem_toList, SortedSet.mem_diff, mem_newKeys] at hk
    obtain ⟨⟨row, -, d, hd, hkey⟩, -⟩ := hk
    exact ⟨d, (hdefs d hd).1, (hdefs d hd).2, entryOf_of_mem_entryKeys hkey⟩

lemma WellFormed.apply_plan (h : WellFormed s)
    (hdefs : ∀ d ∈ defs, s.defs.get d.name = some d ∧ d.collection = c) (new : Option Value) :
    WellFormed (s.apply c id (planIndexOps A defs id (s.postings (c, id)) new)) ∧
    ∀ k, k ∈ (s.apply c id (planIndexOps A defs id (s.postings (c, id)) new)).entries ↔
      k ∈ newKeys A defs id new ∨ k ∈ s.entries ∧ parseEntry k ≠ some ⟨c, id⟩ := by
  refine ⟨h.apply (h.opFits_plan hdefs), fun k => ?_⟩
  rw [mem_entries_apply_plan (fun k hk => ((h.posted c id k).mp hk).1), h.posted]
  refine or_congr_right ⟨fun hk => ⟨hk.1, fun hp => hk.2 ⟨hk.1, hp⟩⟩, fun hk => ⟨hk.1, fun hp =>
    hk.2 hp.2⟩⟩

end Planning

section Changes

variable {c : String}

lemma resyncOne_defs (defs : List (IndexDef Predicate)) (readRow : String → Option Value)
    (id : String) : (resyncOne A c defs readRow s id).defs = s.defs := apply_defs _ _ _

lemma WellFormed.foldl_resyncOne (h : WellFormed s) {defs : List (IndexDef Predicate)}
    (hdefs : ∀ d ∈ defs, s.defs.get d.name = some d ∧ d.collection = c)
    (readRow : String → Option Value) (ids : List String) :
    WellFormed (ids.foldl (resyncOne A c defs readRow) s) := by
  induction ids generalizing s with
  | nil => exact h
  | cons id ids ih =>
    refine ih (h.apply_plan hdefs _).1 (fun d hd => ?_)
    rw [resyncOne_defs]
    exact hdefs d hd

lemma WellFormed.resync (h : WellFormed s) (c : String) (ids : List String)
    (readRow : String → Option Value) : WellFormed (s.resync A c ids readRow) := by
  rw [IndexState.resync]
  split_ifs
  · exact h
  · refine h.foldl_resyncOne (fun d hd => ?_) readRow ids
    obtain ⟨hget, hcoll, -⟩ := h.mem_defsOn.mp hd
    exact ⟨hget, hcoll⟩

lemma WellFormed.installRow (h : WellFormed s) {d : IndexDef Predicate}
    (hd : s.defs.get d.name = some d) (row : String × Value) :
    WellFormed (installRow A d s row) := by
  refine h.apply (fun op hop => ?_)
  obtain ⟨k, hk, rfl⟩ := List.mem_map.mp hop
  exact ⟨d, hd, rfl, entryOf_of_mem_entryKeys (SortedSet.mem_toList.mp hk)⟩

lemma WellFormed.foldl_installRow (h : WellFormed s) {d : IndexDef Predicate}
    (hd : s.defs.get d.name = some d) (rows : List (String × Value)) :
    WellFormed (rows.foldl (IndexState.installRow A d) s) := by
  induction rows generalizing s with
  | nil => exact h
  | cons row rows ih =>
    refine ih (h.installRow hd row) ?_
    rw [IndexState.installRow, apply_defs]
    exact hd

/-- The state a build starts its rows from: the index declared, and no entry of it left. -/
def declared (A : IndexApi Predicate) (d : IndexDef Predicate) (s : IndexState Predicate) :
    IndexState Predicate :=
  ((match s.defs.get d.name with
    | some existing => s.clearPrefix existing.entryPrefix
    | none => s).clearPrefix d.entryPrefix).putDef A d

lemma build_eq (d : IndexDef Predicate) (rows : List (String × Value)) (s : IndexState Predicate) :
    build A d rows s = rows.foldl (installRow A d) (declared A d s) := rfl

lemma WellFormed.declared (h : WellFormed s) {d : IndexDef Predicate} (hre : Redeclares s d) :
    WellFormed (declared A d s) := by
  have hclear : WellFormed (match s.defs.get d.name with
      | some existing => s.clearPrefix existing.entryPrefix
      | none => s) := by
    split
    · exact h.clearPrefix _
    · exact h
  refine (hclear.clearPrefix d.entryPrefix).putDef (fun old hold => hre old ?_)
  rw [clearPrefix_defs] at hold
  split at hold
  · rwa [clearPrefix_defs] at hold
  · exact hold

lemma get_defs_declared (d : IndexDef Predicate) :
    (IndexState.declared A d s).defs.get d.name = some d :=
  (SortedMap.get_insert _ d.name d.name d).trans (if_pos rfl)

lemma declared_defs (d : IndexDef Predicate) :
    (IndexState.declared A d s).defs = s.defs.insert d.name d := by
  rw [IndexState.declared, putDef_defs, clearPrefix_defs]
  split
  · rw [clearPrefix_defs]
  · rfl

lemma foldl_installRow_defs (d : IndexDef Predicate) (rows : List (String × Value)) :
    (rows.foldl (IndexState.installRow A d) s).defs = s.defs := by
  induction rows generalizing s with
  | nil => rfl
  | cons row rows ih => exact ih.trans (apply_defs _ _ _)

lemma build_defs (d : IndexDef Predicate) (rows : List (String × Value)) :
    (IndexState.build A d rows s).defs = s.defs.insert d.name d := by
  rw [build_eq, foldl_installRow_defs, declared_defs]

lemma WellFormed.build (h : WellFormed s) {d : IndexDef Predicate} (hre : Redeclares s d)
    (rows : List (String × Value)) : WellFormed (build A d rows s) := by
  rw [build_eq]
  exact (h.declared hre).foldl_installRow (get_defs_declared d) rows

lemma WellFormed.collecting {durable : Bool} {f : IndexState Predicate → IndexState Predicate}
    (hf : ∀ sink, WellFormed (f { s with sink })) : WellFormed (s.collecting durable f).1 := by
  cases durable with
  | true => exact (hf (some [])).congr rfl rfl rfl
  | false => exact hf s.sink

lemma WellFormed.withSink (h : WellFormed s) (sink : Option (List WriteOp)) :
    WellFormed { s with sink } := h.congr rfl rfl rfl

lemma install_ok {d : IndexDef Predicate} {rows : List (String × Value)}
    {out : Installed Predicate} (h : s.install A d rows = .ok out) :
    (∃ seen, checkInstall A d rows = .ok seen) ∧
      out.state = (s.collecting d.durable (IndexState.build A d rows)).1 ∧
      out.ops = (s.collecting d.durable (IndexState.build A d rows)).2 := by
  rw [IndexState.install] at h
  cases hcheck : checkInstall A d rows with
  | error e => rw [hcheck] at h; cases h
  | ok seen =>
    rw [hcheck] at h
    obtain rfl := Except.ok.inj h
    exact ⟨⟨seen, rfl⟩, rfl, rfl⟩

lemma WellFormed.install (h : WellFormed s) {d : IndexDef Predicate} (hre : Redeclares s d)
    {rows : List (String × Value)} {out : Installed Predicate}
    (hout : s.install A d rows = .ok out) : WellFormed out.state := by
  rw [(install_ok hout).2.1]
  exact WellFormed.collecting (fun sink => (h.withSink sink).build hre rows)

lemma WellFormed.forget (h : WellFormed s) (name : String) : WellFormed (s.forget name) :=
  WellFormed.collecting (fun sink => (h.withSink sink).removeDef name)

lemma clearDocumentEntries_defs (c : String) : (s.clearDocumentEntries c).defs = s.defs := by
  rw [IndexState.clearDocumentEntries]
  generalize s.defsOn c .document = ds
  induction ds generalizing s with
  | nil => rfl
  | cons d ds ih => exact ih.trans (clearPrefix_defs _)

lemma WellFormed.clearDocumentEntries (h : WellFormed s) (c : String) :
    WellFormed (s.clearDocumentEntries c) := by
  rw [IndexState.clearDocumentEntries]
  generalize s.defsOn c .document = ds
  induction ds generalizing s with
  | nil => exact h
  | cons d ds ih => exact ih (h.clearPrefix d.entryPrefix)

lemma WellFormed.dropChange (h : WellFormed s) (ds : List (IndexDef Predicate)) :
    WellFormed (dropChange s ds).1 := by
  rw [IndexState.dropChange]
  generalize ([] : List WriteOp) = ops
  induction ds generalizing s ops with
  | nil => exact h
  | cons d ds ih =>
    have hone : WellFormed (s.collecting d.durable (·.removeDef d.name)).1 :=
      WellFormed.collecting (fun sink => (h.withSink sink).removeDef d.name)
    exact ih hone _

lemma WellFormed.moveOne (h : WellFormed s) {d : IndexDef Predicate} (engine : IndexEngine)
    (hre : Redeclares s d) (ops : List WriteOp) : WellFormed (moveOne A engine (s, ops) d).1 := by
  have hclear : WellFormed (s.collecting d.durable (·.clearPrefix d.entryPrefix)).1 :=
    WellFormed.collecting (fun sink => (h.withSink sink).clearPrefix _)
  have hsame : (s.collecting d.durable (·.clearPrefix d.entryPrefix)).1.defs = s.defs := by
    rw [IndexState.collecting]
    split_ifs
    · exact clearPrefix_defs _
    · exact clearPrefix_defs _
  refine WellFormed.collecting (s := (s.collecting d.durable (·.clearPrefix d.entryPrefix)).1)
    (f := (IndexState.putDef A · (d.withEngine engine))) (fun sink => ?_)
  refine (hclear.withSink sink).putDef (fun old hold => hre old ?_)
  rwa [← hsame]

end Changes

end IndexState

end NodedbLite.Index
