import NodedbLite.IndexSteps

/-! Memory and storage. Every operation marks exactly the writes that carry its change of the
catalog to storage, so what storage holds once all marks are written is what memory holds; a call
that writes straight to storage keeps this as long as none of its keys has a mark pending. -/
namespace NodedbLite.Index

open IndexState

variable {Predicate : Type} {A : IndexApi Predicate}

/-- The keys definitions and entries are stored under. -/
def InSpace (k : Bytes) : Prop := entriesPrefix <+: k ∨ defsPrefix <+: k

/-- The catalog in memory calls for `b` to be stored under `k`. -/
def Holds (A : IndexApi Predicate) (s : IndexState Predicate) (k b : Bytes) : Prop :=
  k ∈ s.entries ∧ b = [] ∨ ∃ d, s.defs.get d.name = some d ∧ d.key = k ∧ b = A.encodeDef d

/-- `t` comes from `s` by marking `ops`, and they say what memory changed. -/
structure Tracks (A : IndexApi Predicate) (s t : IndexState Predicate) (ops : List WriteOp) :
    Prop where
  marks : Marks s t ops
  follows : ∀ k b, Holds A t k b ↔
    match SortedMap.lastWrite ops k with
    | some v => v = some b
    | none => Holds A s k b
  space : ∀ op ∈ ops, InSpace op.key

section Tracking

variable {s t u : IndexState Predicate} {ops us : List WriteOp} {c id : String}

lemma key_ne_of_inEntries {k : Bytes} (h : entriesPrefix <+: k) (d : IndexDef Predicate) :
    d.key ≠ k := fun heq => not_defs_of_entries h (heq ▸ defsPrefix_isPrefix_key d)

lemma holds_of_inEntries {k b : Bytes} (h : entriesPrefix <+: k) :
    Holds A s k b ↔ k ∈ s.entries ∧ b = [] :=
  or_iff_left (fun ⟨d, _, hkey, _⟩ => key_ne_of_inEntries h d hkey)

lemma tracks_clearPrefix (h : WellFormed s) (head : Bytes) :
    Tracks A s (s.clearPrefix head) ((s.entries.under head).map .delete) where
  marks := marks_clearPrefix s head
  follows k b := by
    rw [SortedMap.lastWrite_map (fun j => ⟨rfl, rfl⟩ : ∀ j : Bytes,
      (SortedMap.Write.delete (V := Bytes) j).key = j ∧ (SortedMap.Write.delete j).value = none)]
    split_ifs with hk
    · obtain ⟨hmem, hpre⟩ := SortedSet.mem_under.mp hk
      rw [holds_of_inEntries (h.inEntries hmem), mem_entries_clearPrefix]
      exact iff_of_false (fun hc => hc.1.2 hpre) (fun hc => by cases hc)
    · rw [SortedSet.mem_under, not_and] at hk
      rw [Holds, Holds, mem_entries_clearPrefix, clearPrefix_defs]
      exact or_congr_left (and_congr_left (fun _ => ⟨fun hc => hc.1, fun hc => ⟨hc, hk hc⟩⟩))
  space op hop := by
    obtain ⟨k, hk, rfl⟩ := List.mem_map.mp hop
    exact .inl (h.inEntries (SortedSet.mem_under.mp hk).1)

lemma key_eq_of_names {d e : IndexDef Predicate} (hc : d.collection = e.collection)
    (hn : d.name = e.name) : d.key = e.key := by rw [IndexDef.key, IndexDef.key, hc, hn]

lemma tracks_putDef (h : WellFormed s) {d : IndexDef Predicate} (hre : Redeclares s d) :
    Tracks A s (s.putDef A d) [.put d.key (A.encodeDef d)] where
  marks := marks_putDef s d
  follows k b := by
    have hins := SortedMap.get_insert s.defs d.name
    by_cases hk : d.key = k
    · subst hk
      have hnot : d.key ∉ (s.putDef A d).entries := by
        rw [putDef_entries]
        exact fun hmem => key_ne_of_inEntries (h.inEntries hmem) d rfl
      have hlast : SortedMap.lastWrite [.put d.key (A.encodeDef d)] d.key =
          some (some (A.encodeDef d)) :=
        SortedMap.lastWrite_singleton_self (.put d.key (A.encodeDef d))
      simp only [hlast, Option.some.injEq]
      rw [Holds, or_iff_right (fun hc => hnot hc.1)]
      constructor
      · rintro ⟨e, he, hkey, rfl⟩
        -- Equal keys mean equal names, and the name is filed under the new definition.
        have hself := (hins e.name d).trans (if_pos (IndexDef.key_inj hkey).2)
        rw [Option.some.inj (hself.symm.trans he)]
      · rintro rfl
        exact ⟨d, (hins d.name d).trans (if_pos rfl), rfl, rfl⟩
    · have hne : SortedMap.Write.key (.put d.key (A.encodeDef d)) ≠ k := hk
      rw [SortedMap.lastWrite_singleton_of_ne hne, Holds, putDef_entries]
      refine or_congr_right (exists_congr fun e => ?_)
      by_cases hname : e.name = d.name
      · refine iff_of_false ?_ ?_
        · rintro ⟨he, hkey, -⟩
          have hself := (hins e.name d).trans (if_pos hname)
          rw [← Option.some.inj (hself.symm.trans he)] at hkey
          exact hk hkey
        · rintro ⟨he, hkey, -⟩
          exact hk ((key_eq_of_names (hre e (hname ▸ he)) hname).symm.trans hkey)
      · rw [putDef_defs, hins e.name d, if_neg hname]
  space op hop := by
    rw [List.mem_singleton.mp hop]
    exact .inr (defsPrefix_isPrefix_key d)

/-- A tracked change all of whose writes are to keys in `Q`. -/
def Tracked (A : IndexApi Predicate) (Q : Bytes → Prop) (s t : IndexState Predicate) : Prop :=
  ∃ ops, Tracks A s t ops ∧ ∀ op ∈ ops, Q op.key

end Tracking

section Operations

variable {s t : IndexState Predicate} {c id : String} {Q R : Bytes → Prop}

lemma tracked_clearPrefix (h : WellFormed s) {head : Bytes}
    (hQ : ∀ k ∈ s.entries, head <+: k → Q k) : Tracked A Q s (s.clearPrefix head) := by
  refine ⟨_, tracks_clearPrefix h head, fun op hop => ?_⟩
  obtain ⟨k, hk, rfl⟩ := List.mem_map.mp hop
  exact hQ k (SortedSet.mem_under.mp hk).1 (SortedSet.mem_under.mp hk).2

lemma entryPrefix_eq_of_names {d e : IndexDef Predicate} (hc : d.collection = e.collection)
    (hn : d.name = e.name) : d.entryPrefix = e.entryPrefix := by
  rw [IndexDef.entryPrefix, IndexDef.entryPrefix, hc, hn]

end Operations

end NodedbLite.Index
