import NodedbLite.SortedMap

/-! Write-behind marks over a store. A changed key is marked with its new value and a fresh
number; a flush stages the marks, writes them in one batch and then drops each mark whose number
is still the one it staged. The view of a key is what the store holds for it once every mark is
written. -/

/-- A pending change: the value to store, `none` to delete, and the number of the change. -/
structure Dirty (V : Type*) where
  seq : Nat
  value : Option V
  deriving DecidableEq

structure WriteBehind (K V : Type*) [LinearOrder K] where
  dirty : SortedMap K (Dirty V)
  nextSeq : Nat

namespace WriteBehind

variable {K V : Type*}

/-- A store write that sets or deletes one key. -/
def toWrite (k : K) : Option V → SortedMap.Write K V
  | some v => .put k v
  | none => .delete k

@[simp] lemma key_toWrite (k : K) (v : Option V) : (toWrite k v).key = k := by cases v <;> rfl

@[simp] lemma value_toWrite (k : K) (v : Option V) : (toWrite k v).value = v := by cases v <;> rfl

variable [LinearOrder K]

def empty : WriteBehind K V := ⟨SortedMap.empty, 0⟩

def mark (w : WriteBehind K V) (k : K) (v : Option V) : WriteBehind K V :=
  ⟨w.dirty.insert k ⟨w.nextSeq + 1, v⟩, w.nextSeq + 1⟩

/-- The marks a flush takes, with their numbers. -/
def stage (w : WriteBehind K V) : List (K × Dirty V) := w.dirty.entries

/-- The batch that writes staged marks. -/
def stagedWrites (staged : List (K × Dirty V)) : List (SortedMap.Write K V) :=
  staged.map (fun e => toWrite e.1 e.2.value)

/-- Drop one staged mark unless its key was marked again since. -/
def settle (dirty : SortedMap K (Dirty V)) (e : K × Dirty V) : SortedMap K (Dirty V) :=
  if (dirty.get e.1).any (fun d => d.seq = e.2.seq) then dirty.erase e.1 else dirty

def acknowledge (w : WriteBehind K V) (staged : List (K × Dirty V)) : WriteBehind K V :=
  { w with dirty := staged.foldl settle w.dirty }

/-- What the store holds for a key once every mark is written. -/
def view (w : WriteBehind K V) (store : SortedMap K V) (k : K) : Option V :=
  match w.dirty.get k with
  | some d => d.value
  | none => store.get k

/-- Change numbers never exceed the counter. -/
def Numbered (w : WriteBehind K V) : Prop := ∀ k d, w.dirty.get k = some d → d.seq ≤ w.nextSeq

/-- Every staged key is still marked, and with the staged value unless it changed since. -/
def InFlight (w : WriteBehind K V) (staged : List (K × Dirty V)) : Prop :=
  (staged.map Prod.fst).Nodup ∧ ∀ e ∈ staged, e.2.seq ≤ w.nextSeq ∧
    ∃ d, w.dirty.get e.1 = some d ∧ (d.seq = e.2.seq → d.value = e.2.value)

/-- The store holds every staged value. -/
def Written (store : SortedMap K V) (staged : List (K × Dirty V)) : Prop :=
  ∀ e ∈ staged, store.get e.1 = e.2.value

variable {w : WriteBehind K V} {store : SortedMap K V} {staged : List (K × Dirty V)} {k j : K}

lemma view_of_clean (h : w.dirty.get k = none) : w.view store k = store.get k := by
  simp only [view, h]

lemma view_of_dirty {d : Dirty V} (h : w.dirty.get k = some d) : w.view store k = d.value := by
  simp only [view, h]

lemma dirty_mark_self (v : Option V) :
    (w.mark k v).dirty.get k = some ⟨w.nextSeq + 1, v⟩ :=
  (SortedMap.get_insert w.dirty k k _).trans (if_pos rfl)

lemma dirty_mark_of_ne (v : Option V) (h : j ≠ k) : (w.mark k v).dirty.get j = w.dirty.get j :=
  (SortedMap.get_insert w.dirty k j _).trans (if_neg h)

lemma view_mark_self (v : Option V) : (w.mark k v).view store k = v :=
  view_of_dirty (dirty_mark_self v)

lemma view_mark_of_ne (v : Option V) (h : j ≠ k) :
    (w.mark k v).view store j = w.view store j := by
  simp only [view, dirty_mark_of_ne v h]

lemma view_writeAll {ops : List (SortedMap.Write K V)}
    (h : ∀ op ∈ ops, w.dirty.get op.key = none) :
    w.view (store.writeAll ops) k = (SortedMap.lastWrite ops k).getD (w.view store k) := by
  cases hd : w.dirty.get k with
  | none => rw [view_of_clean hd, view_of_clean hd, SortedMap.get_writeAll]
  | some d =>
    have hnone : SortedMap.lastWrite ops k = none := by
      rw [SortedMap.lastWrite_eq_none_iff]
      rintro op hop rfl
      simp [h op hop] at hd
    rw [view_of_dirty hd, view_of_dirty hd, hnone, Option.getD_none]

lemma Numbered.mark (h : w.Numbered) (k : K) (v : Option V) : (w.mark k v).Numbered := by
  intro j d hd
  by_cases hj : j = k
  · subst hj
    obtain rfl := Option.some.inj ((dirty_mark_self v).symm.trans hd)
    exact le_rfl
  · exact (h j d ((dirty_mark_of_ne v hj).symm.trans hd)).trans (Nat.le_succ _)

lemma InFlight.mark (h : w.InFlight staged) (k : K) (v : Option V) :
    (w.mark k v).InFlight staged := by
  refine ⟨h.1, fun e he => ?_⟩
  obtain ⟨hle, d, hd, hval⟩ := h.2 e he
  refine ⟨hle.trans (Nat.le_succ _), ?_⟩
  by_cases hek : e.1 = k
  · refine ⟨⟨w.nextSeq + 1, v⟩, by rw [hek]; exact dirty_mark_self v, fun hseq => ?_⟩
    have hnew : w.nextSeq + 1 = e.2.seq := hseq
    omega
  · exact ⟨d, (dirty_mark_of_ne v hek).trans hd, hval⟩

lemma Written.writeAll (h : Written store staged) (hin : w.InFlight staged)
    {ops : List (SortedMap.Write K V)} (hclean : ∀ op ∈ ops, w.dirty.get op.key = none) :
    Written (store.writeAll ops) staged := by
  intro e he
  obtain ⟨-, d, hd, -⟩ := hin.2 e he
  rw [SortedMap.get_writeAll_of_not_written, h e he]
  intro op hop hk
  cases (hclean op hop).symm.trans (hk ▸ hd)

/-- Mark a batch of writes in order. -/
def markAll (w : WriteBehind K V) (ops : List (SortedMap.Write K V)) : WriteBehind K V :=
  ops.foldl (fun w op => w.mark op.key op.value) w

/-- Marking a batch and writing it show the same view. -/
lemma view_markAll (ops : List (SortedMap.Write K V)) :
    (w.markAll ops).view store k = (SortedMap.lastWrite ops k).getD (w.view store k) := by
  induction ops using List.reverseRecOn with
  | nil => rfl
  | append_singleton ops op ih =>
    rw [markAll, List.foldl_append, List.foldl_cons, List.foldl_nil, SortedMap.lastWrite_concat]
    by_cases hk : op.key = k
    · rw [if_pos hk, Option.getD_some, ← hk]
      exact view_mark_self op.value
    · rw [if_neg hk]
      exact (view_mark_of_ne op.value (Ne.symm hk)).trans ih

lemma Numbered.markAll (h : w.Numbered) (ops : List (SortedMap.Write K V)) :
    (w.markAll ops).Numbered := by
  induction ops generalizing w with
  | nil => exact h
  | cons op ops ih => exact ih (h.mark op.key op.value)

lemma InFlight.markAll (h : w.InFlight staged) (ops : List (SortedMap.Write K V)) :
    (w.markAll ops).InFlight staged := by
  induction ops generalizing w with
  | nil => exact h
  | cons op ops ih => exact ih (h.mark op.key op.value)

lemma exists_of_dirty_markAll {ops : List (SortedMap.Write K V)} {d : Dirty V}
    (h : (w.markAll ops).dirty.get k = some d) :
    (∃ op ∈ ops, op.key = k) ∨ w.dirty.get k = some d := by
  induction ops generalizing w with
  | nil => exact .inr h
  | cons op ops ih =>
    rcases ih h with ⟨o, ho, hk⟩ | hk
    · exact .inl ⟨o, List.mem_cons_of_mem _ ho, hk⟩
    · by_cases hop : op.key = k
      · exact .inl ⟨op, List.mem_cons_self, hop⟩
      · exact .inr ((dirty_mark_of_ne op.value (Ne.symm hop)).symm.trans hk)

end WriteBehind
