import Mathlib

/-! Finite maps over a linearly ordered key type, kept as a strictly sorted association
list. Sortedness is a field, so equal contents mean equal maps and a scan of the list is a
scan in key order. -/
structure SortedMap (K V : Type*) [LinearOrder K] where
  entries : List (K × V)
  sorted : entries.Pairwise (fun a b => a.1 < b.1)

namespace SortedMap

variable {K V W : Type*} [LinearOrder K]

instance [DecidableEq V] : DecidableEq (SortedMap K V) := fun m n =>
  decidable_of_iff (m.entries = n.entries) (by cases m; cases n; simp)

instance : Inhabited (SortedMap K V) := ⟨⟨[], List.Pairwise.nil⟩⟩

def empty : SortedMap K V := ⟨[], List.Pairwise.nil⟩

def get (m : SortedMap K V) (k : K) : Option V := m.entries.lookup k

def keys (m : SortedMap K V) : List K := m.entries.map Prod.fst

def insertList (k : K) (v : V) : List (K × V) → List (K × V)
  | [] => [(k, v)]
  | e :: es =>
    if k < e.1 then (k, v) :: e :: es
    else if k = e.1 then (k, v) :: es
    else e :: insertList k v es

lemma mem_insertList {k : K} {v : V} {es : List (K × V)} {a : K × V}
    (h : a ∈ insertList k v es) : a = (k, v) ∨ a ∈ es := by
  induction es with
  | nil => simpa [insertList] using h
  | cons e es ih =>
    unfold insertList at h
    split_ifs at h with hlt heq
    · simpa using h
    · rcases List.mem_cons.mp h with rfl | h
      · exact .inl rfl
      · exact .inr (List.mem_cons_of_mem _ h)
    · rcases List.mem_cons.mp h with rfl | h
      · exact .inr List.mem_cons_self
      · rcases ih h with rfl | h
        · exact .inl rfl
        · exact .inr (List.mem_cons_of_mem _ h)

lemma insertList_sorted {k : K} {v : V} {es : List (K × V)}
    (h : es.Pairwise (fun a b => a.1 < b.1)) :
    (insertList k v es).Pairwise (fun a b => a.1 < b.1) := by
  induction es with
  | nil => simp [insertList]
  | cons e es ih =>
    obtain ⟨he, hes⟩ := List.pairwise_cons.mp h
    unfold insertList
    split_ifs with hlt heq
    · refine List.pairwise_cons.mpr ⟨?_, h⟩
      intro a ha
      rcases List.mem_cons.mp ha with rfl | ha
      · exact hlt
      · exact hlt.trans (he a ha)
    · subst heq
      exact List.pairwise_cons.mpr ⟨he, hes⟩
    · refine List.pairwise_cons.mpr ⟨?_, ih hes⟩
      intro a ha
      rcases mem_insertList ha with rfl | ha
      · exact lt_of_le_of_ne (not_lt.mp hlt) (Ne.symm heq)
      · exact he a ha

def insert (m : SortedMap K V) (k : K) (v : V) : SortedMap K V :=
  ⟨insertList k v m.entries, insertList_sorted m.sorted⟩

def filter (m : SortedMap K V) (p : K → V → Bool) : SortedMap K V :=
  ⟨m.entries.filter (fun e => p e.1 e.2), m.sorted.filter _⟩

lemma insertList_of_forall_lt {k : K} {v : V} {es : List (K × V)} (h : ∀ e ∈ es, e.1 < k) :
    insertList k v es = es ++ [(k, v)] := by
  induction es with
  | nil => rfl
  | cons e es ih =>
    have he : e.1 < k := h e List.mem_cons_self
    rw [insertList, if_neg he.not_gt, if_neg he.ne', ih (fun u hu => h u (List.mem_cons_of_mem _ hu))]
    rfl

def erase (m : SortedMap K V) (k : K) : SortedMap K V :=
  m.filter (fun j _ => j ≠ k)

def ofList (l : List (K × V)) : SortedMap K V :=
  l.foldl (fun m e => m.insert e.1 e.2) empty

@[simp] lemma get_empty (k : K) : (empty : SortedMap K V).get k = none := rfl

lemma nodup_of_sorted {l : List (K × V)} (h : l.Pairwise (fun a b => a.1 < b.1)) : l.Nodup := by
  refine h.imp ?_
  rintro a b hab rfl
  exact lt_irrefl a.1 hab

lemma keys_nodup (m : SortedMap K V) : m.keys.Nodup := by
  rw [keys, List.Nodup, List.pairwise_map]
  exact m.sorted.imp (fun h => ne_of_lt h)

omit [LinearOrder K] in
lemma lookup_cons_eq_ite [DecidableEq K] (j i : K) (w : V) (es : List (K × V)) :
    ((i, w) :: es).lookup j = if j = i then some w else es.lookup j := by
  rw [List.lookup_cons]
  by_cases hj : j = i
  · simp [hj]
  · have hb : (j == i) = false := by simpa using hj
    simp [hb, hj]

lemma lookup_eq_some_of_sorted {es : List (K × V)} {k : K} {v : V}
    (hs : es.Pairwise (fun a b => a.1 < b.1)) :
    es.lookup k = some v ↔ (k, v) ∈ es := by
  induction es with
  | nil => simp
  | cons e es ih =>
    obtain ⟨he, hes⟩ := List.pairwise_cons.mp hs
    obtain ⟨j, w⟩ := e
    by_cases hk : k = j
    · subst hk
      have hnot : (k, v) ∉ es := fun hm => lt_irrefl _ (he (k, v) hm)
      simp [hnot, eq_comm]
    · simp [lookup_cons_eq_ite, ih hes, hk]

lemma get_eq_some_iff {m : SortedMap K V} {k : K} {v : V} :
    m.get k = some v ↔ (k, v) ∈ m.entries :=
  lookup_eq_some_of_sorted m.sorted

lemma get_eq_none_iff {m : SortedMap K V} {k : K} :
    m.get k = none ↔ ∀ v, (k, v) ∉ m.entries := by
  rw [Option.eq_none_iff_forall_ne_some]
  exact forall_congr' fun v => not_congr get_eq_some_iff

lemma mem_keys {m : SortedMap K V} {k : K} : k ∈ m.keys ↔ (m.get k).isSome := by
  simp only [keys, List.mem_map, Option.isSome_iff_exists, get_eq_some_iff]
  constructor
  · rintro ⟨⟨j, v⟩, hm, rfl⟩
    exact ⟨v, hm⟩
  · rintro ⟨v, hm⟩
    exact ⟨(k, v), hm, rfl⟩

/-- Maps with the same contents are equal. -/
@[ext] theorem ext {m n : SortedMap K V} (h : ∀ k, m.get k = n.get k) : m = n := by
  have hperm : m.entries.Perm n.entries := by
    refine (List.perm_ext_iff_of_nodup ?_ ?_).mpr ?_
    · exact List.Nodup.of_map Prod.fst m.keys_nodup
    · exact List.Nodup.of_map Prod.fst n.keys_nodup
    · rintro ⟨k, v⟩
      rw [← get_eq_some_iff, ← get_eq_some_iff, h k]
  have hentries : m.entries = n.entries :=
    hperm.eq_of_pairwise (fun a b _ _ hab hba => absurd hab (lt_asymm hba)) m.sorted n.sorted
  cases m
  cases n
  simpa using hentries

lemma lookup_insertList (k j : K) (v : V) (es : List (K × V)) :
    (insertList k v es).lookup j = if j = k then some v else es.lookup j := by
  induction es with
  | nil => simp [insertList, lookup_cons_eq_ite]
  | cons e es ih =>
    obtain ⟨i, w⟩ := e
    rcases lt_trichotomy k i with hlt | rfl | hgt
    · simp only [insertList, if_pos hlt, lookup_cons_eq_ite]
    · by_cases hj : j = k <;> simp [insertList, lookup_cons_eq_ite, hj]
    · simp only [insertList, if_neg hgt.not_gt, if_neg hgt.ne', lookup_cons_eq_ite, ih]
      by_cases hj : j = k
      · simp [hj, hgt.ne']
      · simp [hj]

@[simp] lemma get_insert (m : SortedMap K V) (k j : K) (v : V) :
    (m.insert k v).get j = if j = k then some v else m.get j :=
  lookup_insertList k j v m.entries

lemma get_ofList_map_of_mem (f : K → V) {l : List K} {k : K} (h : k ∈ l) :
    (ofList (l.map (fun j => (j, f j)))).get k = some (f k) := by
  unfold ofList
  rw [List.foldl_map]
  induction l using List.reverseRecOn with
  | nil => exact absurd h List.not_mem_nil
  | append_singleton l j ih =>
    rw [List.foldl_append, List.foldl_cons, List.foldl_nil, get_insert]
    split
    · rename_i hkj
      rw [hkj]
    · rename_i hkj
      exact ih ((List.mem_append.mp h).resolve_right (fun hj => hkj (List.mem_singleton.mp hj)))

lemma isSome_get_foldl_insert (l : List (K × V)) (m : SortedMap K V) (k : K) :
    ((l.foldl (fun m e => m.insert e.1 e.2) m).get k).isSome ↔ k ∈ l.map Prod.fst ∨ (m.get k).isSome := by
  induction l generalizing m with
  | nil => simp
  | cons e l ih =>
    rw [List.foldl_cons, ih, get_insert, List.map_cons, List.mem_cons]
    by_cases hk : k = e.1
    · simp [hk]
    · simp [hk]

lemma get_foldl_insert_of_notMem {l : List (K × V)} (m : SortedMap K V) {k : K}
    (h : k ∉ l.map Prod.fst) : (l.foldl (fun m e => m.insert e.1 e.2) m).get k = m.get k := by
  induction l generalizing m with
  | nil => rfl
  | cons e l ih =>
    rw [List.map_cons, List.mem_cons, not_or] at h
    rw [List.foldl_cons, ih _ h.2, get_insert, if_neg h.1]

lemma get_foldl_insert_of_mem {l : List (K × V)} (hnodup : (l.map Prod.fst).Nodup) {k : K} {v : V}
    (h : (k, v) ∈ l) (m : SortedMap K V) :
    (l.foldl (fun m e => m.insert e.1 e.2) m).get k = some v := by
  induction l generalizing m with
  | nil => exact absurd h List.not_mem_nil
  | cons e l ih =>
    obtain ⟨hfresh, hnodup⟩ := List.nodup_cons.mp hnodup
    rw [List.foldl_cons]
    rcases List.mem_cons.mp h with rfl | h
    · rw [get_foldl_insert_of_notMem _ hfresh, get_insert, if_pos rfl]
    · exact ih hnodup h _

lemma get_ofList_of_mem {l : List (K × V)} (hnodup : (l.map Prod.fst).Nodup) {k : K} {v : V}
    (h : (k, v) ∈ l) : (ofList l).get k = some v :=
  get_foldl_insert_of_mem hnodup h empty

lemma get_ofList_of_notMem {l : List (K × V)} {k : K} (h : k ∉ l.map Prod.fst) :
    (ofList l).get k = none :=
  get_foldl_insert_of_notMem empty h

lemma get_ofList_eq_some_iff {l : List (K × V)} (hnodup : (l.map Prod.fst).Nodup) {k : K} {v : V} :
    (ofList l).get k = some v ↔ (k, v) ∈ l := by
  refine ⟨fun hget => ?_, get_ofList_of_mem hnodup⟩
  by_cases hk : k ∈ l.map Prod.fst
  · obtain ⟨e, he, rfl⟩ := List.mem_map.mp hk
    obtain rfl := Option.some.inj ((get_ofList_of_mem hnodup he).symm.trans hget)
    exact he
  · rw [get_ofList_of_notMem hk] at hget
    cases hget

@[simp] lemma get_filter (m : SortedMap K V) (p : K → V → Bool) (k : K) :
    (m.filter p).get k = (m.get k).filter (p k) := by
  apply Option.ext
  intro v
  rw [get_eq_some_iff, Option.filter_eq_some_iff, get_eq_some_iff]
  simp [filter, List.mem_filter]

@[simp] lemma get_erase (m : SortedMap K V) (k j : K) :
    (m.erase k).get j = if j = k then none else m.get j := by
  rw [erase, get_filter]
  by_cases hj : j = k
  · simp [hj]
  · cases m.get j <;> simp [hj]

lemma mem_entries_filter {m : SortedMap K V} {p : K → V → Bool} {e : K × V} :
    e ∈ (m.filter p).entries ↔ e ∈ m.entries ∧ p e.1 e.2 = true := by
  simp [filter, List.mem_filter]

/-- One write of a batch: a new value for a key, or its removal. -/
inductive Write (K V : Type*)
  | put (key : K) (value : V)
  | delete (key : K)
  deriving DecidableEq, Repr

namespace Write

def key : Write K V → K
  | .put k _ => k
  | .delete k => k

def value : Write K V → Option V
  | .put _ v => some v
  | .delete _ => none

end Write

def write (m : SortedMap K V) : Write K V → SortedMap K V
  | .put k v => m.insert k v
  | .delete k => m.erase k

def writeAll (m : SortedMap K V) (ws : List (Write K V)) : SortedMap K V := ws.foldl write m

/-- What a batch leaves behind for one key: `none` when it does not write the key. -/
def lastWrite (ws : List (Write K V)) (k : K) : Option (Option V) :=
  ws.foldl (fun acc w => if w.key = k then some w.value else acc) none

@[simp] lemma get_write (m : SortedMap K V) (w : Write K V) (k : K) :
    (m.write w).get k = if k = w.key then w.value else m.get k := by
  cases w with
  | put j v => exact get_insert m j k v
  | delete j => exact get_erase m j k

@[simp] lemma writeAll_nil (m : SortedMap K V) : m.writeAll [] = m := rfl

@[simp] lemma writeAll_cons (m : SortedMap K V) (w : Write K V) (ws : List (Write K V)) :
    m.writeAll (w :: ws) = (m.write w).writeAll ws := rfl

lemma writeAll_append (m : SortedMap K V) (ws us : List (Write K V)) :
    m.writeAll (ws ++ us) = (m.writeAll ws).writeAll us := List.foldl_append

lemma lastWrite_concat (ws : List (Write K V)) (w : Write K V) (k : K) :
    lastWrite (ws ++ [w]) k = if w.key = k then some w.value else lastWrite ws k := by
  simp [lastWrite]

@[simp] lemma lastWrite_nil (k : K) : lastWrite ([] : List (Write K V)) k = none := rfl

lemma lastWrite_singleton_self (w : Write K V) : lastWrite [w] w.key = some w.value :=
  if_pos rfl

lemma lastWrite_singleton_of_ne {w : Write K V} {k : K} (h : w.key ≠ k) :
    lastWrite [w] k = none := if_neg h

lemma lastWrite_append (ws us : List (Write K V)) (k : K) :
    lastWrite (ws ++ us) k = (lastWrite us k).or (lastWrite ws k) := by
  induction us using List.reverseRecOn with
  | nil => simp
  | append_singleton us u ih =>
    rw [← List.append_assoc, lastWrite_concat, lastWrite_concat, ih]
    split_ifs <;> simp

lemma lastWrite_eq_none_iff {ws : List (Write K V)} {k : K} :
    lastWrite ws k = none ↔ ∀ w ∈ ws, w.key ≠ k := by
  induction ws using List.reverseRecOn with
  | nil => simp
  | append_singleton ws w ih =>
    rw [lastWrite_concat]
    by_cases hk : w.key = k
    · simp [hk]
    · simp only [hk, if_false, ih, List.mem_append, List.mem_singleton]
      constructor
      · rintro h u (hu | rfl)
        · exact h u hu
        · exact hk
      · exact fun h u hu => h u (.inl hu)

lemma lastWrite_map [DecidableEq K] {f : K → Write K V} {v : Option V}
    (hf : ∀ k, (f k).key = k ∧ (f k).value = v) (ks : List K) (k : K) :
    lastWrite (ks.map f) k = if k ∈ ks then some v else none := by
  induction ks using List.reverseRecOn with
  | nil => rfl
  | append_singleton ks j ih =>
    rw [List.map_append, List.map_cons, List.map_nil, lastWrite_concat, (hf j).1, (hf j).2, ih]
    by_cases hk : j = k
    · simp [hk]
    · simp [hk, Ne.symm hk]

lemma exists_of_lastWrite_eq_some {ws : List (Write K V)} {k : K} {v : Option V}
    (h : lastWrite ws k = some v) : ∃ w ∈ ws, w.key = k ∧ w.value = v := by
  induction ws using List.reverseRecOn with
  | nil => simp at h
  | append_singleton ws w ih =>
    rw [lastWrite_concat] at h
    split_ifs at h with hk
    · exact ⟨w, by simp, hk, Option.some.inj h⟩
    · obtain ⟨u, hu, huk⟩ := ih h
      exact ⟨u, List.mem_append_left _ hu, huk⟩

/-- A batch is read back through the last write to each key. -/
theorem get_writeAll (m : SortedMap K V) (ws : List (Write K V)) (k : K) :
    (m.writeAll ws).get k = (lastWrite ws k).getD (m.get k) := by
  induction ws using List.reverseRecOn with
  | nil => rfl
  | append_singleton ws w ih =>
    rw [writeAll_append, lastWrite_concat, writeAll_cons, writeAll_nil, get_write, ih]
    by_cases hk : k = w.key
    · simp [hk]
    · simp [hk, Ne.symm hk]

lemma get_writeAll_of_deletes (m : SortedMap K V) {ws : List (Write K V)}
    (h : ∀ w ∈ ws, w.value = none) (k : K) :
    (m.writeAll ws).get k = if k ∈ ws.map Write.key then none else m.get k := by
  rw [get_writeAll]
  cases hlast : lastWrite ws k with
  | none =>
    have hnot : k ∉ ws.map Write.key := by
      intro hmem
      obtain ⟨w, hw, hkey⟩ := List.mem_map.mp hmem
      exact lastWrite_eq_none_iff.mp hlast w hw hkey
    rw [if_neg hnot]
    rfl
  | some v =>
    obtain ⟨w, hw, hkey, hvalue⟩ := exists_of_lastWrite_eq_some hlast
    rw [if_pos (List.mem_map.mpr ⟨w, hw, hkey⟩), ← hvalue, h w hw]
    rfl

lemma get_writeAll_of_not_written {m : SortedMap K V} {ws : List (Write K V)} {k : K}
    (h : ∀ w ∈ ws, w.key ≠ k) : (m.writeAll ws).get k = m.get k := by
  rw [get_writeAll, lastWrite_eq_none_iff.mpr h, Option.getD_none]

lemma lastWrite_eq_some_iff_of_nodup {ws : List (Write K V)} (h : (ws.map Write.key).Nodup) {k : K}
    {v : Option V} : lastWrite ws k = some v ↔ ∃ w ∈ ws, w.key = k ∧ w.value = v := by
  refine ⟨exists_of_lastWrite_eq_some, ?_⟩
  rintro ⟨w, hw, hkey, rfl⟩
  cases hlast : lastWrite ws k with
  | none => exact absurd hkey (lastWrite_eq_none_iff.mp hlast w hw)
  | some v =>
    obtain ⟨u, hu, hukey, rfl⟩ := exists_of_lastWrite_eq_some hlast
    rw [List.inj_on_of_nodup_map h hu hw (hukey.trans hkey.symm)]

lemma writeAll_of_perm (m : SortedMap K V) {ws us : List (Write K V)} (hperm : ws.Perm us)
    (h : (ws.map Write.key).Nodup) : m.writeAll ws = m.writeAll us := by
  have hus : (us.map Write.key).Nodup := (hperm.map _).nodup_iff.mp h
  have hlast : ∀ k, lastWrite ws k = lastWrite us k := by
    intro k
    apply Option.ext
    intro v
    rw [lastWrite_eq_some_iff_of_nodup h, lastWrite_eq_some_iff_of_nodup hus]
    simp only [hperm.mem_iff]
  ext1 k
  rw [get_writeAll, get_writeAll, hlast]

lemma writeAll_of_same_writes (m : SortedMap K V) {ws us : List (Write K V)}
    (hsame : ∀ w, w ∈ ws ↔ w ∈ us) (hone : ∀ w ∈ ws, ∀ u ∈ ws, w.key = u.key → w = u) :
    m.writeAll ws = m.writeAll us := by
  have hlast : ∀ k, lastWrite ws k = lastWrite us k := by
    intro k
    cases hu : lastWrite us k with
    | none =>
      rw [lastWrite_eq_none_iff] at hu ⊢
      exact fun w hw => hu w ((hsame w).mp hw)
    | some v =>
      obtain ⟨u, hmem, rfl, rfl⟩ := exists_of_lastWrite_eq_some hu
      have hws := (hsame u).mpr hmem
      cases hw : lastWrite ws u.key with
      | none => exact absurd rfl (lastWrite_eq_none_iff.mp hw u hws)
      | some v =>
        obtain ⟨w, hmem, hkey, rfl⟩ := exists_of_lastWrite_eq_some hw
        rw [hone w hmem u hws hkey]
  ext1 k
  rw [get_writeAll, get_writeAll, hlast]

def mapValues (f : K → V → W) (m : SortedMap K V) : SortedMap K W :=
  ⟨m.entries.map (fun e => (e.1, f e.1 e.2)), List.pairwise_map.mpr m.sorted⟩

@[simp] lemma get_mapValues (f : K → V → W) (m : SortedMap K V) (k : K) :
    (m.mapValues f).get k = (m.get k).map (f k) := by
  apply Option.ext
  intro w
  rw [get_eq_some_iff, Option.map_eq_some_iff]
  simp only [mapValues, List.mem_map, Prod.mk.injEq, Prod.exists, get_eq_some_iff]
  constructor
  · rintro ⟨j, v, hmem, rfl, rfl⟩
    exact ⟨v, hmem, rfl⟩
  · rintro ⟨v, hmem, rfl⟩
    exact ⟨k, v, hmem, rfl, rfl⟩

/-- The sum of a weight over all entries. -/
def sum {A : Type*} [AddCommGroup A] (m : SortedMap K V) (g : K → V → A) : A :=
  (m.entries.map (fun e => g e.1 e.2)).sum

lemma sum_insertList {A : Type*} [AddCommGroup A] (g : K → V → A) (k : K) (v : V)
    {es : List (K × V)} (hs : es.Pairwise (fun a b => a.1 < b.1)) :
    ((insertList k v es).map (fun e => g e.1 e.2)).sum =
      (es.map (fun e => g e.1 e.2)).sum + g k v - (es.lookup k).elim 0 (g k) := by
  induction es with
  | nil => simp [insertList]
  | cons e es ih =>
    obtain ⟨i, w⟩ := e
    obtain ⟨he, hes⟩ := List.pairwise_cons.mp hs
    rcases lt_trichotomy k i with hlt | rfl | hgt
    · have hnone : ((i, w) :: es).lookup k = none := by
        rw [Option.eq_none_iff_forall_ne_some]
        intro u hu
        rcases List.mem_cons.mp ((lookup_eq_some_of_sorted hs).mp hu) with heq | hmem
        · exact hlt.ne (congrArg Prod.fst heq)
        · exact lt_asymm hlt (he _ hmem)
      rw [hnone]
      simp [insertList, if_pos hlt]
      abel
    · simp [insertList]
      abel
    · simp only [insertList, if_neg hgt.not_gt, if_neg hgt.ne', List.map_cons, List.sum_cons,
        ih hes, lookup_cons_eq_ite]
      abel

/-- A put changes a sum by the new weight less the weight it replaces. -/
theorem sum_insert {A : Type*} [AddCommGroup A] (m : SortedMap K V) (g : K → V → A) (k : K)
    (v : V) : (m.insert k v).sum g = m.sum g + g k v - (m.get k).elim 0 (g k) :=
  sum_insertList g k v m.sorted

/-- The entries from `start` on, in key order. -/
def fromKey (m : SortedMap K V) (start : K) : List (K × V) :=
  m.entries.filter (fun e => start ≤ e.1)

lemma fromKey_sorted (m : SortedMap K V) (start : K) :
    (m.fromKey start).Pairwise (fun a b => a.1 < b.1) := m.sorted.filter _

lemma filter_append_filter_not {α : Type*} {p : α → Bool} {l : List α}
    (h : l.Pairwise (fun a b => p b = true → p a = true)) :
    l.filter p ++ l.filter (fun a => !p a) = l := by
  induction l with
  | nil => rfl
  | cons a l ih =>
    obtain ⟨ha, hl⟩ := List.pairwise_cons.mp h
    by_cases hp : p a = true
    · simp only [List.filter_cons, hp, if_true, Bool.not_true, Bool.false_eq_true, if_false,
        List.cons_append, ih hl]
    · have hnone : l.filter p = [] := by
        rw [List.filter_eq_nil_iff]
        exact fun b hb hpb => hp (ha b hb hpb)
      have hall : l.filter (fun a => !p a) = l := by
        simpa [hnone] using ih hl
      simp [hp, hnone, hall]

lemma entries_insert_perm (m : SortedMap K V) (k : K) (v : V) :
    (m.insert k v).entries.Perm ((k, v) :: (m.erase k).entries) := by
  have hnew : ∀ w, (k, w) ∉ (m.erase k).entries := by
    intro w hw
    have hget := get_eq_some_iff.mpr hw
    rw [get_erase, if_pos rfl] at hget
    cases hget
  refine (List.perm_ext_iff_of_nodup (nodup_of_sorted (m.insert k v).sorted) ?_).mpr ?_
  · exact List.nodup_cons.mpr ⟨hnew v, nodup_of_sorted (m.erase k).sorted⟩
  · intro e
    obtain ⟨j, w⟩ := e
    rw [← get_eq_some_iff, List.mem_cons, ← get_eq_some_iff, get_insert, get_erase]
    by_cases hj : j = k
    · simp [hj, eq_comm]
    · simp [hj]

lemma entries_perm_erase {m : SortedMap K V} {k : K} {v : V} (h : m.get k = some v) :
    m.entries.Perm ((k, v) :: (m.erase k).entries) := by
  have hsame : m.insert k v = m := by
    ext1 j
    rw [get_insert]
    split
    next heq => rw [heq, h]
    next => rfl
  have hperm := m.entries_insert_perm k v
  rwa [hsame] at hperm

lemma erase_of_get_eq_none {m : SortedMap K V} {k : K} (h : m.get k = none) : m.erase k = m := by
  ext1 j
  rw [get_erase]
  split
  next heq => rw [heq, h]
  next => rfl

end SortedMap
