import NodedbLite.SortedMap
import Mathlib

/-! Posting lists: for each dimension the ids that have it, with their weights. A list that becomes
empty is dropped from the map. -/
namespace Postings

variable {D I W : Type*} [LinearOrder D] [DecidableEq I]

abbrev Map (D I W : Type*) [LinearOrder D] := SortedMap D (List (I × W))

/-- The posting list of a dimension. -/
def list (p : Map D I W) (dim : D) : List (I × W) := (p.get dim).getD []

/-- One more posting at the end of a list. -/
def push (id : I) (p : Map D I W) (e : D × W) : Map D I W :=
  p.insert e.1 (list p e.1 ++ [(id, e.2)])

/-- The postings of an id leave the list of a dimension. -/
def retain (id : I) (p : Map D I W) (dim : D) : Map D I W :=
  match p.get dim with
  | none => p
  | some l =>
    if (l.filter fun e => e.1 ≠ id).isEmpty then p.erase dim
    else p.insert dim (l.filter fun e => e.1 ≠ id)

def NoEmpty (p : Map D I W) : Prop := ∀ dim, p.get dim ≠ some []

omit [DecidableEq I] in
lemma list_eq_of_get {p : Map D I W} {dim : D} {l : List (I × W)} (h : p.get dim = some l) :
    list p dim = l := by
  rw [list, h, Option.getD_some]

omit [DecidableEq I] in
lemma list_push (id : I) (p : Map D I W) (e : D × W) (dim : D) :
    list (push id p e) dim = if dim = e.1 then list p dim ++ [(id, e.2)] else list p dim := by
  rw [list, push, SortedMap.get_insert]
  split_ifs with h
  · rw [Option.getD_some, h]
  · rfl

omit [DecidableEq I] in
lemma NoEmpty.push {p : Map D I W} (h : NoEmpty p) (id : I) (e : D × W) :
    NoEmpty (push id p e) := by
  intro dim hempty
  rw [Postings.push, SortedMap.get_insert] at hempty
  split_ifs at hempty
  · simp at hempty
  · exact h dim hempty

lemma list_retain (id : I) (p : Map D I W) (dim dim' : D) :
    list (retain id p dim') dim =
      if dim = dim' then (list p dim).filter (fun e => e.1 ≠ id) else list p dim := by
  rw [retain]
  cases hget : p.get dim' with
  | none =>
    split_ifs with h
    · subst h
      simp [list, hget]
    · rfl
  | some l =>
    by_cases hempty : (l.filter fun e => e.1 ≠ id).isEmpty
    · simp only [if_pos hempty]
      rw [list, SortedMap.get_erase]
      split_ifs with h
      · subst h
        rw [list_eq_of_get hget, List.isEmpty_iff.mp hempty, Option.getD_none]
      · rfl
    · simp only [if_neg hempty]
      rw [list, SortedMap.get_insert]
      split_ifs with h
      · subst h
        rw [list_eq_of_get hget, Option.getD_some]
      · rfl

lemma NoEmpty.retain {p : Map D I W} (h : NoEmpty p) (id : I) (dim : D) :
    NoEmpty (retain id p dim) := by
  intro other hother
  rw [Postings.retain] at hother
  cases hget : p.get dim with
  | none => exact h other (by simpa only [hget] using hother)
  | some l =>
    simp only [hget] at hother
    split_ifs at hother with hempty
    · rw [SortedMap.get_erase] at hother
      split_ifs at hother
      exact h other hother
    · rw [SortedMap.get_insert] at hother
      split_ifs at hother
      · exact hempty (by rw [Option.some.inj hother]; rfl)
      · exact h other hother

omit [DecidableEq I] in
lemma list_foldl_push (id : I) (entries : List (D × W)) (p : Map D I W) (dim : D) :
    list (entries.foldl (push id) p) dim =
      list p dim ++ (entries.filter fun e => e.1 = dim).map fun e => (id, e.2) := by
  induction entries generalizing p with
  | nil => simp
  | cons e entries ih =>
    rw [List.foldl_cons, ih, list_push]
    by_cases h : e.1 = dim
    · simp [h]
    · simp [h, Ne.symm h]

omit [DecidableEq I] in
lemma NoEmpty.foldl_push {p : Map D I W} (h : NoEmpty p) (id : I) (entries : List (D × W)) :
    NoEmpty (entries.foldl (Postings.push id) p) := by
  induction entries generalizing p with
  | nil => exact h
  | cons e entries ih => exact ih (h.push id e)

lemma list_foldl_retain (id : I) (dims : List D) (p : Map D I W) (dim : D) :
    list (dims.foldl (retain id) p) dim =
      if dim ∈ dims then (list p dim).filter (fun e => e.1 ≠ id) else list p dim := by
  induction dims generalizing p with
  | nil => simp
  | cons d dims ih =>
    rw [List.foldl_cons, ih, list_retain]
    by_cases h : dim = d
    · subst h
      simp [List.filter_filter]
    · simp [h]

lemma NoEmpty.foldl_retain {p : Map D I W} (h : NoEmpty p) (id : I) (dims : List D) :
    NoEmpty (dims.foldl (Postings.retain id) p) := by
  induction dims generalizing p with
  | nil => exact h
  | cons d dims ih => exact ih (h.retain id d)

lemma filter_key {K V : Type*} [DecidableEq K] {l : List (K × V)} (h : (l.map Prod.fst).Nodup)
    (k : K) :
    (∃ v, (k, v) ∈ l ∧ l.filter (fun e => e.1 = k) = [(k, v)]) ∨
      (k ∉ l.map Prod.fst ∧ l.filter (fun e => e.1 = k) = []) := by
  induction l with
  | nil => exact .inr ⟨List.not_mem_nil, rfl⟩
  | cons e l ih =>
    obtain ⟨hfresh, hrest⟩ := List.nodup_cons.mp h
    by_cases hk : e.1 = k
    · subst hk
      have hnone : l.filter (fun e' => e'.1 = e.1) = [] := by
        rw [List.filter_eq_nil_iff]
        intro e' he' heq
        exact hfresh (List.mem_map.mpr ⟨e', he', by simpa using heq⟩)
      exact .inl ⟨e.2, .head _, by simp [hnone]⟩
    · obtain ⟨v, hmem, hfilter⟩ | ⟨hmem, hfilter⟩ := ih hrest
      · exact .inl ⟨v, List.mem_cons_of_mem e hmem, by simp [hk, hfilter]⟩
      · refine .inr ⟨?_, by simp [hk, hfilter]⟩
        rw [List.map_cons, List.mem_cons, not_or]
        exact ⟨Ne.symm hk, hmem⟩

/-- Every id has a posting for each entry of its vector, and one only. -/
structure Of (vector : I → Option (List (D × W))) (p : Map D I W) : Prop where
  noEmpty : NoEmpty p
  mem : ∀ dim id w, (id, w) ∈ list p dim ↔ ∃ es, vector id = some es ∧ (dim, w) ∈ es
  nodup : ∀ dim, ((list p dim).map Prod.fst).Nodup

omit [DecidableEq I] in
lemma of_empty : Of (fun _ : I => (none : Option (List (D × W)))) SortedMap.empty where
  noEmpty dim h := by cases h
  mem dim id w := by simp [list]
  nodup dim := by simp [list]

lemma Of.detach {vector : I → Option (List (D × W))} {p : Map D I W} (h : Of vector p) {id : I}
    {es : List (D × W)} (hes : vector id = some es) :
    Of (Function.update vector id none) ((es.map Prod.fst).foldl (retain id) p) := by
  have hlist : ∀ dim, list ((es.map Prod.fst).foldl (retain id) p) dim =
      (list p dim).filter fun e => e.1 ≠ id := by
    intro dim
    rw [list_foldl_retain]
    split_ifs with hdim
    · rfl
    · -- the id has no posting in a dimension that its vector does not have
      refine (List.filter_eq_self.mpr fun e he => ?_).symm
      rw [decide_eq_true_eq]
      rintro rfl
      obtain ⟨es', hes', hmem⟩ := (h.mem dim e.1 e.2).mp he
      rw [hes] at hes'
      cases hes'
      exact hdim (List.mem_map.mpr ⟨(dim, e.2), hmem, rfl⟩)
  refine ⟨h.noEmpty.foldl_retain id _, fun dim id' w => ?_, fun dim => ?_⟩
  · rw [hlist, List.mem_filter, h.mem, decide_eq_true_eq]
    by_cases hid : id' = id
    · subst hid
      simp
    · simp [hid]
  · rw [hlist]
    exact (h.nodup dim).sublist (List.filter_sublist.map Prod.fst)

lemma Of.attach {vector : I → Option (List (D × W))} {p : Map D I W} (h : Of vector p) {id : I}
    (hid : vector id = none) {es : List (D × W)} (hes : (es.map Prod.fst).Nodup) :
    Of (Function.update vector id (some es)) (es.foldl (push id) p) := by
  have hnew : ∀ dim id' w, (id', w) ∈ (es.filter fun e => e.1 = dim).map (fun e => (id, e.2)) ↔
      id' = id ∧ (dim, w) ∈ es := by
    intro dim id' w
    simp only [List.mem_map, List.mem_filter, decide_eq_true_eq, Prod.mk.injEq, Prod.exists]
    constructor
    · rintro ⟨d, w', ⟨hmem, rfl⟩, rfl, rfl⟩
      exact ⟨rfl, hmem⟩
    · rintro ⟨rfl, hmem⟩
      exact ⟨dim, w, ⟨hmem, rfl⟩, rfl, rfl⟩
  refine ⟨h.noEmpty.foldl_push id es, fun dim id' w => ?_, fun dim => ?_⟩
  · rw [list_foldl_push, List.mem_append, h.mem, hnew]
    by_cases heq : id' = id
    · subst heq
      simp [hid]
    · simp [heq]
  · rw [list_foldl_push, List.map_append, List.nodup_append]
    refine ⟨h.nodup dim, ?_, ?_⟩
    · obtain ⟨w, -, hfilter⟩ | ⟨-, hfilter⟩ := filter_key hes dim <;> rw [hfilter] <;> simp
    · intro a ha b hb
      obtain ⟨⟨a', w⟩, hmem, rfl⟩ := List.mem_map.mp ha
      obtain ⟨⟨b', w'⟩, hmem', rfl⟩ := List.mem_map.mp hb
      obtain ⟨es', hes', -⟩ := (h.mem dim a' w).mp hmem
      obtain ⟨rfl, -⟩ := (hnew dim b' w').mp hmem'
      rintro rfl
      rw [hid] at hes'
      cases hes'

end Postings
