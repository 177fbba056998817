import NodedbLite.SortedMap

/-! Elements put into buckets by a key. The first element of a key opens its bucket, later ones are
pushed to it. A bucket is the fold over the elements of its key, and together the buckets hold every
element once. -/
namespace Buckets

variable {K α B : Type*} [LinearOrder K] (key : α → K) (start : α → B) (push : B → α → B)

def add (m : SortedMap K B) (x : α) : SortedMap K B :=
  m.insert (key x) (match m.get (key x) with
    | some bucket => push bucket x
    | none => start x)

def collect (l : List α) : SortedMap K B := l.foldl (add key start push) SortedMap.empty

/-- The bucket of a list of elements. -/
def bucket : List α → Option B
  | [] => none
  | x :: xs => some (xs.foldl push (start x))

lemma bucket_concat (xs : List α) (x : α) :
    bucket start push (xs ++ [x]) = some (match bucket start push xs with
      | some b => push b x
      | none => start x) := by
  cases xs with
  | nil => rfl
  | cons y ys => simp [bucket]

/-- A bucket is the fold over the elements with its key, in order. -/
theorem get_collect (l : List α) (k : K) :
    (collect key start push l).get k = bucket start push (l.filter (fun x => key x = k)) := by
  induction l using List.reverseRecOn with
  | nil => rfl
  | append_singleton l x ih =>
    have hfold : collect key start push (l ++ [x]) = add key start push (collect key start push l) x := by
      unfold collect
      rw [List.foldl_append]
      rfl
    rw [hfold, List.filter_append, add, SortedMap.get_insert]
    by_cases hk : k = key x
    · subst hk
      rw [if_pos rfl, List.filter_singleton, ih]
      simp only [decide_true, cond_true]
      rw [bucket_concat]
    · have hx : [x].filter (fun y => key y = k) = [] := by simp [Ne.symm hk]
      rw [if_neg hk, ih, hx, List.append_nil]

variable {key}

lemma flatMap_filter_perm (key : α → K) (l : List α) {ks : List K} (hks : ks.Nodup) :
    (ks.flatMap (fun k => l.filter (fun x => key x = k))).Perm
      (l.filter (fun x => key x ∈ ks)) := by
  induction ks with
  | nil => simp
  | cons k ks ih =>
    obtain ⟨hfresh, hks⟩ := List.nodup_cons.mp hks
    have hsplit := List.filter_append_perm (fun x => decide (key x = k))
      (l.filter (fun x => key x ∈ k :: ks))
    have hfirst : (l.filter (fun x => key x ∈ k :: ks)).filter (fun x => decide (key x = k))
        = l.filter (fun x => key x = k) := by
      rw [List.filter_filter]
      apply List.filter_congr
      intro x _
      by_cases hx : key x = k
      · simp [hx]
      · simp [hx]
    have hrest : (l.filter (fun x => key x ∈ k :: ks)).filter (fun x => !decide (key x = k))
        = l.filter (fun x => key x ∈ ks) := by
      rw [List.filter_filter]
      apply List.filter_congr
      intro x _
      by_cases hx : key x = k
      · simp [hx, hfresh]
      · simp [hx]
    rw [hfirst, hrest] at hsplit
    rw [List.flatMap_cons]
    exact ((ih hks).append_left _).trans hsplit

variable {start push}

section Items

variable {C : Type*} (items : B → List C) (val : α → C)

lemma items_bucket (hstart : ∀ x, items (start x) = [val x])
    (hpush : ∀ b x, items (push b x) = items b ++ [val x]) (xs : List α) :
    ((bucket start push xs).map items).getD [] = xs.map val := by
  induction xs using List.reverseRecOn with
  | nil => rfl
  | append_singleton xs x ih =>
    rw [bucket_concat, List.map_append]
    cases hb : bucket start push xs with
    | none =>
      rw [hb] at ih
      have hnil : xs.map val = [] := ih.symm
      rw [hnil]
      exact hstart x
    | some b =>
      rw [hb] at ih
      exact (hpush b x).trans (congrArg (· ++ [val x]) ih)

lemma items_of_mem_entries (hstart : ∀ x, items (start x) = [val x])
    (hpush : ∀ b x, items (push b x) = items b ++ [val x]) {l : List α} {k : K} {b : B}
    (h : (k, b) ∈ (collect key start push l).entries) :
    items b = (l.filter (fun x => key x = k)).map val := by
  have hget := SortedMap.get_eq_some_iff.mpr h
  rw [get_collect] at hget
  have hbucket := items_bucket items val hstart hpush (l.filter (fun x => key x = k))
  rw [hget] at hbucket
  exact hbucket

lemma exists_first_of_mem_entries {l : List α} {k : K} {b : B}
    (h : (k, b) ∈ (collect key start push l).entries) :
    ∃ x ∈ l, key x = k ∧ ∃ xs : List α, b = xs.foldl push (start x) := by
  have hget := SortedMap.get_eq_some_iff.mpr h
  rw [get_collect] at hget
  cases hl : l.filter (fun x => key x = k) with
  | nil =>
    rw [hl] at hget
    cases hget
  | cons x xs =>
    rw [hl] at hget
    have hx : x ∈ l.filter (fun x => key x = k) := hl ▸ List.mem_cons_self
    obtain ⟨hmem, hk⟩ := List.mem_filter.mp hx
    exact ⟨x, hmem, of_decide_eq_true hk, xs, (Option.some.inj hget).symm⟩

lemma exists_entry {l : List α} {x : α} (hx : x ∈ l) :
    ∃ b, (key x, b) ∈ (collect key start push l).entries := by
  have hne : l.filter (fun y => key y = key x) ≠ [] :=
    List.ne_nil_of_mem (List.mem_filter.mpr ⟨hx, decide_eq_true rfl⟩)
  obtain ⟨y, ys, hys⟩ := List.exists_cons_of_ne_nil hne
  have hget : (collect key start push l).get (key x) = some (ys.foldl push (start y)) := by
    rw [get_collect, hys]
    rfl
  exact ⟨_, SortedMap.get_eq_some_iff.mp hget⟩

/-- Together the buckets hold every element once. -/
theorem collect_perm (hstart : ∀ x, items (start x) = [val x])
    (hpush : ∀ b x, items (push b x) = items b ++ [val x]) (l : List α) :
    ((collect key start push l).entries.flatMap (fun e => items e.2)).Perm (l.map val) := by
  have hkeys : (collect key start push l).entries.flatMap (fun e => items e.2)
      = (((collect key start push l).keys).flatMap (fun k => l.filter (fun x => key x = k))).map val := by
    rw [SortedMap.keys, List.flatMap_map, List.map_flatMap]
    exact List.flatMap_congr (fun e he => items_of_mem_entries items val hstart hpush he)
  rw [hkeys]
  apply List.Perm.map
  refine (flatMap_filter_perm key l (SortedMap.keys_nodup _)).trans ?_
  rw [List.filter_eq_self.mpr]
  intro x hx
  obtain ⟨b, hb⟩ : ∃ b, (key x, b) ∈ (collect key start push l).entries := exists_entry hx
  exact decide_eq_true (List.mem_map.mpr ⟨_, hb, rfl⟩)

end Items

end Buckets
