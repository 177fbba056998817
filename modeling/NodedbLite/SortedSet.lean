import NodedbLite.SortedMap
import NodedbLite.ByteString

/-! Finite ordered sets, as maps to the unit type, and the members of a set of byte strings that
share a prefix. -/
abbrev SortedSet (K : Type*) [LinearOrder K] := SortedMap K Unit

namespace SortedSet

variable {K : Type*} [LinearOrder K]

instance : Membership K (SortedSet K) := ⟨fun s k => (SortedMap.get s k).isSome = true⟩

instance (k : K) (s : SortedSet K) : Decidable (k ∈ s) :=
  inferInstanceAs (Decidable ((SortedMap.get s k).isSome = true))

lemma mem_iff {s : SortedSet K} {k : K} : k ∈ s ↔ s.get k = some () := by
  change (SortedMap.get s k).isSome = true ↔ _
  rw [Option.isSome_iff_exists]
  exact ⟨fun ⟨_, h⟩ => h, fun h => ⟨(), h⟩⟩

def add (s : SortedSet K) (k : K) : SortedSet K := SortedMap.insert s k ()

def remove (s : SortedSet K) (k : K) : SortedSet K := SortedMap.erase s k

def ofKeys (ks : List K) : SortedSet K := ks.foldl add SortedMap.empty

def toList (s : SortedSet K) : List K := SortedMap.keys s

def diff (s t : SortedSet K) : SortedSet K := SortedMap.filter s (fun k _ => decide (k ∉ t))

@[simp] lemma notMem_empty (k : K) : k ∉ (SortedMap.empty : SortedSet K) := by
  simp [mem_iff]

@[simp] lemma mem_add {s : SortedSet K} {k j : K} : j ∈ s.add k ↔ j = k ∨ j ∈ s := by
  rw [mem_iff, mem_iff, add, SortedMap.get_insert]
  by_cases h : j = k <;> simp [h]

@[simp] lemma mem_remove {s : SortedSet K} {k j : K} : j ∈ s.remove k ↔ j ≠ k ∧ j ∈ s := by
  rw [mem_iff, mem_iff, remove, SortedMap.get_erase]
  by_cases h : j = k <;> simp [h]

lemma mem_foldl_add {s : SortedSet K} {ks : List K} {j : K} :
    j ∈ ks.foldl add s ↔ j ∈ ks ∨ j ∈ s := by
  induction ks generalizing s with
  | nil => simp
  | cons k ks ih =>
    rw [List.foldl_cons, ih, mem_add, List.mem_cons]
    tauto

@[simp] lemma mem_ofKeys {ks : List K} {j : K} : j ∈ ofKeys ks ↔ j ∈ ks := by
  rw [ofKeys, mem_foldl_add, or_iff_left (notMem_empty j)]

@[simp] lemma mem_toList {s : SortedSet K} {k : K} : k ∈ s.toList ↔ k ∈ s := SortedMap.mem_keys

@[simp] lemma mem_diff {s t : SortedSet K} {k : K} : k ∈ s.diff t ↔ k ∈ s ∧ k ∉ t := by
  rw [mem_iff, mem_iff, diff, SortedMap.get_filter]
  by_cases h : k ∈ t <;> cases hs : s.get k <;> simp [h]

section Prefixes

/-- The members from `p` on, up to the first that does not start with `p`. -/
def under (s : SortedSet Bytes) (p : Bytes) : List Bytes :=
  ((SortedMap.fromKey s p).map Prod.fst).takeWhile p.isPrefixOf

lemma mem_takeWhile_isPrefixOf {p k : Bytes} {ks : List Bytes} (hs : ks.Pairwise (· < ·))
    (hp : ∀ j ∈ ks, p ≤ j) : k ∈ ks.takeWhile p.isPrefixOf ↔ k ∈ ks ∧ p <+: k := by
  induction ks with
  | nil => simp
  | cons j ks ih =>
    obtain ⟨hj, hks⟩ := List.pairwise_cons.mp hs
    have ih := ih hks (fun i hi => hp i (List.mem_cons_of_mem _ hi))
    by_cases hpre : p <+: j
    · rw [List.takeWhile_cons_of_pos (List.isPrefixOf_iff_prefix.mpr hpre), List.mem_cons,
        List.mem_cons, ih]
      constructor
      · rintro (rfl | h)
        · exact ⟨.inl rfl, hpre⟩
        · exact ⟨.inr h.1, h.2⟩
      · rintro ⟨rfl | h, hk⟩
        · exact .inl rfl
        · exact .inr ⟨h, hk⟩
    · -- Everything after the first key outside the prefix is above all keys inside it.
      rw [List.takeWhile_cons_of_neg (by rwa [List.isPrefixOf_iff_prefix])]
      refine iff_of_false List.not_mem_nil ?_
      rintro ⟨hk, hpk⟩
      have hlt : p < j := (hp j List.mem_cons_self).lt_of_ne (fun h => hpre (h ▸ List.prefix_rfl))
      obtain ⟨rest, rfl⟩ := hpk
      have habove : p ++ rest < j := Bytes.append_lt_of_not_isPrefix hlt hpre rest
      rcases List.mem_cons.mp hk with heq | hk
      · exact habove.ne heq
      · exact (habove.trans (hj _ hk)).false

lemma pairwise_map_fst_fromKey (s : SortedSet Bytes) (p : Bytes) :
    ((SortedMap.fromKey s p).map Prod.fst).Pairwise (· < ·) :=
  List.pairwise_map.mpr (SortedMap.fromKey_sorted s p)

@[simp] lemma mem_under {s : SortedSet Bytes} {p k : Bytes} : k ∈ s.under p ↔ k ∈ s ∧ p <+: k := by
  have hge : ∀ j ∈ (SortedMap.fromKey s p).map Prod.fst, p ≤ j := by
    intro j hj
    obtain ⟨e, he, rfl⟩ := List.mem_map.mp hj
    simpa using (List.mem_filter.mp he).2
  rw [under, mem_takeWhile_isPrefixOf (pairwise_map_fst_fromKey s p) hge]
  refine and_congr_left (fun hpk => ?_)
  have hle : p ≤ k := by
    obtain ⟨rest, rfl⟩ := hpk
    have hnil : ([] : Bytes) ≤ rest := not_lt.mp (List.not_lt_nil rest)
    simpa using (Bytes.append_le_append_left_iff p [] rest).mpr hnil
  rw [← mem_toList, toList, SortedMap.keys, SortedMap.fromKey, List.mem_map, List.mem_map]
  constructor
  · rintro ⟨e, he, rfl⟩
    exact ⟨e, (List.mem_filter.mp he).1, rfl⟩
  · rintro ⟨e, he, rfl⟩
    exact ⟨e, List.mem_filter.mpr ⟨he, by simpa using hle⟩, rfl⟩

lemma under_congr {s t : SortedSet Bytes} {p : Bytes} (h : ∀ k, p <+: k → (k ∈ t ↔ k ∈ s)) :
    t.under p = s.under p := by
  have hsorted : ∀ r : SortedSet Bytes, (r.under p).Pairwise (· < ·) := fun r =>
    (pairwise_map_fst_fromKey r p).sublist (List.takeWhile_sublist _)
  refine (hsorted t).sortedLT.eq_of_mem_iff (hsorted s).sortedLT (fun k => ?_)
  rw [mem_under, mem_under]
  exact and_congr_left (fun hp => h k hp)

end Prefixes

end SortedSet
