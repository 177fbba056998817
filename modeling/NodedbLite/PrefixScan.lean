import NodedbLite.SortedMap
import NodedbLite.ByteString

/-! The entries of a map whose keys extend a byte string: a scan that starts there and stops at
the first other key finds them all. -/
namespace PrefixScan

variable {V : Type*}

/-- The entries whose key starts with `p`, in key order. -/
def entriesUnder (m : SortedMap Bytes V) (p : Bytes) : List (Bytes × V) :=
  m.entries.filter (fun e => p.isPrefixOf e.1)

lemma le_of_isPrefix {p k : Bytes} (h : p <+: k) : p ≤ k := by
  obtain ⟨rest, rfl⟩ := h
  have hnil : ([] : Bytes) ≤ rest := not_lt.mp (List.not_lt_nil rest)
  simpa using (Bytes.append_le_append_left_iff p [] rest).mpr hnil

lemma not_isPrefix_of_lt {p j k : Bytes} (hp : p ≤ j) (hj : ¬ p <+: j) (hjk : j < k) :
    ¬ p <+: k := by
  rintro ⟨rest, rfl⟩
  have hne : p ≠ j := fun heq => hj (heq ▸ List.prefix_refl p)
  have hlt := Bytes.append_lt_of_not_isPrefix (lt_of_le_of_ne hp hne) hj rest
  exact absurd (hlt.trans hjk) (lt_irrefl _)

lemma takeWhile_eq_filter {p : Bytes} {l : List (Bytes × V)}
    (hs : l.Pairwise (fun a b => a.1 < b.1)) (hp : ∀ e ∈ l, p ≤ e.1) :
    l.takeWhile (fun e => p.isPrefixOf e.1) = l.filter (fun e => p.isPrefixOf e.1) := by
  induction l with
  | nil => rfl
  | cons e l ih =>
    obtain ⟨he, hl⟩ := List.pairwise_cons.mp hs
    by_cases hpre : p <+: e.1
    · have hyes : p.isPrefixOf e.1 = true := List.isPrefixOf_iff_prefix.mpr hpre
      rw [List.takeWhile_cons, List.filter_cons, if_pos hyes, if_pos hyes,
        ih hl (fun x hx => hp x (List.mem_cons_of_mem _ hx))]
    · have hno : ¬ p.isPrefixOf e.1 = true := fun h => hpre (List.isPrefixOf_iff_prefix.mp h)
      rw [List.takeWhile_cons, List.filter_cons, if_neg hno, if_neg hno, eq_comm,
        List.filter_eq_nil_iff]
      intro x hx hyes
      exact not_isPrefix_of_lt (hp e List.mem_cons_self) hpre (he x hx)
        (List.isPrefixOf_iff_prefix.mp hyes)

/-- A scan from `p` that stops at the first key that does not extend it. -/
theorem takeWhile_fromKey (m : SortedMap Bytes V) (p : Bytes) :
    (m.fromKey p).takeWhile (fun e => p.isPrefixOf e.1) = entriesUnder m p := by
  have hge : ∀ e ∈ m.fromKey p, p ≤ e.1 := by
    intro e he
    exact of_decide_eq_true (List.mem_filter.mp he).2
  rw [takeWhile_eq_filter (m.fromKey_sorted p) hge, SortedMap.fromKey, List.filter_filter,
    entriesUnder]
  apply List.filter_congr
  intro e _
  rw [Bool.and_eq_left_iff_imp]
  exact fun hpre => decide_eq_true (le_of_isPrefix (List.isPrefixOf_iff_prefix.mp hpre))

lemma mem_entriesUnder {m : SortedMap Bytes V} {p k : Bytes} {v : V} :
    (k, v) ∈ entriesUnder m p ↔ m.get k = some v ∧ p <+: k := by
  rw [entriesUnder, List.mem_filter, ← SortedMap.get_eq_some_iff, List.isPrefixOf_iff_prefix]

end PrefixScan
