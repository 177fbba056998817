import NodedbLite.KvCodec

/-! Scans of the key-value namespace. Every scan reads a bounded window of stored entries
and runs the same row loop over it; the window counts expired rows, the loop skips them. -/
namespace NodedbLite.Kv

/-- `scan_range`: up to `limit` entries from `start` on. -/
def scanRange (store : Store) (start : Bytes) (limit : Nat) : List (Bytes × Bytes) :=
  (store.fromKey start).take limit

/-- A list cut at an optional cap. -/
def capped {α : Type*} : Option Nat → List α → List α
  | none, l => l
  | some n, l => l.take n

lemma capped_append_map {α β : Type*} (f : α → β) (limit : Option Nat) (l : List α) (m : List β) :
    ∃ r : List β, capped limit (l.map f ++ m) = (capped limit l).map f ++ r ∧ r ⊆ m := by
  cases limit with
  | none => exact ⟨m, rfl, List.Subset.refl m⟩
  | some n =>
    refine ⟨m.take (n - (l.map f).length), ?_, List.take_subset _ _⟩
    simp only [capped, List.take_append, List.map_take]

/-- `scan_range_bounded`: the entries with `start ≤ key < end`, up to `limit` of them. -/
def scanRangeBounded (store : Store) (start : Bytes) (stop : Option Bytes)
    (limit : Option Nat) : List (Bytes × Bytes) :=
  capped limit ((store.fromKey start).filter (fun e => stop.all (fun s => e.1 < s)))

structure ScanOut where
  pairs : List (Bytes × Bytes)
  expired : List Bytes
  deriving DecidableEq, Repr

/-- The row loop of the KV scans: stop at `limit` rows or at another collection, skip
what does not split or decode, note expired keys, and keep the other rows. -/
def scanLoop (now : UInt64) (collection : String) (limit : Option Nat) (keep : Bytes → Bool) :
    List (Bytes × Bytes) → ScanOut → ScanOut
  | [], out => out
  | (compositeKey, rawValue) :: rest, out =>
    if limit.any (fun n => n ≤ out.pairs.length) then out
    else match splitKvKey compositeKey with
      | none => scanLoop now collection limit keep rest out
      | some (coll, userKey) =>
        if coll ≠ collection then out
        else match decodeValue rawValue with
          | none => scanLoop now collection limit keep rest out
          | some (deadline, userBytes) =>
            if isExpired now deadline then
              scanLoop now collection limit keep rest
                { out with expired := out.expired ++ [kvKey collection userKey] }
            else if keep userKey then
              scanLoop now collection limit keep rest
                { out with pairs := out.pairs ++ [(userKey, userBytes)] }
            else scanLoop now collection limit keep rest out

structure MaterializePage where
  nextCursor : Bytes
  pairs : List (Bytes × Bytes)
  deriving DecidableEq, Repr

/-- One call of `kv_materialize_scan`. The page size is a machine word, so the look-ahead
`count + 1` wraps at its largest value. -/
def kvMaterializeScan (store : Store) (now : UInt64) (collection : String) (cursor : Bytes)
    (count : UInt64) : MaterializePage :=
  let start := kvKey collection cursor
  let rawEntries := scanRange store start (count + 1).toNat
  let pairs := (scanLoop now collection (some count.toNat) (fun _ => true) rawEntries
    ⟨[], []⟩).pairs
  { nextCursor := if pairs.length < count.toNat then [] else (pairs.getLast?.map Prod.fst).getD []
    pairs := pairs }

/-- The stored entries of a collection under their user keys, in key order. -/
def collectionEntries (store : Store) (collection : String) : List (Bytes × Bytes) :=
  store.entries.filterMap fun e =>
    if (kvKey collection []).isPrefixOf e.1 then
      some (e.1.drop (kvKey collection []).length, e.2)
    else none

/-- A stored entry as a reader at time `now` sees it. -/
def liveEntry (now : UInt64) (e : Bytes × Bytes) : Option (Bytes × Bytes) :=
  match decodeValue e.2 with
  | none => none
  | some (deadline, body) => if isExpired now deadline then none else some (e.1, body)

def liveEntries (store : Store) (now : UInt64) (collection : String) : List (Bytes × Bytes) :=
  (collectionEntries store collection).filterMap (liveEntry now)

def ownEntry (collection : String) (e : Bytes × Bytes) : Bytes × Bytes :=
  (kvKey collection e.1, e.2)

lemma isPrefixOf_kvKey_iff {collection : String} {k : Bytes} :
    (kvKey collection []).isPrefixOf k = true ↔ ∃ u, k = kvKey collection u := by
  rw [List.isPrefixOf_iff_prefix]
  constructor
  · rintro ⟨u, rfl⟩
    exact ⟨u, (kvKey_eq_append collection u).symm⟩
  · rintro ⟨u, rfl⟩
    exact ⟨u, (kvKey_eq_append collection u).symm⟩

lemma map_ownEntry_collectionEntries (store : Store) (collection : String) :
    (collectionEntries store collection).map (ownEntry collection) =
      store.entries.filter (fun e => (kvKey collection []).isPrefixOf e.1) := by
  unfold collectionEntries
  induction store.entries with
  | nil => rfl
  | cons e es ih =>
    by_cases hp : (kvKey collection []).isPrefixOf e.1 = true
    · obtain ⟨u, hu⟩ := isPrefixOf_kvKey_iff.mp hp
      have hdrop : e.1.drop (kvKey collection []).length = u := by
        rw [hu, kvKey_eq_append collection u, List.drop_left]
      have hown : ownEntry collection (u, e.2) = e := by rw [ownEntry, ← hu]
      simp only [List.filterMap_cons, hp, if_true, hdrop, List.map_cons, hown, ih,
        List.filter_cons]
    · simp only [List.filterMap_cons, hp, List.filter_cons, ih, Bool.false_eq_true, if_false]

lemma mem_collectionEntries {store : Store} {collection : String} {e : Bytes × Bytes} :
    e ∈ collectionEntries store collection ↔ store.get (kvKey collection e.1) = some e.2 := by
  have hinj : Function.Injective (ownEntry collection) := by
    intro a b h
    have hkey : kvKey collection a.1 = kvKey collection b.1 := congrArg Prod.fst h
    have hraw : a.2 = b.2 := (Prod.mk.inj h).2
    exact Prod.ext (kvKey_injective collection hkey) hraw
  rw [← List.mem_map_of_injective hinj, map_ownEntry_collectionEntries, List.mem_filter,
    SortedMap.get_eq_some_iff]
  simp only [ownEntry, isPrefixOf_kvKey_iff, and_iff_left_iff_imp]
  exact fun _ => ⟨e.1, rfl⟩

lemma collectionEntries_sorted (store : Store) (collection : String) :
    (collectionEntries store collection).Pairwise (fun a b => a.1 < b.1) := by
  have hmap : ((collectionEntries store collection).map (ownEntry collection)).Pairwise
      (fun a b => a.1 < b.1) := by
    rw [map_ownEntry_collectionEntries]
    exact store.sorted.filter _
  rw [List.pairwise_map] at hmap
  exact hmap.imp (fun h => kvKey_lt_kvKey.mp h)

/-- A scan from inside a collection first meets the rest of that collection. -/
lemma fromKey_kvKey (store : Store) (collection : String) (cursor : Bytes) :
    ∃ foreign : List (Bytes × Bytes),
      store.fromKey (kvKey collection cursor) =
        ((collectionEntries store collection).filter (fun e => cursor ≤ e.1)).map
          (ownEntry collection) ++ foreign ∧
      ∀ e ∈ foreign, ∀ u, e.1 ≠ kvKey collection u := by
  set start := kvKey collection cursor with hstart
  set own : Bytes × Bytes → Bool := fun e => (kvKey collection []).isPrefixOf e.1 with hown
  have hmono : (store.fromKey start).Pairwise (fun a b => own b = true → own a = true) := by
    refine (store.fromKey_sorted start).imp_of_mem ?_
    intro a b ha _ hab hb
    by_contra hna
    obtain ⟨u, hu⟩ := isPrefixOf_kvKey_iff.mp hb
    have hle : kvKey collection [] ≤ a.1 := by
      have hsa : start ≤ a.1 := by simpa using (List.mem_filter.mp ha).2
      exact le_trans (kvKey_le_kvKey.mpr (not_lt.mp (List.not_lt_nil cursor))) hsa
    have hnp : ¬ kvKey collection [] <+: a.1 := fun h => hna (List.isPrefixOf_iff_prefix.mpr h)
    have hlt : kvKey collection [] < a.1 :=
      lt_of_le_of_ne hle (fun h => hnp (h ▸ List.prefix_refl _))
    have hlast := Bytes.append_lt_of_not_isPrefix hlt hnp u
    rw [← kvKey_eq_append, ← hu] at hlast
    exact lt_asymm hab hlast
  refine ⟨(store.fromKey start).filter (fun e => !own e), ?_, ?_⟩
  · have hpart : (store.fromKey start).filter own =
        ((collectionEntries store collection).filter (fun e => cursor ≤ e.1)).map
          (ownEntry collection) := by
      rw [SortedMap.fromKey, List.filter_comm, ← map_ownEntry_collectionEntries,
        List.filter_map]
      congr 1
      refine List.filter_congr ?_
      intro e _
      simp [hstart, ownEntry]
    rw [← hpart, SortedMap.filter_append_filter_not hmono]
  · intro e he u hu
    have hne := (List.mem_filter.mp he).2
    rw [hown, Bool.not_eq_true', ← Bool.not_eq_true, isPrefixOf_kvKey_iff] at hne
    exact hne ⟨u, hu⟩

section Loop

variable {now : UInt64} {collection : String} {limit : Option Nat} {keep : Bytes → Bool}

lemma scanLoop_foreign {es : List (Bytes × Bytes)} (out : ScanOut)
    (h : ∀ e ∈ es, ∀ u, splitKvKey e.1 ≠ some (collection, u)) :
    scanLoop now collection limit keep es out = out := by
  induction es with
  | nil => rfl
  | cons e es ih =>
    obtain ⟨k, raw⟩ := e
    have htail := ih (fun e he => h e (List.mem_cons_of_mem _ he))
    unfold scanLoop
    split_ifs with hfull
    · rfl
    · split
      · exact htail
      · rename_i coll u hsplit
        have hne : coll ≠ collection := by
          rintro rfl
          exact h (k, raw) List.mem_cons_self u hsplit
        rw [if_pos hne]

def liveKept (now : UInt64) (keep : Bytes → Bool) (e : Bytes × Bytes) : Option (Bytes × Bytes) :=
  (liveEntry now e).filter (fun p => keep p.1)

lemma capped_eq_self_of_full {α : Type*} {l m : List α} {n : Nat} (h : l.length = n) :
    capped (some n) (l ++ m) = l := by
  simp [capped, ← h]

lemma scanLoop_pairs (hname : 0 ∉ Bytes.ofString collection) {es fs : List (Bytes × Bytes)}
    (hfs : ∀ e ∈ fs, ∀ u, e.1 ≠ kvKey collection u) (out : ScanOut)
    (hout : ∀ n, limit = some n → out.pairs.length ≤ n) :
    (scanLoop now collection limit keep (es.map (ownEntry collection) ++ fs) out).pairs =
      capped limit (out.pairs ++ es.filterMap (liveKept now keep)) := by
  induction es generalizing out with
  | nil =>
    have hforeign : ∀ e ∈ fs, ∀ u, splitKvKey e.1 ≠ some (collection, u) :=
      fun e he u hu => hfs e he u (eq_kvKey_of_splitKvKey hu).1
    rw [List.map_nil, List.nil_append, scanLoop_foreign out hforeign]
    cases limit with
    | none => simp [capped]
    | some n => simp [capped, List.take_of_length_le (hout n rfl)]
  | cons e es ih =>
    rw [List.map_cons, List.cons_append, ownEntry, scanLoop]
    have htail := ih out hout
    by_cases hfull : ∃ n, limit = some n ∧ n ≤ out.pairs.length
    · obtain ⟨n, rfl, hn⟩ := hfull
      have hlen : out.pairs.length = n := le_antisymm (hout n rfl) hn
      rw [if_pos (by simpa using hn), capped_eq_self_of_full hlen]
    · have hopen : ¬ limit.any (fun n => n ≤ out.pairs.length) = true := by
        intro hany
        cases limit with
        | none => simp at hany
        | some n => exact hfull ⟨n, rfl, by simpa using hany⟩
      have hroom : ∀ n, limit = some n → out.pairs.length + 1 ≤ n := by
        intro n hn
        by_contra hlt
        exact hfull ⟨n, hn, by omega⟩
      rw [if_neg hopen, splitKvKey_kvKey hname]
      simp only [ne_eq, not_true_eq_false, if_false]
      cases hdec : decodeValue e.2 with
      | none =>
        have hskip : liveKept now keep e = none := by simp [liveKept, liveEntry, hdec]
        rw [List.filterMap_cons_none hskip]
        exact htail
      | some d =>
        obtain ⟨deadline, body⟩ := d
        dsimp only
        by_cases hexp : isExpired now deadline = true
        · have hskip : liveKept now keep e = none := by simp [liveKept, liveEntry, hdec, hexp]
          rw [if_pos hexp, List.filterMap_cons_none hskip]
          exact ih { out with expired := out.expired ++ [kvKey collection e.1] } hout
        · rw [if_neg hexp]
          by_cases hkeep : keep e.1 = true
          · have htake : liveKept now keep e = some (e.1, body) := by
              simp [liveKept, liveEntry, hdec, hexp, hkeep]
            rw [if_pos hkeep, List.filterMap_cons_some htake]
            have hpush := ih { out with pairs := out.pairs ++ [(e.1, body)] }
              (fun n hn => by simpa using hroom n hn)
            simpa using hpush
          · have hskip : liveKept now keep e = none := by
              simp [liveKept, liveEntry, hdec, hexp, hkeep]
            rw [if_neg hkeep, List.filterMap_cons_none hskip]
            exact htail

end Loop

end NodedbLite.Kv
