import NodedbLite.Digits
import NodedbLite.GuardedRun
import NodedbLite.PrefixScan

/-! The storage keys of the documents: a base snapshot a collection, updates on top of it under
numbered keys, and the deltas not yet sent. The stored updates of a collection are a view of the store
by number. -/
namespace NodedbLite.Crdt

section Keys

def snapshotKey : Bytes := Bytes.ofString "loro_snapshot:"

def stateDeltaKey : Bytes := Bytes.ofString "loro_delta:"

def snapshotKeyFor (collection : String) : Bytes := snapshotKey ++ Bytes.ofString collection

/-- `loro_delta:<collection>:<seq:016x>`. -/
def stateDeltaKeyFor (collection : String) (seq : Nat) : Bytes :=
  stateDeltaKey ++ (Bytes.ofString collection ++ 58 :: Digits.encode 16 16 seq)

/-- `delta:<mutation id:016x>`, the key of an unsent delta. -/
def deltaStorageKey (mutationId : Nat) : Bytes :=
  Bytes.ofString "delta:" ++ Digits.encode 16 16 mutationId

/-- What follows the snapshot prefix, if it is a text with at least one character. -/
def collectionFromSnapshotKey (key : Bytes) : Option String :=
  if snapshotKey.isPrefixOf key then
    (Bytes.toString? (key.drop snapshotKey.length)).filter (· ≠ "")
  else none

/-- Cut at the last separator. -/
def rsplitOnce (sep : UInt8) (bs : Bytes) : Option (Bytes × Bytes) :=
  match bs.reverse.dropWhile (· ≠ sep) with
  | [] => none
  | _ :: left => some (left.reverse, (bs.reverse.takeWhile (· ≠ sep)).reverse)

/-- `u64::from_str_radix(_, 16)`: an optional plus sign, at least one digit, no overflow. -/
def fromStrRadix16 (bs : Bytes) : Option Nat :=
  let digits := if bs.head? = some 43 then bs.tail else bs
  if digits.isEmpty then none
  else (Digits.decode 16 digits).filter (· < 2 ^ 64)

/-- `state_delta_from_key`. What follows the last colon is a number only if it is ASCII, so the
suffix is text exactly when the part before the colon is. -/
def stateDeltaFromKey (key : Bytes) : Option (String × Nat) :=
  if stateDeltaKey.isPrefixOf key then
    (rsplitOnce 58 (key.drop stateDeltaKey.length)).bind fun (left, right) =>
      (Bytes.toString? left).bind fun collection =>
        if collection = "" then none
        else (fromStrRadix16 right).map (fun seq => (collection, seq))
  else none

/-- The updates stored for a collection, with their numbers, in key order. -/
def storedDeltas {Blob : Type} (store : SortedMap Bytes Blob) (collection : String) : List (Nat × Blob) :=
  store.entries.filterMap fun e =>
    (stateDeltaFromKey e.1).bind fun k => if k.1 = collection then some (k.2, e.2) else none

lemma rsplitOnce_append {sep : UInt8} {right : Bytes} (left : Bytes) (h : sep ∉ right) :
    rsplitOnce sep (left ++ sep :: right) = some (left, right) := by
  have hall : ∀ b ∈ right.reverse, decide (b ≠ sep) = true := by
    intro b hb
    simpa using fun heq : b = sep => h (heq ▸ List.mem_reverse.mp hb)
  have hrev : (left ++ sep :: right).reverse = right.reverse ++ sep :: left.reverse := by simp
  rw [rsplitOnce, hrev, List.dropWhile_append_of_pos hall, List.takeWhile_append_of_pos hall]
  simp

lemma fromStrRadix16_encode {seq : Nat} (h : seq < 2 ^ 64) :
    fromStrRadix16 (Digits.encode 16 16 seq) = some seq := by
  have hhead : (Digits.encode 16 16 seq).head? ≠ some 43 := by
    have hdigit : ∀ n < 16, Digits.digit n ≠ 43 := by decide
    have hfirst := hdigit (seq / 16 ^ 15 % 16) (Nat.mod_lt _ (by decide))
    rw [Digits.encode, List.head?_cons]
    exact fun heq => hfirst (Option.some.inj heq)
  have hne : (Digits.encode 16 16 seq).isEmpty = false := by simp [Digits.encode]
  have hdec : Digits.decode 16 (Digits.encode 16 16 seq) = some seq :=
    Digits.decode_encode (by decide) (by decide) (by omega)
  rw [fromStrRadix16, if_neg hhead, hne, hdec]
  simp only [Bool.false_eq_true, if_false, Option.filter, decide_eq_true h, if_true]

/-- A stored update is routed back to its collection and number; one of a collection without a
name cannot be. -/
theorem stateDeltaFromKey_keyFor (collection : String) {seq : Nat} (h : seq < 2 ^ 64) :
    stateDeltaFromKey (stateDeltaKeyFor collection seq) =
      if collection = "" then none else some (collection, seq) := by
  have hpre : stateDeltaKey.isPrefixOf (stateDeltaKeyFor collection seq) = true := by
    rw [List.isPrefixOf_iff_prefix]
    exact ⟨_, rfl⟩
  have hdrop : (stateDeltaKeyFor collection seq).drop stateDeltaKey.length =
      Bytes.ofString collection ++ 58 :: Digits.encode 16 16 seq := by
    simp [stateDeltaKeyFor]
  rw [stateDeltaFromKey, if_pos hpre, hdrop,
    rsplitOnce_append _ (Digits.colon_notMem_encode 16 seq)]
  simp [fromStrRadix16_encode h]

lemma take_snapshotKeyFor (c : String) : (snapshotKeyFor c).take 6 = Bytes.ofString "loro_s" := by
  rw [snapshotKeyFor, List.take_append_of_le_length (by decide)]
  decide

lemma take_stateDeltaKeyFor (c : String) (i : Nat) :
    (stateDeltaKeyFor c i).take 6 = Bytes.ofString "loro_d" := by
  rw [stateDeltaKeyFor, List.take_append_of_le_length (by decide)]
  decide

lemma snapshotKeyFor_ne_stateDeltaKeyFor (c c' : String) (i : Nat) :
    snapshotKeyFor c ≠ stateDeltaKeyFor c' i := by
  intro h
  have htake := congrArg (List.take 6) h
  rw [take_snapshotKeyFor, take_stateDeltaKeyFor] at htake
  exact absurd htake (by decide)

lemma stateDeltaFromKey_snapshotKeyFor (c : String) :
    stateDeltaFromKey (snapshotKeyFor c) = none := by
  rw [stateDeltaFromKey, if_neg]
  intro hpre
  obtain ⟨rest, hrest⟩ := List.isPrefixOf_iff_prefix.mp hpre
  have htake := congrArg (List.take 6) hrest
  rw [take_snapshotKeyFor, List.take_append_of_le_length (by decide)] at htake
  exact absurd htake (by decide)

lemma snapshotKeyFor_injective : Function.Injective snapshotKeyFor := by
  intro c c' h
  exact Bytes.ofString_injective (List.append_cancel_left h)

lemma stateDeltaKeyFor_inj {c c' : String} {i j : Nat} (hi : i < 2 ^ 64) (hj : j < 2 ^ 64)
    (h : stateDeltaKeyFor c i = stateDeltaKeyFor c' j) : c = c' ∧ i = j := by
  obtain ⟨hc, htail⟩ := List.append_inj' (List.append_cancel_left h) (by simp)
  refine ⟨Bytes.ofString_injective hc, ?_⟩
  exact Digits.encode_injOn (by decide) (by decide) (by omega) (by omega) (List.cons_inj_right _ |>.mp htail)

/-- Zero padding makes key order replay order. -/
lemma stateDeltaKeyFor_lt {c : String} {i j : Nat} (hj : j < 2 ^ 64) (h : i < j) :
    stateDeltaKeyFor c i < stateDeltaKeyFor c j := by
  simp only [stateDeltaKeyFor, Bytes.append_lt_append_left_iff]
  exact List.Lex.cons (Digits.encode_lt_encode (by decide) (by decide) (by omega) h)

/-- A key a flush writes. -/
def IsStateKey (k : Bytes) : Prop :=
  (∃ c, k = snapshotKeyFor c) ∨ ∃ c i, i < 2 ^ 64 ∧ k = stateDeltaKeyFor c i

lemma eq_keyFor_of_stateDeltaFromKey {k : Bytes} {c : String} {i : Nat} (hk : IsStateKey k)
    (h : stateDeltaFromKey k = some (c, i)) : i < 2 ^ 64 ∧ k = stateDeltaKeyFor c i := by
  rcases hk with ⟨c', rfl⟩ | ⟨c', j, hj, rfl⟩
  · simp [stateDeltaFromKey_snapshotKeyFor] at h
  · rw [stateDeltaFromKey_keyFor c' hj] at h
    split_ifs at h
    obtain ⟨rfl, rfl⟩ := Prod.mk.inj (Option.some.inj h)
    exact ⟨hj, rfl⟩

end Keys

section View

variable {Blob : Type} {store : SortedMap Bytes Blob} {c : String}

/-- Storage holds only keys a flush writes. -/
def StateKeys (store : SortedMap Bytes Blob) : Prop := ∀ e ∈ store.entries, IsStateKey e.1

lemma mem_storedDeltas (hk : StateKeys store) (hc : c ≠ "") {i : Nat} {b : Blob} :
    (i, b) ∈ storedDeltas store c ↔ i < 2 ^ 64 ∧ store.get (stateDeltaKeyFor c i) = some b := by
  simp only [storedDeltas, List.mem_filterMap, Option.bind_eq_some_iff]
  constructor
  · intro h
    obtain ⟨⟨k, b'⟩, he, ⟨c', j⟩, hparse, hsome⟩ := h
    split_ifs at hsome with heq
    obtain ⟨rfl, rfl⟩ := Prod.mk.inj (Option.some.inj hsome)
    obtain ⟨hi, hkey⟩ := eq_keyFor_of_stateDeltaFromKey (hk _ he) hparse
    simp only at hkey heq
    subst heq
    exact ⟨hi, SortedMap.get_eq_some_iff.mpr (hkey ▸ he)⟩
  · intro h
    refine ⟨_, SortedMap.get_eq_some_iff.mp h.2, (c, i), ?_, by simp⟩
    rw [stateDeltaFromKey_keyFor c h.1, if_neg hc]

lemma storedDeltas_sorted (hk : StateKeys store) :
    (storedDeltas store c).Pairwise (fun a b => a.1 < b.1) := by
  have hmem : store.entries.Pairwise (fun a b => IsStateKey a.1 ∧ IsStateKey b.1 ∧ a.1 < b.1) :=
    store.sorted.imp_of_mem (fun ha hb hlt => ⟨hk _ ha, hk _ hb, hlt⟩)
  refine List.Pairwise.filterMap _ ?_ hmem
  intro a a' h x hx y hy
  obtain ⟨⟨c₁, i⟩, hpa, hxi⟩ := Option.bind_eq_some_iff.mp hx
  obtain ⟨⟨c₂, j⟩, hpb, hyj⟩ := Option.bind_eq_some_iff.mp hy
  split_ifs at hxi hyj with h₁ h₂
  obtain rfl := Option.some.inj hxi
  obtain rfl := Option.some.inj hyj
  obtain ⟨hi, hka⟩ := eq_keyFor_of_stateDeltaFromKey h.1 hpa
  obtain ⟨hj, hkb⟩ := eq_keyFor_of_stateDeltaFromKey h.2.1 hpb
  simp only at h₁ h₂
  subst h₁ h₂
  by_contra hle
  have hkeys := h.2.2
  rw [hka, hkb] at hkeys
  rcases Nat.lt_or_eq_of_le (Nat.not_lt.mp hle) with hlt | heq
  · exact absurd (hkeys.trans (stateDeltaKeyFor_lt hi hlt)) (lt_irrefl _)
  · simp only at heq
    exact absurd (heq ▸ hkeys) (lt_irrefl _)

end View

section Codec

variable {Blob : Type} {store : SortedMap Bytes Blob} {c c' : String} {i j : Nat}

lemma collectionFromSnapshotKey_keyFor (c : String) :
    collectionFromSnapshotKey (snapshotKeyFor c) = if c = "" then none else some c := by
  have hpre : snapshotKey.isPrefixOf (snapshotKeyFor c) = true :=
    List.isPrefixOf_iff_prefix.mpr (List.prefix_append _ _)
  rw [collectionFromSnapshotKey, if_pos hpre, snapshotKeyFor, List.drop_left,
    Bytes.toString?_ofString]
  by_cases hempty : c = "" <;> simp [Option.filter, hempty]

lemma deltaStorageKey_lt_iff (hi : i < 2 ^ 64) (hj : j < 2 ^ 64) :
    deltaStorageKey i < deltaStorageKey j ↔ i < j := by
  rw [deltaStorageKey, deltaStorageKey, Bytes.append_lt_append_left_iff]
  have hmono : ∀ {a b}, b < 2 ^ 64 → a < b → Digits.encode 16 16 a < Digits.encode 16 16 b :=
    fun hb hab => Digits.encode_lt_encode (by decide) (by decide) (by omega) hab
  refine ⟨fun hlt => ?_, hmono hj⟩
  rcases lt_trichotomy i j with h | rfl | h
  · exact h
  · exact absurd hlt (lt_irrefl _)
  · exact absurd (hlt.trans (hmono hi h)) (lt_irrefl _)

/-- What the update keys of a collection begin with. -/
def stateDeltasUnder (collection : String) : Bytes :=
  stateDeltaKey ++ (Bytes.ofString collection ++ [58])

/-- The keys that begin like those of `c` are of `c` and of the collections named `c`, a colon and
more: the number behind the last colon has none. -/
lemma stateDeltasUnder_isPrefix_iff :
    stateDeltasUnder c <+: stateDeltaKeyFor c' j ↔ c' = c ∨ ∃ d, c' = c ++ ":" ++ d := by
  have hcolon : Bytes.ofString ":" = [58] := by decide
  rw [stateDeltasUnder, stateDeltaKeyFor, List.prefix_append_right_inj]
  constructor
  · rintro ⟨tail, htail⟩
    rw [List.append_assoc, List.singleton_append, List.append_eq_append_iff] at htail
    rcases htail with ⟨x, hc', hx⟩ | ⟨x, hc, hx⟩
    · cases x with
      | nil =>
        rw [List.append_nil] at hc'
        exact .inl (Bytes.ofString_injective hc')
      | cons b x =>
        obtain ⟨rfl, -⟩ := List.cons_eq_cons.mp hx
        have hext : Bytes.ofString c' = Bytes.ofString (c ++ ":") ++ x := by
          rw [Bytes.ofString_append, hcolon, List.append_assoc, hc']
          rfl
        obtain ⟨d, rfl⟩ := Bytes.exists_ofString_of_append hext
        refine .inr ⟨d, Bytes.ofString_injective ?_⟩
        rw [hext, ← Bytes.ofString_append]
    · cases x with
      | nil =>
        rw [List.append_nil] at hc
        exact .inl (Bytes.ofString_injective hc.symm)
      | cons b x =>
        obtain ⟨-, hhex⟩ := List.cons_eq_cons.mp hx
        have hmem : (58 : UInt8) ∈ Digits.encode 16 16 j := by
          rw [hhex]
          simp
        exact absurd hmem (Digits.colon_notMem_encode 16 j)
  · rintro (rfl | ⟨d, rfl⟩)
    · exact ⟨Digits.encode 16 16 j, by simp⟩
    · refine ⟨Bytes.ofString d ++ 58 :: Digits.encode 16 16 j, ?_⟩
      simp [Bytes.ofString_append, hcolon]

lemma snapshotKeyFor_isPrefix_iff :
    snapshotKeyFor c <+: snapshotKeyFor c' ↔ ∃ d, c' = c ++ d := by
  rw [snapshotKeyFor, snapshotKeyFor, List.prefix_append_right_inj]
  constructor
  · rintro ⟨x, hx⟩
    obtain ⟨d, rfl⟩ := Bytes.exists_ofString_of_append hx.symm
    exact ⟨d, Bytes.ofString_injective (by rw [← hx, Bytes.ofString_append])⟩
  · rintro ⟨d, rfl⟩
    exact ⟨Bytes.ofString d, (Bytes.ofString_append c d).symm⟩

/-- The loop of restore for one collection: a prefix scan, kept to the entries whose key reads back to
the collection. -/
def scanDeltas (store : SortedMap Bytes Blob) (under : Bytes) (collection : String) :
    List (Nat × Blob) :=
  (PrefixScan.entriesUnder store under).filterMap fun e =>
    (stateDeltaFromKey e.1).bind fun k => if k.1 = collection then some (k.2, e.2) else none

/-- A scan from anything the collection's keys begin with finds them all. -/
lemma scanDeltas_eq (hk : StateKeys store) {under : Bytes} (hunder : under <+: stateDeltasUnder c) :
    scanDeltas store under c = storedDeltas store c := by
  rw [scanDeltas, storedDeltas, PrefixScan.entriesUnder, List.filterMap_filter]
  refine List.filterMap_congr fun e he => ?_
  split_ifs with hpre
  · rfl
  · -- a key that reads back to the collection would be found
    symm
    rw [Option.bind_eq_none_iff]
    intro k hread
    refine if_neg (fun hname => hpre ?_)
    obtain ⟨-, hkey⟩ := eq_keyFor_of_stateDeltaFromKey (hk e he) hread
    rw [hkey, hname, List.isPrefixOf_iff_prefix]
    exact hunder.trans (stateDeltasUnder_isPrefix_iff.mpr (.inl rfl))

/-- Keys read back to what they were built from, except for a collection without a name; they differ
unless built from the same; those that begin like the keys of `c` are of `c` or of a collection named
`c`, a colon and more; and a scan kept to one collection returns its updates by ascending number. -/
theorem state_keys_faithful (hk : StateKeys store) (c c' : String) (hi : i < 2 ^ 64)
    (hj : j < 2 ^ 64) :
    collectionFromSnapshotKey (snapshotKeyFor c) = (if c = "" then none else some c) ∧
      stateDeltaFromKey (stateDeltaKeyFor c i) = (if c = "" then none else some (c, i)) ∧
      (snapshotKeyFor c = snapshotKeyFor c' ↔ c = c') ∧
      (stateDeltaKeyFor c i = stateDeltaKeyFor c' j ↔ c = c' ∧ i = j) ∧
      snapshotKeyFor c ≠ stateDeltaKeyFor c' j ∧
      (snapshotKeyFor c <+: snapshotKeyFor c' ↔ ∃ d, c' = c ++ d) ∧
      (stateDeltasUnder c <+: stateDeltaKeyFor c' j ↔ c' = c ∨ ∃ d, c' = c ++ ":" ++ d) ∧
      (deltaStorageKey i < deltaStorageKey j ↔ i < j) ∧
      ∀ under, under <+: stateDeltasUnder c →
        (scanDeltas store under c).Pairwise (fun a b => a.1 < b.1) ∧
        (c ≠ "" → ∀ n b, (n, b) ∈ scanDeltas store under c ↔
          n < 2 ^ 64 ∧ store.get (stateDeltaKeyFor c n) = some b) := by
  refine ⟨collectionFromSnapshotKey_keyFor c, stateDeltaFromKey_keyFor c hi,
    snapshotKeyFor_injective.eq_iff, ⟨stateDeltaKeyFor_inj hi hj, ?_⟩,
    snapshotKeyFor_ne_stateDeltaKeyFor c c' j, snapshotKeyFor_isPrefix_iff,
    stateDeltasUnder_isPrefix_iff, deltaStorageKey_lt_iff hi hj, fun under hunder => ?_⟩
  · rintro ⟨rfl, rfl⟩
    rfl
  · rw [scanDeltas_eq hk hunder]
    exact ⟨storedDeltas_sorted hk, fun hc n b => mem_storedDeltas hk hc⟩

/-- Two updates of `a` around one of `a:b`. -/
def nestedNames : SortedMap Bytes Nat :=
  .ofList [(stateDeltaKeyFor "a" 0, 10), (stateDeltaKeyFor "a:b" 0, 20), (stateDeltaKeyFor "a" 11, 30)]

lemma nestedNames_stateKeys : StateKeys nestedNames := by
  intro e he
  have hentries : nestedNames.entries = [(stateDeltaKeyFor "a" 0, 10), (stateDeltaKeyFor "a" 11, 30),
      (stateDeltaKeyFor "a:b" 0, 20)] := by decide +kernel
  rw [hentries] at he
  fin_cases he
  · exact .inr ⟨"a", 0, by decide, rfl⟩
  · exact .inr ⟨"a", 11, by decide, rfl⟩
  · exact .inr ⟨"a:b", 0, by decide, rfl⟩

theorem state_keys_faithful_nested :
    scanDeltas nestedNames (stateDeltasUnder "a") "a" = [(0, 10), (11, 30)] ∧
      ((11, 30) ∈ scanDeltas nestedNames (stateDeltasUnder "a") "a" ↔
        11 < 2 ^ 64 ∧ nestedNames.get (stateDeltaKeyFor "a" 11) = some 30) := by
  obtain ⟨-, -, -, -, -, -, -, -, hscan⟩ := state_keys_faithful nestedNames_stateKeys "a" "a:b"
    (show 0 < 2 ^ 64 by decide) (show 11 < 2 ^ 64 by decide)
  exact ⟨by decide +kernel, (hscan _ (List.prefix_refl _)).2 (by decide) 11 30⟩

/-- The keys of `a:b` begin like those of `a`, and a collection without a name is not read back. -/
theorem names_share_scan_key :
    stateDeltasUnder "a" <+: stateDeltaKeyFor "a:b" 0 ∧
      stateDeltaFromKey (stateDeltaKeyFor "" 0) = none ∧
      collectionFromSnapshotKey (snapshotKeyFor "") = none := by
  refine ⟨?_, by decide +kernel, by decide +kernel⟩
  exact stateDeltasUnder_isPrefix_iff.mpr (.inr ⟨"b", by decide⟩)

end Codec

end NodedbLite.Crdt
