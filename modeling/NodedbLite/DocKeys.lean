import NodedbLite.DocHistory
import NodedbLite.CodeOrder

/-! Keys and values of versioned documents read back: with no colon in the collection's name and no
NUL in the id, a key tells its collection, its document and its time, and the keys of a document
are ordered by time. -/
namespace NodedbLite.Document

open Storage

/-- A time that is not before the epoch. -/
def InEpoch (ms : Int) : Prop := 0 ≤ ms ∧ ms ≤ i64Max

def InI64 (n : Int) : Prop := -2 ^ 63 ≤ n ∧ n ≤ i64Max

lemma InEpoch.inI64 {ms : Int} (h : InEpoch ms) : InI64 ms :=
  ⟨le_trans (by norm_num) h.1, h.2⟩

/-- Names without the separators of the keys. -/
structure Named (collection docId : String) : Prop where
  collection : colon ∉ Bytes.ofString collection
  docId : (0 : UInt8) ∉ Bytes.ofString docId

/-- The key of a version. -/
def historyKey (collection docId : String) (systemFromMs : Int) : Bytes :=
  docPrefix collection docId ++ formatSysFrom systemFromMs

lemma versionedDocKey_eq {collection docId : String} (h : (0 : UInt8) ∉ Bytes.ofString docId)
    (ms : Int) : versionedDocKey collection docId ms = .ok (historyKey collection docId ms) := by
  unfold versionedDocKey
  rw [if_neg h]
  rfl

lemma split_at_separator {x : UInt8} {a b a' b' : Bytes} (ha : x ∉ a) (ha' : x ∉ a')
    (h : a ++ x :: b <+: a' ++ x :: b') : a = a' ∧ b <+: b' := by
  induction a generalizing a' with
  | nil =>
    cases a' with
    | nil => exact ⟨rfl, (List.cons_prefix_cons.mp h).2⟩
    | cons y a' =>
      have heq : x = y := (List.cons_prefix_cons.mp h).1
      exact absurd (heq ▸ List.mem_cons_self) ha'
  | cons y a ih =>
    cases a' with
    | nil =>
      have heq : y = x := (List.cons_prefix_cons.mp h).1
      exact absurd (heq ▸ List.mem_cons_self) ha
    | cons z a' =>
      obtain ⟨rfl, hrest⟩ := List.cons_prefix_cons.mp h
      obtain ⟨rfl, hb⟩ := ih (fun hmem => ha (List.mem_cons_of_mem _ hmem))
        (fun hmem => ha' (List.mem_cons_of_mem _ hmem)) hrest
      exact ⟨rfl, hb⟩

section
variable {c c' d d' : String} {s s' : Int}

lemma docPrefix_eq (c d : String) :
    docPrefix c d = Bytes.ofString c ++ colon :: (Bytes.ofString d ++ [0]) := by
  simp [docPrefix]

lemma historyKey_eq (c d : String) (s : Int) :
    historyKey c d s
      = Bytes.ofString c ++ colon :: (Bytes.ofString d ++ 0 :: formatSysFrom s) := by
  simp [historyKey, docPrefix]

lemma latestVersionKey_injective (c : String) : Function.Injective (latestVersionKey c) := by
  intro d d' heq
  exact Bytes.ofString_injective (List.cons.inj (List.append_cancel_left heq)).2

lemma latestVersionKey_inj (h : Named c d) (h' : Named c' d')
    (heq : latestVersionKey c d = latestVersionKey c' d') : c = c' ∧ d = d' := by
  have hp : latestVersionKey c d <+: latestVersionKey c' d' := by
    rw [heq]
  obtain rfl := Bytes.ofString_injective (split_at_separator h.collection h'.collection hp).1
  exact ⟨rfl, latestVersionKey_injective c heq⟩

lemma collPrefix_isPrefix_iff (h : Named c d) (h' : Named c' d') :
    collPrefix c <+: historyKey c' d' s ↔ c = c' := by
  constructor
  · intro hp
    rw [historyKey_eq, collPrefix] at hp
    exact Bytes.ofString_injective (split_at_separator h.collection h'.collection hp).1
  · rintro rfl
    rw [historyKey_eq, collPrefix]
    exact (List.prefix_append_right_inj _).mpr (List.cons_prefix_cons.mpr ⟨rfl, List.nil_prefix⟩)

lemma docId_of_docPrefix (hd : (0 : UInt8) ∉ Bytes.ofString d) (hd' : (0 : UInt8) ∉ Bytes.ofString d')
    (hp : docPrefix c d <+: historyKey c d' s) : d = d' := by
  rw [historyKey_eq, docPrefix_eq, List.prefix_append_right_inj, List.cons_prefix_cons] at hp
  exact Bytes.ofString_injective (split_at_separator hd hd' hp.2).1

lemma docPrefix_isPrefix_iff (h : Named c d) (h' : Named c' d') :
    docPrefix c d <+: historyKey c' d' s ↔ c = c' ∧ d = d' := by
  constructor
  · intro hp
    rw [historyKey_eq, docPrefix_eq] at hp
    obtain ⟨hc, hrest⟩ := split_at_separator h.collection h'.collection hp
    obtain ⟨hd, _⟩ := split_at_separator h.docId h'.docId hrest
    exact ⟨Bytes.ofString_injective hc, Bytes.ofString_injective hd⟩
  · rintro ⟨rfl, rfl⟩
    exact List.prefix_append ..

lemma formatSysFrom_lt_iff (hs : InEpoch s) (hs' : InEpoch s') :
    formatSysFrom s < formatSysFrom s' ↔ s < s' := by
  have hlt : ∀ {a b : Int}, InEpoch a → InEpoch b → a < b → formatSysFrom a < formatSysFrom b := by
    intro a b ha hb hab
    obtain ⟨ha0, _⟩ := ha
    obtain ⟨hb0, hb1⟩ := hb
    unfold i64Max at hb1
    unfold formatSysFrom
    rw [Digits.encodeSigned_of_nonneg _ ha0, Digits.encodeSigned_of_nonneg _ hb0]
    apply Digits.encode_lt_encode (by decide) (by decide)
    · omega
    · omega
  constructor
  · intro h
    rcases lt_trichotomy s s' with hlt' | rfl | hgt
    · exact hlt'
    · exact absurd h (lt_irrefl _)
    · exact absurd (h.trans (hlt hs' hs hgt)) (lt_irrefl _)
  · exact hlt hs hs'

lemma historyKey_lt_iff (c d : String) (hs : InEpoch s) (hs' : InEpoch s') :
    historyKey c d s < historyKey c d s' ↔ s < s' := by
  unfold historyKey
  rw [Bytes.append_lt_append_left_iff, formatSysFrom_lt_iff hs hs']

lemma nul_notMem_formatSysFrom (s : Int) : (0 : UInt8) ∉ formatSysFrom s := by
  intro hmem
  exact absurd (Digits.bounds_of_mem_encodeSigned hmem).1 (by decide)

lemma decode_formatSysFrom (hs : InI64 s) :
    Digits.decodeSigned 64 (formatSysFrom s) = some s := by
  obtain ⟨hlow, hhigh⟩ := hs
  unfold i64Max at hhigh
  rcases lt_or_ge s 0 with hneg | hpos
  · apply Digits.decodeSigned_encodeSigned_of_neg hneg
    · omega
    · omega
  · apply Digits.decodeSigned_encodeSigned hpos
    · omega
    · omega

@[simp] lemma parseSysFrom_historyKey (c d : String) (hs : InI64 s) :
    parseSysFrom (historyKey c d s) = some s := by
  have hafter : afterLastNul (historyKey c d s) = some (formatSysFrom s) := by
    have hmem : (0 : UInt8) ∈ historyKey c d s := by simp [historyKey, docPrefix]
    unfold afterLastNul
    rw [if_pos hmem]
    congr 1
    rw [historyKey, docPrefix, List.reverse_append, List.takeWhile_append_of_pos]
    · simp
    · intro b hb
      rw [List.mem_reverse] at hb
      simp only [ne_eq, decide_eq_true_eq]
      rintro rfl
      exact nul_notMem_formatSysFrom s hb
  unfold parseSysFrom
  rw [hafter, Option.bind_some, decode_formatSysFrom hs]

lemma historyKey_inj (h : Named c d) (h' : Named c' d') (hs : InI64 s) (hs' : InI64 s')
    (heq : historyKey c d s = historyKey c' d' s') : c = c' ∧ d = d' ∧ s = s' := by
  have hp : docPrefix c d <+: historyKey c' d' s' := heq ▸ List.prefix_append ..
  obtain ⟨rfl, rfl⟩ := (docPrefix_isPrefix_iff h h').mp hp
  have hparse := congrArg parseSysFrom heq
  rw [parseSysFrom_historyKey c d hs, parseSysFrom_historyKey c d hs'] at hparse
  exact ⟨rfl, rfl, Option.some.inj hparse⟩

@[simp] lemma idOfKey_historyKey (h : (0 : UInt8) ∉ Bytes.ofString d) (s : Int) :
    idOfKey (collPrefix c) (historyKey c d s) = some d := by
  have hdrop : (historyKey c d s).drop (collPrefix c).length
      = Bytes.ofString d ++ 0 :: formatSysFrom s := by
    rw [historyKey_eq, collPrefix, List.length_append, ← List.drop_drop]
    simp
  have hmem : (0 : UInt8) ∈ Bytes.ofString d ++ 0 :: formatSysFrom s := by simp
  unfold idOfKey
  dsimp only
  rw [hdrop, if_pos hmem, List.takeWhile_append_of_pos]
  · simp
  · intro b hb
    simp only [ne_eq, decide_eq_true_eq]
    rintro rfl
    exact h hb

end

lemma i64OfBytes_i64ToBytes {n : Int} (h : InI64 n) : i64OfBytes (i64ToBytes n) = n := by
  unfold i64OfBytes i64ToBytes
  rw [Bytes.toNatLE_ofNatLE]
  obtain ⟨hlow, hhigh⟩ := h
  unfold i64Max at hhigh
  have hpow : (256 : Nat) ^ 8 = 2 ^ 64 := by norm_num
  have hmod : ((n % 2 ^ 64).toNat : Int) = n % 2 ^ 64 := Int.toNat_of_nonneg (by omega)
  have hlt : (n % 2 ^ 64).toNat < 2 ^ 64 := by omega
  rw [hpow, Nat.mod_eq_of_lt hlt, hmod]
  have hcast : ((2 : Int) ^ 64) = ((2 ^ 64 : Nat) : Int) := by norm_num
  rw [hcast, Int.emod_bmod]
  rw [Int.bmod_eq_of_le]
  · omega
  · omega

/-- A version whose times are `i64`. -/
def DecodedVersion.Typed (v : DecodedVersion) : Prop := InI64 v.validFromMs ∧ InI64 v.validUntilMs

@[simp] lemma decodeValue_encodeValue {v : DecodedVersion} (h : v.Typed) :
    decodeValue (encodeValue v) = .ok v := by
  have hlen : ∀ n, (i64ToBytes n).length = 8 := fun n => Bytes.length_ofNatLE 8 _
  have hlong : ¬ (encodeValue v).length < headerLen := by
    simp [encodeValue, headerLen, hlen]
    omega
  have hhead : (encodeValue v).headD 0 = v.tag.toU8 := rfl
  have hfrom : ((encodeValue v).drop 1).take 8 = i64ToBytes v.validFromMs := by
    simp [encodeValue, hlen]
  have huntil : ((encodeValue v).drop 9).take 8 = i64ToBytes v.validUntilMs := by
    have hdrop : (encodeValue v).drop 9 = i64ToBytes v.validUntilMs ++ v.body := by
      simp [encodeValue, hlen]
    rw [hdrop]
    simp [hlen]
  have hbody : (encodeValue v).drop 17 = v.body := by
    have hboth : (i64ToBytes v.validFromMs ++ i64ToBytes v.validUntilMs).length = 16 := by
      simp [hlen]
    change ((i64ToBytes v.validFromMs ++ i64ToBytes v.validUntilMs) ++ v.body).drop 16 = v.body
    rw [← hboth, List.drop_left]
  unfold decodeValue
  rw [if_neg hlong, hhead, VersionTag.fromU8_toU8]
  dsimp only
  rw [hfrom, huntil, hbody, i64OfBytes_i64ToBytes h.1, i64OfBytes_i64ToBytes h.2]

end NodedbLite.Document
