import NodedbLite.SortedMap
import NodedbLite.ByteString

/-! Keys and values of the key-value namespace: `{collection}\0{user key}` and an 8-byte
little-endian deadline in front of the body. A deadline of zero never expires. -/
namespace NodedbLite.Kv

abbrev Store := SortedMap Bytes Bytes

abbrev WriteOp := SortedMap.Write Bytes Bytes

def deadlinePrefixLen : Nat := 8

def kvKey (collection : String) (key : Bytes) : Bytes :=
  Bytes.ofString collection ++ 0 :: key

def encodeValue (deadlineMs : UInt64) (value : Bytes) : Bytes :=
  Bytes.ofNatLE deadlinePrefixLen deadlineMs.toNat ++ value

def decodeValue (stored : Bytes) : Option (UInt64 × Bytes) :=
  if stored.length < deadlinePrefixLen then none
  else some (UInt64.ofNat (Bytes.toNatLE (stored.take deadlinePrefixLen)),
    stored.drop deadlinePrefixLen)

def isExpired (now deadlineMs : UInt64) : Bool := deadlineMs ≠ 0 && deadlineMs ≤ now

/-- The user bytes an encoded entry holds for a reader at `now`. -/
def visible (now : UInt64) (stored : Option Bytes) : Option Bytes :=
  stored.bind fun raw => (decodeValue raw).bind fun d =>
    if isExpired now d.1 then none else some d.2

/-- The composite key cut at its first zero byte. -/
def splitKvKey (composite : Bytes) : Option (String × Bytes) :=
  match composite.dropWhile (· ≠ 0) with
  | [] => none
  | _ :: key => (Bytes.toString? (composite.takeWhile (· ≠ 0))).map (fun coll => (coll, key))

@[simp] theorem decodeValue_encodeValue (d : UInt64) (body : Bytes) :
    decodeValue (encodeValue d body) = some (d, body) := by
  have hlen : (Bytes.ofNatLE deadlinePrefixLen d.toNat).length = deadlinePrefixLen :=
    Bytes.length_ofNatLE _ _
  have hd : d.toNat % 256 ^ deadlinePrefixLen = d.toNat := Nat.mod_eq_of_lt d.toNat_lt
  simp [decodeValue, encodeValue, List.take_left' hlen, List.drop_left' hlen, hd]

lemma kvKey_eq_append (collection : String) (key : Bytes) :
    kvKey collection key = kvKey collection [] ++ key := by simp [kvKey]

lemma kvKey_injective (collection : String) : Function.Injective (kvKey collection) := by
  intro a b h
  simpa [kvKey] using h

@[simp] lemma kvKey_le_kvKey {collection : String} {a b : Bytes} :
    kvKey collection a ≤ kvKey collection b ↔ a ≤ b := by
  rw [kvKey_eq_append collection a, kvKey_eq_append collection b,
    Bytes.append_le_append_left_iff]

@[simp] lemma kvKey_lt_kvKey {collection : String} {a b : Bytes} :
    kvKey collection a < kvKey collection b ↔ a < b := by
  rw [kvKey_eq_append collection a, kvKey_eq_append collection b,
    Bytes.append_lt_append_left_iff]

lemma splitKvKey_kvKey {collection : String} (h : 0 ∉ Bytes.ofString collection)
    (key : Bytes) : splitKvKey (kvKey collection key) = some (collection, key) := by
  have hall : ∀ b ∈ Bytes.ofString collection, decide (b ≠ 0) = true := by
    intro b hb
    simpa using fun hz : b = 0 => h (hz ▸ hb)
  rw [splitKvKey, kvKey, List.dropWhile_append_of_pos hall, List.takeWhile_append_of_pos hall]
  simp

lemma eq_kvKey_of_splitKvKey {composite : Bytes} {collection : String} {key : Bytes}
    (h : splitKvKey composite = some (collection, key)) :
    composite = kvKey collection key ∧ 0 ∉ Bytes.ofString collection := by
  unfold splitKvKey at h
  cases hd : composite.dropWhile (· ≠ 0) with
  | nil => simp only [hd, reduceCtorEq] at h
  | cons z rest =>
    simp only [hd, Option.map_eq_some_iff, Prod.mk.injEq] at h
    obtain ⟨coll, hcoll, rfl, rfl⟩ := h
    have hname := Bytes.ofString_of_toString? hcoll
    have hz : z = 0 := by
      have hne : composite.dropWhile (· ≠ 0) ≠ [] := by simp only [hd, ne_eq, reduceCtorEq,
        not_false_eq_true]
      have hhead := List.head_dropWhile_not _ hne
      simpa only [hd, List.head_cons, decide_eq_false_iff_not, not_not] using hhead
    have hjoin : composite.takeWhile (· ≠ 0) ++ composite.dropWhile (· ≠ 0) = composite :=
      List.takeWhile_append_dropWhile
    refine ⟨?_, ?_⟩
    · subst hz
      rw [kvKey, hname, ← hd, hjoin]
    · rw [hname]
      intro hmem
      simpa using List.mem_takeWhile_imp hmem

end NodedbLite.Kv
