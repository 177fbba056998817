import NodedbLite.Binary64Bits
import NodedbLite.CodeOrder
import NodedbLite.IndexKey

/-! Storage keys and values of sorted-index entries. Every entry key of one index starts with the
root, the length-prefixed name and a tag; behind it a score entry has fixed-width fields in key
order and then the primary key, so its keys sort by score, then timestamp, then primary key. -/
namespace NodedbLite.Sorted

def root : Bytes := Bytes.ofString "kv_sorted:"

def scoreTag : UInt8 := 0x73

/-- The width of an encoded score and of an encoded timestamp. -/
def fieldLen : Nat := 8

abbrev Field := {b : Bytes // b.length = fieldLen}

/-- The prefix of every entry of an index. The length saturates. -/
def entriesPrefix (indexName : String) : Bytes :=
  let bytes := Bytes.ofString indexName
  root ++ (Bytes.ofNatBE 4 (min bytes.length (2 ^ 32 - 1)) ++ bytes)

def scorePrefix (indexName : String) : Bytes := entriesPrefix indexName ++ [scoreTag]

def scoreKey (indexName : String) (score : Field) (pk : Bytes) : Bytes :=
  scorePrefix indexName ++ (score.1 ++ pk)

def windowedScoreKey (indexName : String) (score ts : Field) (pk : Bytes) : Bytes :=
  scorePrefix indexName ++ (score.1 ++ (ts.1 ++ pk))

/-- The big-endian bytes of a word. -/
def beBytes (word : UInt64) : Field := ⟨Bytes.ofNatBE fieldLen word.toNat, Bytes.length_ofNatBE _ _⟩

def fromBeBytes (bytes : Field) : UInt64 := UInt64.ofNat (Bytes.toNatBE bytes.1)

/-- A score, as its binary64 word, in bytes that order like ascending numbers. -/
def f64ToSortBytes (score : UInt64) : Field :=
  beBytes (if score >>> 63 = 0 then score ^^^ ((1 : UInt64) <<< 63) else ~~~score)

/-- Every byte complemented, which reverses byte order for a descending field. -/
def complement (bytes : Field) : Field :=
  ⟨bytes.1.map (~~~ ·), by rw [List.length_map, bytes.2]⟩

def encodeScore (score : UInt64) (desc : Bool) : Field :=
  if desc then complement (f64ToSortBytes score) else f64ToSortBytes score

def encodeTs (tsMs : UInt64) (desc : Bool) : Field :=
  if desc then complement (beBytes tsMs) else beBytes tsMs

def decodeTs (bytes : Field) (desc : Bool) : UInt64 :=
  fromBeBytes (if desc then complement bytes else bytes)

/-- What a row contributes to one sorted index: its score entry's fields in key order, the timestamp
exactly when the index is windowed, and its expiry deadline, zero for none. -/
structure PkEntry where
  score : Field
  ts : Option Field
  deadline : UInt64
  deriving DecidableEq

namespace PkEntry

def scoreKey (e : PkEntry) (indexName : String) (pk : Bytes) : Bytes :=
  match e.ts with
  | some ts => windowedScoreKey indexName e.score ts pk
  | none => Sorted.scoreKey indexName e.score pk

def scoreValue (e : PkEntry) : Bytes := Bytes.ofNatLE fieldLen e.deadline.toNat

end PkEntry

section Fields

lemma toNat_flip_sign (score : UInt64) :
    (if score >>> 63 = 0 then score ^^^ ((1 : UInt64) <<< 63) else ~~~score).toNat =
      Binary64.sortKey score := by
  have hsign : score >>> 63 = 0 ↔ ¬ score &&& Binary64.signWord ≠ 0 := by
    have hlt := score.toNat_lt
    have hshift : (score >>> 63).toNat = score.toNat / 2 ^ 63 := by
      rw [UInt64.toNat_shiftRight, Nat.shiftRight_eq_div_pow]
      rfl
    rw [Binary64.and_signWord_ne_zero_iff, Binary64.isNegative, decide_eq_true_eq,
      ← UInt64.toNat_inj, hshift, UInt64.toNat_zero]
    omega
  rw [← Binary64.toNat_flip]
  congr 1
  by_cases h : score &&& Binary64.signWord ≠ 0
  · rw [if_neg (fun hz => (hsign.mp hz) h), if_pos h]
  · rw [if_pos (hsign.mpr h), if_neg h]
    rfl

lemma beBytes_le_iff (a b : UInt64) : beBytes a ≤ beBytes b ↔ a ≤ b := by
  rw [← Subtype.coe_le_coe, UInt64.le_iff_toNat_le]
  exact Bytes.ofNatBE_le_ofNatBE_iff a.toNat_lt b.toNat_lt

@[simp] lemma fromBeBytes_beBytes (word : UInt64) : fromBeBytes (beBytes word) = word := by
  have hlt : word.toNat < 256 ^ fieldLen := word.toNat_lt
  rw [fromBeBytes, beBytes, Bytes.toNatBE_ofNatBE, Nat.mod_eq_of_lt hlt, UInt64.ofNat_toNat]

lemma f64ToSortBytes_le_iff (a b : UInt64) :
    f64ToSortBytes a ≤ f64ToSortBytes b ↔ Binary64.sortKey a ≤ Binary64.sortKey b := by
  rw [f64ToSortBytes, f64ToSortBytes, beBytes_le_iff, UInt64.le_iff_toNat_le, toNat_flip_sign,
    toNat_flip_sign]

lemma complement_lt_iff (a b : Field) : complement a < complement b ↔ b < a := by
  rw [← Subtype.coe_lt_coe, ← Subtype.coe_lt_coe]
  exact Bytes.map_not_lt_map_not_iff (a.2.trans b.2.symm)

lemma complement_le_iff (a b : Field) : complement a ≤ complement b ↔ b ≤ a := by
  rw [← not_lt, complement_lt_iff, not_lt]

@[simp] lemma complement_complement (a : Field) : complement (complement a) = a := by
  apply Subtype.ext
  simp [complement, Function.comp_def]

lemma decodeTs_encodeTs (t : UInt64) (desc : Bool) : decodeTs (encodeTs t desc) desc = t := by
  cases desc <;> simp [decodeTs, encodeTs]

end Fields

end NodedbLite.Sorted
