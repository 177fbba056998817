import Mathlib

/-! Byte strings: the lexicographic order they are stored in, fixed-width integers, and
the UTF-8 text they carry. -/
instance UInt8.linearOrder : LinearOrder UInt8 where
  le_refl := UInt8.le_refl
  le_trans _ _ _ := UInt8.le_trans
  lt_iff_le_not_ge a b := by
    simp only [UInt8.lt_iff_toNat_lt, UInt8.le_iff_toNat_le]
    omega
  le_antisymm _ _ := UInt8.le_antisymm
  le_total := UInt8.le_total
  toDecidableLE := inferInstance
  toDecidableEq := inferInstance
  toDecidableLT := inferInstance

abbrev Bytes := List UInt8

namespace Bytes

def ofString (s : String) : Bytes := s.toByteArray.data.toList

def toString? (b : Bytes) : Option String := String.fromUTF8? ⟨b.toArray⟩

@[simp] lemma toString?_ofString (s : String) : toString? (ofString s) = some s := by
  have harr : (⟨s.toByteArray.data.toList.toArray⟩ : ByteArray) = s.toByteArray := by simp
  simp only [toString?, ofString, harr, String.fromUTF8?, dif_pos s.isValidUTF8]
  rfl

lemma ofString_of_toString? {b : Bytes} {s : String} (h : toString? b = some s) :
    ofString s = b := by
  unfold toString? String.fromUTF8? at h
  split_ifs at h with hv
  obtain rfl := Option.some.inj h
  simp [ofString, String.fromUTF8]

lemma ofString_injective : Function.Injective ofString := by
  intro s t h
  have hs : toString? (ofString s) = toString? (ofString t) := by rw [h]
  simpa using hs

lemma utf8EncodeChar_of_lt {b : UInt8} (hb : b < 128) :
    String.utf8EncodeChar (Char.ofNat b.toNat) = [b] := by
  have h : ∀ n < 128, String.utf8EncodeChar (Char.ofNat n) = [UInt8.ofNat n] := by decide
  rw [h b.toNat (UInt8.lt_iff_toNat_lt.mp hb), UInt8.ofNat_toNat]

lemma exists_toString?_of_lt {bs : Bytes} (h : ∀ b ∈ bs, b < 128) : ∃ s, toString? bs = some s := by
  have hbytes : ofString (String.ofList (bs.map (fun b => Char.ofNat b.toNat))) = bs := by
    unfold ofString
    rw [String.toByteArray_ofList, List.utf8Encode]
    simp only [List.data_toByteArray]
    rw [List.flatMap_map]
    induction bs with
    | nil => rfl
    | cons b bs ih =>
      rw [List.flatMap_cons, utf8EncodeChar_of_lt (h b List.mem_cons_self),
        ih (fun x hx => h x (List.mem_cons_of_mem _ hx))]
      rfl
  exact ⟨_, by rw [← hbytes, toString?_ofString]⟩

lemma ofString_append (s t : String) : ofString (s ++ t) = ofString s ++ ofString t := by
  simp [ofString]

lemma ofString_ofList (l : List Char) :
    ofString (String.ofList l) = l.flatMap String.utf8EncodeChar := by
  unfold ofString
  rw [String.toByteArray_ofList, List.utf8Encode, List.data_toByteArray]

lemma eq_of_utf8EncodeChar_append {c d : Char} {x y : Bytes}
    (h : String.utf8EncodeChar c ++ x = String.utf8EncodeChar d ++ y) : c = d := by
  have hc := ByteArray.utf8DecodeChar?_utf8EncodeChar_append (b := x.toByteArray) (c := c)
  have hd := ByteArray.utf8DecodeChar?_utf8EncodeChar_append (b := y.toByteArray) (c := d)
  rw [← List.toByteArray_append, h, List.toByteArray_append, hd] at hc
  exact (Option.some.inj hc).symm

lemma exists_ofString_of_append {s t : String} {x : Bytes} (h : ofString s = ofString t ++ x) :
    ∃ u, x = ofString u := by
  have hchars : ∀ (l m : List Char) (x : Bytes),
      m.flatMap String.utf8EncodeChar = l.flatMap String.utf8EncodeChar ++ x →
      ∃ k, x = ofString (String.ofList k) := by
    intro l
    induction l with
    | nil =>
      intro m x hx
      exact ⟨m, by rw [ofString_ofList, hx]; rfl⟩
    | cons c l ih =>
      intro m x hx
      cases m with
      | nil =>
        have hne := String.utf8EncodeChar_ne_nil (c := c)
        simp_all
      | cons d m =>
        rw [List.flatMap_cons, List.flatMap_cons, List.append_assoc] at hx
        obtain rfl := eq_of_utf8EncodeChar_append hx
        exact ih m x (List.append_cancel_left hx)
  obtain ⟨k, hk⟩ := hchars t.toList s.toList x (by
    rw [← ofString_ofList, ← ofString_ofList, String.ofList_toList, String.ofList_toList, h])
  exact ⟨_, hk⟩

/-- The `w` low bytes of `n`, least significant first. -/
def ofNatLE : Nat → Nat → Bytes
  | 0, _ => []
  | w + 1, n => UInt8.ofNat n :: ofNatLE w (n / 256)

def toNatLE : Bytes → Nat
  | [] => 0
  | b :: bs => b.toNat + 256 * toNatLE bs

@[simp] lemma length_ofNatLE (w n : Nat) : (ofNatLE w n).length = w := by
  induction w generalizing n with
  | zero => rfl
  | succ w ih => simp [ofNatLE, ih]

@[simp] lemma toNatLE_ofNatLE (w n : Nat) : toNatLE (ofNatLE w n) = n % 256 ^ w := by
  induction w generalizing n with
  | zero => simp [ofNatLE, toNatLE, Nat.mod_one]
  | succ w ih =>
    have hb : (UInt8.ofNat n).toNat = n % 256 := by simp
    simp only [ofNatLE, toNatLE, ih, hb]
    rw [Nat.pow_succ, Nat.mul_comm (256 ^ w) 256, Nat.mod_mul]

/-- The `w` low bytes of `n`, most significant first. -/
def ofNatBE (w n : Nat) : Bytes := (ofNatLE w n).reverse

def toNatBE (b : Bytes) : Nat := toNatLE b.reverse

@[simp] lemma length_ofNatBE (w n : Nat) : (ofNatBE w n).length = w := by
  simp [ofNatBE]

/-- A signed number as the `w` bytes of its two's complement, most significant first. -/
def ofIntBE (w : Nat) (n : Int) : Bytes := ofNatBE w (n % 256 ^ w).toNat

@[simp] lemma toNatBE_ofNatBE (w n : Nat) : toNatBE (ofNatBE w n) = n % 256 ^ w := by
  simp [toNatBE, ofNatBE]

@[simp] lemma append_lt_append_left_iff (p a b : Bytes) : p ++ a < p ++ b ↔ a < b := by
  induction p with
  | nil => rfl
  | cons x p ih => simpa using ih

@[simp] lemma append_le_append_left_iff (p a b : Bytes) : p ++ a ≤ p ++ b ↔ a ≤ b := by
  rw [← not_lt, ← not_lt, append_lt_append_left_iff]

lemma append_lt_append_of_length_eq {p q : Bytes} (hlen : p.length = q.length) (hlt : p < q)
    (a b : Bytes) : p ++ a < q ++ b := by
  induction p generalizing q with
  | nil =>
    obtain rfl := List.length_eq_zero_iff.mp hlen.symm
    exact absurd hlt (lt_irrefl _)
  | cons x p ih =>
    cases q with
    | nil => exact absurd hlt (by simp)
    | cons y q =>
      rw [List.cons_append, List.cons_append, List.cons_lt_cons_iff]
      rcases List.cons_lt_cons_iff.mp hlt with hxy | ⟨rfl, hpq⟩
      · exact .inl hxy
      · exact .inr ⟨rfl, ih (Nat.succ.inj hlen) hpq⟩

lemma ofNatBE_lt_ofNatBE {w a b : Nat} (hab : a < b) (hb : b < 256 ^ w) :
    ofNatBE w a < ofNatBE w b := by
  induction w generalizing a b with
  | zero =>
    rw [Nat.pow_zero] at hb
    omega
  | succ w ih =>
    have hsplit : ∀ n, ofNatBE (w + 1) n = ofNatBE w (n / 256) ++ [UInt8.ofNat n] := by
      intro n
      simp [ofNatBE, ofNatLE]
    have hdiv : b / 256 < 256 ^ w := by
      rw [Nat.div_lt_iff_lt_mul (by norm_num)]
      rwa [Nat.pow_succ] at hb
    rw [hsplit, hsplit]
    rcases Nat.lt_or_ge (a / 256) (b / 256) with hlt | hge
    · exact append_lt_append_of_length_eq (by simp) (ih hlt hdiv) _ _
    · have heq : a / 256 = b / 256 := by omega
      rw [heq, append_lt_append_left_iff, List.cons_lt_cons_iff]
      have hbyte : ∀ n, (UInt8.ofNat n).toNat = n % 256 := fun n => by simp
      left
      rw [UInt8.lt_iff_toNat_lt, hbyte, hbyte]
      omega

lemma append_lt_of_not_isPrefix {p k : Bytes} (hlt : p < k) (hp : ¬ p <+: k) (a : Bytes) :
    p ++ a < k := by
  induction p generalizing k with
  | nil => exact absurd ⟨k, rfl⟩ hp
  | cons x p ih =>
    cases k with
    | nil => exact absurd hlt (by simp)
    | cons y k =>
      rw [List.cons_append, List.cons_lt_cons_iff]
      rcases List.cons_lt_cons_iff.mp hlt with hxy | ⟨rfl, hpk⟩
      · exact .inl hxy
      · refine .inr ⟨rfl, ih hpk ?_⟩
        intro hpre
        exact hp (List.cons_prefix_cons.mpr ⟨rfl, hpre⟩)

end Bytes
