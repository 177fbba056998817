import NodedbLite.PrefixScan

/-! Byte order of keys built from codes. Two codes neither of which continues the other order the
keys that start with them, whatever follows; text never holds the largest byte, so a code followed
by that byte is above every key made of the code and a text. -/
namespace Bytes

/-- Neither word continues the other, unless they are one. -/
def Apart (x y : Bytes) : Prop := x <+: y ∨ y <+: x → x = y

lemma Apart.symm {x y : Bytes} (h : Apart x y) : Apart y x := fun hp => (h hp.symm).symm

lemma nil_le (x : Bytes) : [] ≤ x := not_lt.mp (List.not_lt_nil x)

lemma cons_le_cons_iff_of_same (x : UInt8) (a b : Bytes) : x :: a ≤ x :: b ↔ a ≤ b :=
  append_le_append_left_iff [x] a b

lemma append_lt_append_of_apart {x y : Bytes} (h : Apart x y) (hlt : x < y) (a b : Bytes) :
    x ++ a < y ++ b := by
  have hnot : ¬ x <+: y := fun hp => hlt.ne (h (.inl hp))
  calc x ++ a < y := append_lt_of_not_isPrefix hlt hnot a
    _ ≤ y ++ b := PrefixScan.le_of_isPrefix (List.prefix_append y b)

/-- Keys order by their codes when equal codes are followed in order. -/
theorem append_le_append_iff_of_apart {x y a b : Bytes} (h : Apart x y) (hab : a ≤ b) :
    x ++ a ≤ y ++ b ↔ x ≤ y := by
  rcases lt_trichotomy x y with hlt | rfl | hgt
  · exact iff_of_true (append_lt_append_of_apart h hlt a b).le hlt.le
  · simp [hab]
  · exact iff_of_false (append_lt_append_of_apart h.symm hgt b a).not_ge hgt.not_ge

lemma eq_of_isPrefix_append {x y a : Bytes} (h : Apart x y) (hp : x <+: y ++ a) : x = y :=
  h (List.prefix_or_prefix_of_prefix hp (List.prefix_append y a))

lemma append_lt_append_iff_of_length_eq {x y : Bytes} (hlen : x.length = y.length) (a b : Bytes) :
    x ++ a < y ++ b ↔ x < y ∨ x = y ∧ a < b := by
  rcases lt_trichotomy x y with hlt | rfl | hgt
  · exact iff_of_true (append_lt_append_of_length_eq hlen hlt a b) (.inl hlt)
  · simp
  · refine iff_of_false (append_lt_append_of_length_eq hlen.symm hgt b a).not_gt ?_
    rintro (hlt | ⟨heq, -⟩)
    · exact hgt.not_gt hlt
    · exact hgt.ne heq.symm

lemma ofNatBE_le_ofNatBE_iff {w a b : Nat} (ha : a < 256 ^ w) (hb : b < 256 ^ w) :
    ofNatBE w a ≤ ofNatBE w b ↔ a ≤ b := by
  constructor
  · intro hle
    by_contra hlt
    exact (ofNatBE_lt_ofNatBE (not_le.mp hlt) ha).not_ge hle
  · intro hle
    rcases hle.lt_or_eq with hlt | rfl
    · exact (ofNatBE_lt_ofNatBE hlt hb).le
    · exact le_rfl

lemma map_not_lt_map_not_iff {x y : Bytes} (hlen : x.length = y.length) :
    x.map (~~~ ·) < y.map (~~~ ·) ↔ y < x := by
  have hbyte : ∀ {a b : UInt8}, ~~~a < ~~~b ↔ b < a := by
    intro a b
    have ha := a.toNat_lt
    have hb := b.toNat_lt
    rw [UInt8.lt_iff_toNat_lt, UInt8.lt_iff_toNat_lt, UInt8.toNat_not, UInt8.toNat_not]
    simp only [UInt8.size]
    omega
  induction x generalizing y with
  | nil =>
    obtain rfl := List.length_eq_zero_iff.mp hlen.symm
    simp
  | cons a x ih =>
    cases y with
    | nil => cases hlen
    | cons b y =>
      simp only [List.map_cons, List.cons_lt_cons_iff, hbyte, ih (Nat.succ.inj hlen)]
      rw [UInt8.not_inj, eq_comm]

lemma isPrefix_of_between {p a b k : Bytes} (hlow : p ++ a ≤ k) (hhigh : k ≤ p ++ b) : p <+: k := by
  by_contra hp
  have hpk : p ≤ k := (PrefixScan.le_of_isPrefix (List.prefix_append p a)).trans hlow
  have hlt : p < k := hpk.lt_of_ne (fun h => hp (h ▸ List.prefix_rfl))
  exact (append_lt_of_not_isPrefix hlt hp b).not_ge hhigh

lemma ne_last_of_mem_utf8EncodeChar {c : Char} {b : UInt8} (h : b ∈ String.utf8EncodeChar c) :
    b ≠ 0xFF := by
  have hbyte : ∀ n, n < 255 → UInt8.ofNat n ≠ 0xFF := by
    intro n hn heq
    have := congrArg UInt8.toNat heq
    rw [UInt8.toNat_ofNat'] at this
    simp only [UInt8.reduceToNat] at this
    omega
  simp only [String.utf8EncodeChar] at h
  split_ifs at h <;> simp only [List.mem_cons, List.not_mem_nil, or_false] at h
  · subst h
    exact hbyte _ (by omega)
  · rcases h with rfl | rfl <;> exact hbyte _ (by omega)
  · rcases h with rfl | rfl | rfl <;> exact hbyte _ (by omega)
  · rcases h with rfl | rfl | rfl | rfl <;> exact hbyte _ (by omega)

/-- Text never holds the largest byte. -/
theorem ne_last_of_mem_ofString {s : String} {b : UInt8} (h : b ∈ ofString s) : b ≠ 0xFF := by
  obtain ⟨m, hm⟩ := s.isValidUTF8
  rw [ofString, hm, List.utf8Encode] at h
  simp only [List.data_toByteArray, List.mem_flatMap] at h
  obtain ⟨c, -, hb⟩ := h
  exact ne_last_of_mem_utf8EncodeChar hb

lemma ofString_le_last (s : String) : ofString s ≤ [0xFF] := by
  cases hs : ofString s with
  | nil => exact nil_le _
  | cons b bs =>
    have hne : b ≠ 0xFF := ne_last_of_mem_ofString (hs ▸ List.mem_cons_self : b ∈ ofString s)
    apply le_of_lt
    rw [List.cons_lt_cons_iff]
    left
    have hlt := b.toNat_lt
    have hval : b.toNat ≠ 255 := fun h => hne (UInt8.toNat_inj.mp h)
    rw [UInt8.lt_iff_toNat_lt]
    change b.toNat < 255
    omega

end Bytes
