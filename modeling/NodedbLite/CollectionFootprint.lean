import NodedbLite.FtsRegistry
import NodedbLite.SeparatedNames

/-! Indexing a document touches only text indexes of its collection, and no index belongs to two
collections of which neither name begins with the other and a colon. -/
namespace NodedbLite.Isolation

/-- The key begins with the collection's name and a colon. -/
def Under (c : String) (key : Bytes) : Prop := Bytes.ofString c ++ [58] <+: key

lemma under_append (c : String) (rest : Bytes) : Under c (Bytes.ofString c ++ 58 :: rest) := by
  unfold Under
  rw [List.prefix_append_right_inj]
  exact List.cons_prefix_cons.mpr ⟨rfl, List.nil_prefix⟩

section TextIndexes

open Fts

variable {Index : Type} {T : TextIndex Index} {c : String} {m m' : FtsCollectionManager Index}

lemma keyOfCollection_iff {key : String} :
    keyOfCollection key c = true ↔ key = c ∨ Under c (Bytes.ofString key) := by
  unfold keyOfCollection Under
  rw [Bool.and_eq_true, List.isPrefixOf_iff_prefix]
  constructor
  · rintro ⟨⟨rest, hrest⟩, htail⟩
    rw [← hrest, List.drop_left] at htail
    rw [← hrest]
    cases rest with
    | nil =>
      rw [List.append_nil] at hrest
      exact .inl (Bytes.ofString_injective hrest).symm
    | cons b rest =>
      obtain rfl : b = 58 := of_decide_eq_true htail
      exact .inr (under_append c rest)
  · rintro (rfl | ⟨rest, hrest⟩)
    · simp
    · rw [← hrest, List.append_assoc]
      refine ⟨List.prefix_append .., ?_⟩
      rw [List.drop_left]
      rfl

lemma keyOfCollection_indexKey (c field : String) : keyOfCollection (indexKey c field) c = true := by
  rw [keyOfCollection_iff]
  unfold indexKey
  split
  · exact .inl rfl
  · rw [Bytes.ofString_append, Bytes.ofString_append, List.append_assoc]
    exact .inr (under_append c _)

/-- The manager changed only indexes of the collection. -/
def IndexesStay (c : String) (m m' : FtsCollectionManager Index) : Prop :=
  ∀ key, keyOfCollection key c = false → m'.indices.get key = m.indices.get key

lemma IndexesStay.refl (c : String) (m : FtsCollectionManager Index) : IndexesStay c m m :=
  fun _ _ => rfl

lemma IndexesStay.trans {m'' : FtsCollectionManager Index} (h : IndexesStay c m m')
    (h' : IndexesStay c m' m'') : IndexesStay c m m'' :=
  fun key hkey => (h' key hkey).trans (h key hkey)

lemma IndexesStay.foldl {α : Type} {f : FtsCollectionManager Index → α → FtsCollectionManager Index}
    {l : List α} (hf : ∀ m, ∀ a ∈ l, IndexesStay c m (f m a)) (m : FtsCollectionManager Index) :
    IndexesStay c m (l.foldl f m) := by
  induction l generalizing m with
  | nil => exact .refl c m
  | cons a l ih =>
    exact (hf m a List.mem_cons_self).trans
      (ih (fun m b hb => hf m b (List.mem_cons_of_mem _ hb)) (f m a))

lemma get_insert_of_key {key other : String} (hkey : keyOfCollection key c = true)
    (hother : keyOfCollection other c = false) (indices : SortedMap String Index) (index : Index) :
    (indices.insert key index).get other = indices.get other := by
  rw [SortedMap.get_insert, if_neg]
  rintro rfl
  exact absurd hkey (by rw [hother]; exact Bool.false_ne_true)

lemma indexesStay_retract {key : String} (hkey : keyOfCollection key c = true) (docId : String)
    (m : FtsCollectionManager Index) : IndexesStay c m (m.retract T key docId) := by
  intro other hother
  unfold FtsCollectionManager.retract
  split
  · rfl
  · exact get_insert_of_key hkey hother ..

lemma indexesStay_indexText {key : String} (hkey : keyOfCollection key c = true)
    (docId text : String) (m : FtsCollectionManager Index) :
    IndexesStay c m (m.indexText T key docId text) := by
  unfold FtsCollectionManager.indexText
  split
  · exact indexesStay_retract hkey docId m
  · exact fun other hother => get_insert_of_key hkey hother ..

lemma indexesStay_retractAll {keys : List String}
    (hkeys : ∀ key ∈ keys, keyOfCollection key c = true) (docId : String)
    (m : FtsCollectionManager Index) : IndexesStay c m (m.retractAll T keys docId) :=
  .foldl (fun m key hkey => indexesStay_retract (hkeys key hkey) docId m) m

lemma keyOfCollection_of_mem {key : String} (h : key ∈ m.collectionKeys c) :
    keyOfCollection key c = true := (List.mem_filter.mp h).2

lemma indexesStay_indexDocumentFields (m : FtsCollectionManager Index) (docId : String)
    (fields : SortedMap String FieldValue) :
    IndexesStay c m (m.indexDocumentFields T c docId fields) := by
  unfold FtsCollectionManager.indexDocumentFields
  dsimp only
  refine IndexesStay.trans ?_ (indexesStay_retractAll ?_ docId _)
  · exact (indexesStay_indexText (keyOfCollection_indexKey c "") docId _ m).trans
      (.foldl (fun m text _ => indexesStay_indexText (keyOfCollection_indexKey c text.1) docId _ m) _)
  · intro key hkey
    exact keyOfCollection_of_mem (List.mem_filter.mp hkey).1

end TextIndexes

section Apart

open Fts

/-- Neither name begins with the other and a colon. -/
def NamesApart (c d : String) : Prop :=
  SeparatedNames.Apart 58 (Bytes.ofString c) (Bytes.ofString d)

instance (c d : String) : Decidable (NamesApart c d) :=
  inferInstanceAs (Decidable (¬ SeparatedNames.Extends 58 _ _ ∧ ¬ SeparatedNames.Extends 58 _ _))

variable {c d : String}

lemma NamesApart.not_under (h : NamesApart c d) (hne : c ≠ d) {key : Bytes} (hd : Under d key) :
    ¬ Under c key := by
  obtain ⟨rest, rfl⟩ := hd
  rw [List.append_assoc]
  exact SeparatedNames.Apart.not_under h (fun heq => hne (Bytes.ofString_injective heq)) rest

lemma NamesApart.keyOfCollection (h : NamesApart c d) (hne : c ≠ d) {key : String}
    (hd : Fts.keyOfCollection key d = true) : Fts.keyOfCollection key c = false := by
  rw [Bool.eq_false_iff]
  intro hc
  rw [keyOfCollection_iff] at hc hd
  rcases hd with rfl | hd
  · rcases hc with rfl | hc
    · exact hne rfl
    · exact h.1 hc
  · rcases hc with rfl | hc
    · exact h.2 hd
    · exact h.not_under hne hd hc

end Apart

end NodedbLite.Isolation
