import NodedbLite.GuardedRun
import NodedbLite.CollectionFootprint

/-! Which documents the text indexes of a collection hold after documents were indexed, rewritten and
removed, against what their latest versions contain. -/
namespace NodedbLite.Fts

open GuardedRun Isolation

variable {Index : Type} {T : TextIndex Index}

/-- The index under a key holds the document. -/
def Held (T : TextIndex Index) (m : FtsCollectionManager Index) (key docId : String) : Prop :=
  ∃ index, m.indices.get key = some index ∧ T.holds index docId = true

/-- A document written with this text is held. -/
def Kept (T : TextIndex Index) (text : String) : Prop := text ≠ "" ∧ T.records text = true

/-- The texts give the field one that is not empty. -/
def HasText (texts : List (String × String)) (field : String) : Prop :=
  ∃ text, text ≠ "" ∧ (field, text) ∈ texts

section Keys

lemma indexKey_empty (c : String) : indexKey c "" = c := if_pos rfl

lemma indexKey_of_ne (c : String) {field : String} (h : field ≠ "") :
    indexKey c field = c ++ ":" ++ field := if_neg h

lemma indexKey_ne_whole (c : String) {field : String} (h : field ≠ "") :
    indexKey c field ≠ indexKey c "" := by
  rw [indexKey_of_ne c h, indexKey_empty]
  intro heq
  have hlength := congrArg (fun s => s.toList.length) heq
  simp only [String.toList_append, List.length_append] at hlength
  have : (":" : String).toList.length = 1 := rfl
  omega

lemma indexKey_inj (c : String) {field other : String} (hf : field ≠ "") (ho : other ≠ "")
    (h : indexKey c field = indexKey c other) : field = other := by
  rw [indexKey_of_ne c hf, indexKey_of_ne c ho] at h
  exact String.append_right_inj _ |>.mp h

end Keys

section Primitives

variable {m : FtsCollectionManager Index} {key key' docId docId' : String}

lemma holds_retracted (hT : T.Correct) (index : Index) :
    T.holds (FtsCollectionManager.retracted T index docId) docId' = true ↔
      docId' ≠ docId ∧ T.holds index docId' = true := by
  rw [FtsCollectionManager.retracted]
  split_ifs with hheld
  · exact hT.holds_remove index docId docId'
  · refine ⟨fun h => ⟨?_, h⟩, And.right⟩
    rintro rfl
    exact hheld h

lemma held_retract (hT : T.Correct) :
    Held T (m.retract T key docId) key' docId' ↔ ¬(key' = key ∧ docId' = docId) ∧ Held T m key' docId' := by
  rw [FtsCollectionManager.retract]
  cases hget : m.indices.get key with
  | none =>
    refine ⟨fun h => ⟨?_, h⟩, And.right⟩
    rintro ⟨rfl, -⟩
    obtain ⟨index, hindex, -⟩ := h
    rw [hget] at hindex
    cases hindex
  | some index =>
    simp only [Held, SortedMap.get_insert]
    by_cases hkey : key' = key
    · subst hkey
      simp only [if_true, Option.some.injEq, exists_eq_left', hget, holds_retracted hT, true_and,
        ne_eq]
    · simp [hkey]

lemma held_indexText (hT : T.Correct) (text : String) :
    Held T (m.indexText T key docId text) key' docId' ↔
      (key' = key ∧ docId' = docId ∧ Kept T text) ∨
        (¬(key' = key ∧ docId' = docId) ∧ Held T m key' docId') := by
  rw [FtsCollectionManager.indexText]
  split_ifs with hempty
  · rw [held_retract hT]
    simp [Kept, hempty]
  · have hfree : T.holds (FtsCollectionManager.retracted T ((m.indices.get key).getD T.empty) docId)
        docId = false := by
      rw [Bool.eq_false_iff, ne_eq, holds_retracted hT]
      exact fun h => h.1 rfl
    simp only [Held, SortedMap.get_insert]
    by_cases hkey : key' = key
    · subst hkey
      simp only [if_true, Option.some.injEq, exists_eq_left', hT.holds_add hfree,
        holds_retracted hT]
      by_cases hdoc : docId' = docId
      · simp [hdoc, hempty, Kept]
      · cases hget : m.indices.get key' <;> simp [hdoc, hT.holds_empty]
    · simp [hkey]

lemma held_retractAll (hT : T.Correct) (keys : List String) :
    Held T (m.retractAll T keys docId) key' docId' ↔
      ¬(key' ∈ keys ∧ docId' = docId) ∧ Held T m key' docId' := by
  rw [FtsCollectionManager.retractAll]
  induction keys generalizing m with
  | nil => simp
  | cons key keys ih =>
    rw [List.foldl_cons, ih, held_retract hT, List.mem_cons]
    tauto

lemma held_foldl_indexField (hT : T.Correct) (c : String) {named : List (String × String)}
    (hnamed : ∀ t ∈ named, t.1 ≠ "") (hnodup : (named.map Prod.fst).Nodup) :
    Held T (named.foldl (fun m text => m.indexField T c text.1 docId text.2) m) key' docId' ↔
      (docId' = docId ∧ ∃ t ∈ named, key' = indexKey c t.1 ∧ Kept T t.2) ∨
        (¬(docId' = docId ∧ ∃ t ∈ named, key' = indexKey c t.1) ∧ Held T m key' docId') := by
  induction named generalizing m with
  | nil => simp
  | cons t named ih =>
    obtain ⟨hfresh, hnodup⟩ := List.nodup_cons.mp hnodup
    rw [List.foldl_cons, ih (fun t ht => hnamed t (List.mem_cons_of_mem _ ht)) hnodup,
      FtsCollectionManager.indexField, held_indexText hT]
    -- no later text is of this field
    have hother : ∀ u ∈ named, indexKey c t.1 ≠ indexKey c u.1 := fun u hu heq =>
      hfresh (List.mem_map.mpr ⟨u, hu, (indexKey_inj c (hnamed t (.head _))
        (hnamed u (List.mem_cons_of_mem _ hu)) heq).symm⟩)
    simp only [List.exists_mem_cons_iff]
    by_cases hkey : key' = indexKey c t.1
    · subst hkey
      have hnone : ¬∃ u ∈ named, indexKey c t.1 = indexKey c u.1 := fun ⟨u, hu, heq⟩ =>
        hother u hu heq
      have hnone' : ¬∃ u ∈ named, indexKey c t.1 = indexKey c u.1 ∧ Kept T u.2 :=
        fun ⟨u, hu, heq, _⟩ => hother u hu heq
      simp only [hnone, hnone', and_false, false_or, not_false_eq_true, true_and, or_false,
        and_true]
    · simp only [hkey, false_and, not_false_eq_true, true_and, false_or]

end Primitives

section Declarations

variable (m : FtsCollectionManager Index)

lemma declarations_retract (key docId : String) :
    (m.retract T key docId).declarations = m.declarations := by
  rw [FtsCollectionManager.retract]
  split <;> rfl

lemma declarations_indexText (key docId text : String) :
    (m.indexText T key docId text).declarations = m.declarations := by
  rw [FtsCollectionManager.indexText]
  split
  · exact declarations_retract m key docId
  · rfl

lemma declarations_foldl {α : Type} {f : FtsCollectionManager Index → α → FtsCollectionManager Index}
    (hf : ∀ m a, (f m a).declarations = m.declarations) (l : List α) :
    (l.foldl f m).declarations = m.declarations := by
  induction l generalizing m with
  | nil => rfl
  | cons a l ih => rw [List.foldl_cons, ih, hf]

lemma declarations_retractAll (keys : List String) (docId : String) :
    (m.retractAll T keys docId).declarations = m.declarations :=
  declarations_foldl m (fun m key => declarations_retract m key docId) keys

lemma declarations_indexDocumentFields (c docId : String) (fields : SortedMap String FieldValue) :
    (m.indexDocumentFields T c docId fields).declarations = m.declarations := by
  rw [FtsCollectionManager.indexDocumentFields, declarations_retractAll]
  refine (declarations_foldl _ (fun m text => ?_) _).trans (declarations_indexText m ..)
  exact declarations_indexText m ..

end Declarations

section Texts

lemma selectedTexts_nodup (fields : SortedMap String FieldValue) (declared : Option (List String)) :
    ((selectedTexts fields declared).map Prod.fst).Nodup := by
  refine List.Nodup.sublist ?_ (SortedMap.keys_nodup fields)
  rw [selectedTexts, SortedMap.keys]
  generalize fields.entries = entries
  induction entries with
  | nil => exact .slnil
  | cons e entries ih =>
    rw [List.filterMap_cons]
    split
    · exact ih.cons _
    · rename_i text htext
      have hname : text.1 = e.1 := by
        split_ifs at htext
        split at htext
        · rw [← Option.some.inj htext]
        · cases htext
      rw [List.map_cons, List.map_cons, hname]
      exact ih.cons_cons _

lemma eq_nil_of_intercalate_eq_nil {α : Type} {sep : List α} {parts : List (List α)}
    (h : sep.intercalate parts = []) : ∀ part ∈ parts, part = [] := by
  induction parts with
  | nil => simp
  | cons part parts ih =>
    cases parts with
    | nil => simpa [List.intercalate] using h
    | cons next parts =>
      rw [List.intercalate_cons_cons, List.append_eq_nil_iff, List.append_eq_nil_iff] at h
      exact List.forall_mem_cons.mpr ⟨h.1.1, ih h.2⟩

lemma joinedText_ne_empty {texts : List (String × String)} {t : String × String}
    (ht : t ∈ texts) (hne : t.2 ≠ "") : joinedText texts ≠ "" := by
  intro hempty
  have hlist := congrArg String.toList hempty
  rw [joinedText, String.toList_intercalate] at hlist
  have hpart := eq_nil_of_intercalate_eq_nil hlist t.2.toList
    (List.mem_map.mpr ⟨t.2, List.mem_map_of_mem ht, rfl⟩)
  exact hne (String.toList_inj.mp hpart)

lemma joinedText_eq_empty {texts : List (String × String)} (hlength : texts.length ≤ 1)
    (hall : ∀ t ∈ texts, t.2 = "") : joinedText texts = "" := by
  match texts, hlength with
  | [], _ => rfl
  | [t], _ =>
    rw [joinedText, List.map_singleton, hall t (.head _)]
    rfl

lemma joinedText_ne_empty_of_two {texts : List (String × String)} (h : 1 < texts.length) :
    joinedText texts ≠ "" := by
  match texts, h with
  | t :: u :: texts, _ =>
    intro hempty
    have hlist := congrArg String.toList hempty
    rw [joinedText, String.toList_intercalate, List.map_cons, List.map_cons, List.map_cons,
      List.map_cons, List.intercalate_cons_cons] at hlist
    have hspace := (List.append_eq_nil_iff.mp (List.append_eq_nil_iff.mp hlist).1).2
    exact absurd hspace (by decide)

/-- A document is held under its joined text exactly if some text is not empty, unless the index does
not record that text, or records the spaces between two or more empty ones. -/
lemma kept_joinedText_iff {texts : List (String × String)} :
    (Kept T (joinedText texts) ↔ ∃ t ∈ texts, t.2 ≠ "") ↔
      ((∃ t ∈ texts, t.2 ≠ "") → T.records (joinedText texts) = true) ∧
        ((∀ t ∈ texts, t.2 = "") → texts.length ≤ 1 ∨ T.records (joinedText texts) = false) := by
  constructor
  · intro hiff
    refine ⟨fun hsome => (hiff.mpr hsome).2, fun hall => ?_⟩
    by_contra hnot
    obtain ⟨hlength, hrecords⟩ := not_or.mp hnot
    obtain ⟨t, ht, hne⟩ := hiff.mp ⟨joinedText_ne_empty_of_two (not_le.mp hlength),
      Bool.not_eq_false _ ▸ hrecords⟩
    exact hne (hall t ht)
  · rintro ⟨hrecorded, hblank⟩
    refine ⟨fun hkept => ?_, fun ⟨t, ht, hne⟩ => ⟨joinedText_ne_empty ht hne, hrecorded ⟨t, ht, hne⟩⟩⟩
    by_contra hnone
    push Not at hnone
    rcases hblank hnone with hlength | hrecords
    · exact hkept.1 (joinedText_eq_empty hlength hnone)
    · rw [hkept.2] at hrecords
      cases hrecords

end Texts

section Calls

/-- The selected texts of the fields that have an index of their own. -/
def namedTexts (fields : SortedMap String FieldValue) (declared : Option (List String)) :
    List (String × String) :=
  (selectedTexts fields declared).filter (fun text => text.1 ≠ "")

lemma mem_namedTexts {fields : SortedMap String FieldValue} {declared : Option (List String)}
    {t : String × String} :
    t ∈ namedTexts fields declared ↔ t ∈ selectedTexts fields declared ∧ t.1 ≠ "" := by
  rw [namedTexts, List.mem_filter, decide_eq_true_iff]

lemma namedTexts_nodup (fields : SortedMap String FieldValue) (declared : Option (List String)) :
    ((namedTexts fields declared).map Prod.fst).Nodup :=
  (selectedTexts_nodup fields declared).sublist (List.filter_sublist.map Prod.fst)

variable (m : FtsCollectionManager Index) (c docId : String) (fields : SortedMap String FieldValue)

lemma mem_collectionKeys_of_held {key docId' : String} (h : Held T m key docId')
    (hkey : keyOfCollection key c = true) : key ∈ m.collectionKeys c := by
  obtain ⟨index, hindex, -⟩ := h
  refine List.mem_filter.mpr ⟨(SortedMap.mem_keys ..).mpr ?_, hkey⟩
  rw [hindex]
  rfl

lemma held_removeDocumentFields (hT : T.Correct) {key docId' : String} (hkey : keyOfCollection key c = true) :
    Held T (m.removeDocumentFields T c docId) key docId' ↔ docId' ≠ docId ∧ Held T m key docId' := by
  rw [FtsCollectionManager.removeDocumentFields, held_retractAll hT]
  refine and_congr_left (fun h => ?_)
  simp [mem_collectionKeys_of_held m c h hkey]

/-- The keys a document is taken out of after its texts were written. -/
def staleKey (texts : List (String × String)) (key : String) : Prop :=
  key ≠ indexKey c "" ∧ key ≠ systemKey c ∧ ∀ t ∈ texts, key ≠ indexKey c t.1

lemma held_indexDocumentFields (hT : T.Correct) {key docId' : String} (hkey : keyOfCollection key c = true) :
    Held T (m.indexDocumentFields T c docId fields) key docId' ↔
      ¬(staleKey c (namedTexts fields (m.declarationFor c)) key ∧ docId' = docId) ∧
      ((docId' = docId ∧ ∃ t ∈ namedTexts fields (m.declarationFor c),
          key = indexKey c t.1 ∧ Kept T t.2) ∨
        (¬(docId' = docId ∧ ∃ t ∈ namedTexts fields (m.declarationFor c), key = indexKey c t.1) ∧
          ((key = indexKey c "" ∧ docId' = docId ∧
              Kept T (joinedText (selectedTexts fields (m.declarationFor c)))) ∨
            (¬(key = indexKey c "" ∧ docId' = docId) ∧ Held T m key docId')))) := by
  set texts := namedTexts fields (m.declarationFor c) with htexts
  rw [← held_indexText hT, ← held_foldl_indexField hT c (fun t ht => (mem_namedTexts.mp ht).2)
    (namedTexts_nodup fields (m.declarationFor c)), FtsCollectionManager.indexDocumentFields,
    held_retractAll hT]
  refine and_congr_left (fun hheld => not_congr (and_congr_left' ?_))
  have hmem := mem_collectionKeys_of_held _ c hheld hkey
  rw [List.mem_filter, decide_eq_true_iff]
  refine ⟨fun h => ⟨h.2.1, h.2.2.1, fun t ht heq => h.2.2.2 ?_⟩, fun h => ⟨hmem, h.1, h.2.1, ?_⟩⟩
  · exact List.mem_map.mpr ⟨t, ht, heq.symm⟩
  · intro hindexed
    obtain ⟨t, ht, heq⟩ := List.mem_map.mp hindexed
    exact h.2.2 t ht heq.symm

lemma held_indexDocumentFields_of_ne (hT : T.Correct) {key docId' : String} (hkey : keyOfCollection key c = true)
    (hne : docId' ≠ docId) :
    Held T (m.indexDocumentFields T c docId fields) key docId' ↔ Held T m key docId' := by
  rw [held_indexDocumentFields m c docId fields hT hkey]
  simp [hne]

lemma held_indexDocumentFields_whole (hT : T.Correct) :
    Held T (m.indexDocumentFields T c docId fields) (indexKey c "") docId ↔
      Kept T (joinedText (selectedTexts fields (m.declarationFor c))) := by
  rw [held_indexDocumentFields m c docId fields hT (keyOfCollection_indexKey c "")]
  have hnone : ∀ t ∈ namedTexts fields (m.declarationFor c), indexKey c "" ≠ indexKey c t.1 :=
    fun t ht heq => indexKey_ne_whole c (mem_namedTexts.mp ht).2 heq.symm
  constructor
  · rintro ⟨-, ⟨-, t, ht, heq, -⟩ | ⟨-, ⟨-, -, hjoined⟩ | ⟨hnot, -⟩⟩⟩
    · exact absurd heq (hnone t ht)
    · exact hjoined
    · exact absurd ⟨rfl, rfl⟩ hnot
  · intro hjoined
    refine ⟨fun h => h.1.1 rfl, .inr ⟨?_, .inl ⟨rfl, rfl, hjoined⟩⟩⟩
    rintro ⟨-, t, ht, heq⟩
    exact hnone t ht heq

/-- A field's index holds the document by the field's text, and the geohash index also if it held
the document and the call has no text for it. -/
lemma held_indexDocumentFields_field (hT : T.Correct) {field : String} (hfield : field ≠ "") :
    Held T (m.indexDocumentFields T c docId fields) (indexKey c field) docId ↔
      (∃ text, Kept T text ∧ (field, text) ∈ selectedTexts fields (m.declarationFor c)) ∨
        (field = "_geohash" ∧ (∀ text, (field, text) ∉ selectedTexts fields (m.declarationFor c)) ∧
          Held T m (indexKey c field) docId) := by
  rw [held_indexDocumentFields m c docId fields hT (keyOfCollection_indexKey c field)]
  have hsame : ∀ t ∈ namedTexts fields (m.declarationFor c),
      (indexKey c field = indexKey c t.1 ↔ t.1 = field) := fun t ht =>
    ⟨fun heq => (indexKey_inj c hfield (mem_namedTexts.mp ht).2 heq).symm, fun heq => by rw [heq]⟩
  have hmem : ∀ text, (field, text) ∈ selectedTexts fields (m.declarationFor c) →
      (field, text) ∈ namedTexts fields (m.declarationFor c) := fun text ht =>
    mem_namedTexts.mpr ⟨ht, hfield⟩
  constructor
  · rintro ⟨hstale, ⟨-, t, ht, heq, hne⟩ | ⟨hnone, ⟨hwhole, -⟩ | ⟨-, hheld⟩⟩⟩
    · obtain rfl := (hsame t ht).mp heq
      exact .inl ⟨t.2, hne, (mem_namedTexts.mp ht).1⟩
    · exact absurd hwhole (indexKey_ne_whole c hfield)
    · have habsent : ∀ t ∈ namedTexts fields (m.declarationFor c),
          indexKey c field ≠ indexKey c t.1 := fun t ht heq => hnone ⟨rfl, t, ht, heq⟩
      have hsystem : indexKey c field = systemKey c := by
        by_contra hne
        exact hstale ⟨⟨indexKey_ne_whole c hfield, hne, habsent⟩, rfl⟩
      exact .inr ⟨indexKey_inj c hfield (by decide) hsystem,
        fun text ht => habsent _ (hmem text ht) rfl, hheld⟩
  · rintro (⟨text, hne, ht⟩ | ⟨rfl, habsent, hheld⟩)
    · exact ⟨fun h => h.1.2.2 _ (hmem text ht) rfl, .inl ⟨rfl, _, hmem text ht, rfl, hne⟩⟩
    · refine ⟨fun h => h.1.2.1 rfl, .inr ⟨?_, .inr ⟨fun h => indexKey_ne_whole c hfield h.1, hheld⟩⟩⟩
      rintro ⟨-, t, ht, heq⟩
      have hname := (hsame t ht).mp heq
      exact habsent t.2 (hname ▸ (mem_namedTexts.mp ht).1)

end Calls

section Runs

/-- A collection's name without a colon. -/
abbrev Name := { c : String // colon ∉ Bytes.ofString c }

lemma namesApart (c d : Name) : NamesApart c.val d.val := by
  refine ⟨fun h => d.property ?_, fun h => c.property ?_⟩
  · exact h.subset (List.mem_append_right _ (.head _))
  · exact h.subset (List.mem_append_right _ (.head _))

/-- The collection's indexes hold the document as its selected texts ask for. -/
def RebuiltAt (T : TextIndex Index) (m : FtsCollectionManager Index) (c : Name) (docId : String)
    (texts : List (String × String)) : Prop :=
  (∀ field, field ≠ "" → (Held T m (indexKey c field) docId ↔ HasText texts field)) ∧
    (Held T m (indexKey c "") docId ↔ ∃ field, HasText texts field)

lemma RebuiltAt.congr {m m' : FtsCollectionManager Index} {c : Name} {docId : String}
    {texts : List (String × String)} (h : RebuiltAt T m c docId texts)
    (hheld : ∀ field, Held T m' (indexKey c field) docId ↔ Held T m (indexKey c field) docId) :
    RebuiltAt T m' c docId texts :=
  ⟨fun field hfield => (hheld field).trans (h.1 field hfield), (hheld "").trans h.2⟩

/-- A version that leaves out `_geohash` only if the one before had no text there, whose texts are
recorded by the index, alone and joined, and that is not made of two or more empty texts of which the
index records the spaces between. -/
structure PlainVersion (T : TextIndex Index) (before texts : List (String × String)) : Prop where
  geohash : HasText before "_geohash" → ∃ text, ("_geohash", text) ∈ texts
  recorded : ∀ t ∈ texts, t.1 ≠ "" → t.2 ≠ "" → T.records t.2 = true
  joined : (∃ t ∈ texts, t.2 ≠ "") → T.records (joinedText texts) = true
  blank : (∀ t ∈ texts, t.2 = "") → texts.length ≤ 1 ∨ T.records (joinedText texts) = false

/-- The fields' indexes are right exactly if the geohash index is not left behind and the texts are
recorded. -/
lemma fields_iff (hT : T.Correct) {m : FtsCollectionManager Index} {c : Name} {docId : String}
    {before : List (String × String)} (h : RebuiltAt T m c docId before)
    (fields : SortedMap String FieldValue) {texts : List (String × String)}
    (htexts : texts = selectedTexts fields (m.declarationFor c)) :
    (∀ field, field ≠ "" → (Held T (m.indexDocumentFields T c docId fields) (indexKey c field) docId ↔
        HasText texts field)) ↔
      (HasText before "_geohash" → ∃ text, ("_geohash", text) ∈ texts) ∧
        ∀ t ∈ texts, t.1 ≠ "" → t.2 ≠ "" → T.records t.2 = true := by
  have hheld : ∀ {field}, field ≠ "" →
      (Held T (m.indexDocumentFields T c docId fields) (indexKey c field) docId ↔
        (∃ text, Kept T text ∧ (field, text) ∈ texts) ∨ (field = "_geohash" ∧
          (∀ text, (field, text) ∉ texts) ∧ Held T m (indexKey c field) docId)) :=
    fun hfield => htexts ▸ held_indexDocumentFields_field m c docId fields hT hfield
  constructor
  · refine fun hfields => ⟨fun hbefore => ?_, fun t ht hname hne => ?_⟩
    · -- a document left in the geohash index without a text for it
      by_contra habsent
      have hleft := (hheld (by decide)).mpr
        (.inr ⟨rfl, not_exists.mp habsent, (h.1 _ (by decide)).mpr hbefore⟩)
      obtain ⟨text, -, ht⟩ := (hfields _ (by decide)).mp hleft
      exact habsent ⟨text, ht⟩
    · rcases (hheld hname).mp ((hfields t.1 hname).mpr ⟨t.2, hne, ht⟩) with
        ⟨text, hkept, htext⟩ | ⟨-, habsent, -⟩
      · have hnodup : (texts.map Prod.fst).Nodup := htexts ▸ selectedTexts_nodup fields _
        have hsame : text = t.2 :=
          congrArg Prod.snd (List.inj_on_of_nodup_map hnodup htext ht rfl)
        exact hsame ▸ hkept.2
      · exact absurd ht (habsent t.2)
  · rintro ⟨hsystem, hrecorded⟩ field hfield
    rw [hheld hfield]
    constructor
    · rintro (⟨text, hkept, ht⟩ | ⟨rfl, habsent, hbefore⟩)
      · exact ⟨text, hkept.1, ht⟩
      · obtain ⟨text, ht⟩ := hsystem ((h.1 _ hfield).mp hbefore)
        exact absurd ht (habsent text)
    · rintro ⟨text, hne, ht⟩
      exact .inl ⟨text, ⟨hne, hrecorded _ ht hfield hne⟩, ht⟩

/-- The document just written is in the right indexes exactly if its new version is a plain one. -/
lemma rebuiltAt_indexDocumentFields_iff (hT : T.Correct) {m : FtsCollectionManager Index} {c : Name}
    {docId : String} {before : List (String × String)} (h : RebuiltAt T m c docId before)
    (fields : SortedMap String FieldValue) :
    RebuiltAt T (m.indexDocumentFields T c docId fields) c docId
        (selectedTexts fields (m.declarationFor c)) ↔
      PlainVersion T before (selectedTexts fields (m.declarationFor c)) := by
  set texts := selectedTexts fields (m.declarationFor c) with htexts
  have hany : (∃ field, HasText texts field) ↔ ∃ t ∈ texts, t.2 ≠ "" :=
    ⟨fun ⟨field, text, hne, ht⟩ => ⟨_, ht, hne⟩, fun ⟨t, ht, hne⟩ => ⟨t.1, t.2, hne, ht⟩⟩
  rw [RebuiltAt, fields_iff hT h fields htexts, held_indexDocumentFields_whole m c docId fields hT,
    hany, kept_joinedText_iff]
  exact ⟨fun ⟨⟨hgeohash, hrecorded⟩, hjoined, hblank⟩ => ⟨hgeohash, hrecorded, hjoined, hblank⟩,
    fun hplain => ⟨⟨hplain.geohash, hplain.recorded⟩, hplain.joined, hplain.blank⟩⟩

lemma rebuiltAt_removeDocumentFields (hT : T.Correct) (m : FtsCollectionManager Index) (c : Name) (docId : String) :
    RebuiltAt T (m.removeDocumentFields T c docId) c docId [] := by
  have hheld : ∀ field, ¬Held T (m.removeDocumentFields T c docId) (indexKey c field) docId :=
    fun field h => ((held_removeDocumentFields m c docId hT (keyOfCollection_indexKey c field)).mp h).1 rfl
  refine ⟨fun field _ => iff_of_false (hheld field) ?_, iff_of_false (hheld "") ?_⟩
  · rintro ⟨text, -, ht⟩
    cases ht
  · rintro ⟨field, text, -, ht⟩
    cases ht

lemma held_of_indexesStay {m m' : FtsCollectionManager Index} {c d : Name} (hstay : IndexesStay c.val m m')
    (hne : d ≠ c) (field docId : String) :
    Held T m' (indexKey d field) docId ↔ Held T m (indexKey d field) docId := by
  have hkey := (namesApart c d).keyOfCollection (fun h => hne (Subtype.ext h.symm))
    (keyOfCollection_indexKey d.val field)
  rw [Held, Held, hstay _ hkey]

/-- A document's fields by name. -/
abbrev Document := SortedMap String FieldValue

inductive Call
  | indexDocumentFields (c : Name) (docId : String) (fields : Document)
  | removeDocumentFields (c : Name) (docId : String)

/-- The text indexes, and the latest version of each document by collection and id. -/
structure State (Index : Type) where
  manager : FtsCollectionManager Index
  latest : SortedMap (Lex (String × String)) Document

namespace State

variable (T) (s : State Index)

/-- The selected texts of a document's latest version. -/
def texts (c : Name) (docId : String) : List (String × String) :=
  match s.latest.get (toLex (c.val, docId)) with
  | none => []
  | some fields => selectedTexts fields (s.manager.declarationFor c)

def apply : Call → State Index
  | .indexDocumentFields c docId fields =>
    { manager := s.manager.indexDocumentFields T c docId fields
      latest := s.latest.insert (toLex (c.val, docId)) fields }
  | .removeDocumentFields c docId =>
    { manager := s.manager.removeDocumentFields T c docId
      latest := s.latest.erase (toLex (c.val, docId)) }

/-- Every index holds the documents a rebuild from the latest versions would put in it. -/
def EqualsRebuild : Prop :=
  ∀ (c : Name) (docId : String), RebuiltAt T s.manager c docId (s.texts c docId)

def Plain : Call → Prop
  | .indexDocumentFields c docId fields =>
    PlainVersion T (s.texts c docId) (selectedTexts fields (s.manager.declarationFor c))
  | .removeDocumentFields _ _ => True

variable {T s}

lemma declarationFor_apply (call : Call) (c : Name) :
    (s.apply T call).manager.declarationFor c = s.manager.declarationFor c := by
  cases call with
  | indexDocumentFields d docId fields =>
    rw [apply, FtsCollectionManager.declarationFor, declarations_indexDocumentFields]
    rfl
  | removeDocumentFields d docId =>
    rw [apply, FtsCollectionManager.declarationFor, FtsCollectionManager.removeDocumentFields,
      declarations_retractAll]
    rfl

/-- The collection and the document of a call. -/
def target : Call → Name × String
  | .indexDocumentFields c docId _ => (c, docId)
  | .removeDocumentFields c docId => (c, docId)

lemma texts_apply_of_ne {call : Call} {c : Name} {docId : String} (hne : (c, docId) ≠ target call) :
    (s.apply T call).texts c docId = s.texts c docId := by
  have hkey : ∀ {d : Name} {docId' : String}, (c, docId) ≠ (d, docId') →
      toLex (c.val, docId) ≠ toLex (d.val, docId') := by
    rintro d docId' hne heq
    obtain ⟨hc, hdoc⟩ := Prod.mk.inj (toLex_inj.mp heq)
    exact hne (Prod.ext (Subtype.ext hc) hdoc)
  have hlatest : (s.apply T call).latest.get (toLex (c.val, docId)) =
      s.latest.get (toLex (c.val, docId)) := by
    cases call with
    | indexDocumentFields d docId' fields =>
      rw [apply, SortedMap.get_insert, if_neg (hkey hne)]
    | removeDocumentFields d docId' => rw [apply, SortedMap.get_erase, if_neg (hkey hne)]
  rw [texts, texts, hlatest, declarationFor_apply]

lemma held_apply_of_ne (hT : T.Correct) {call : Call} {c : Name} {docId : String} (hne : (c, docId) ≠ target call)
    (field : String) :
    Held T (s.apply T call).manager (indexKey c field) docId ↔
      Held T s.manager (indexKey c field) docId := by
  cases call with
  | indexDocumentFields d docId' fields =>
    by_cases hc : c = d
    · subst hc
      exact held_indexDocumentFields_of_ne _ _ _ _ hT (keyOfCollection_indexKey c.val field)
        (fun hdoc => hne (by rw [hdoc]; rfl))
    · exact held_of_indexesStay (indexesStay_indexDocumentFields s.manager docId' fields) hc ..
  | removeDocumentFields d docId' =>
    by_cases hc : c = d
    · subst hc
      exact (held_removeDocumentFields _ _ _ hT (keyOfCollection_indexKey c.val field)).trans
        (and_iff_right (fun hdoc => hne (by rw [hdoc]; rfl)))
    · exact held_of_indexesStay (indexesStay_retractAll
        (fun _ hkey => keyOfCollection_of_mem hkey) docId' s.manager) hc ..

lemma rebuiltAt_target_iff (hT : T.Correct) (h : s.EqualsRebuild T) (call : Call) :
    RebuiltAt T (s.apply T call).manager (target call).1 (target call).2
        ((s.apply T call).texts (target call).1 (target call).2) ↔ s.Plain T call := by
  cases call with
  | indexDocumentFields c docId fields =>
    rw [texts, declarationFor_apply]
    simp only [apply, target, SortedMap.get_insert, if_true]
    exact rebuiltAt_indexDocumentFields_iff hT (h c docId) fields
  | removeDocumentFields c docId =>
    rw [texts, declarationFor_apply]
    simp only [apply, target, SortedMap.get_erase, if_true]
    exact iff_of_true (rebuiltAt_removeDocumentFields hT s.manager c docId) trivial

lemma EqualsRebuild.apply_iff (hT : T.Correct) (h : s.EqualsRebuild T) (call : Call) :
    (s.apply T call).EqualsRebuild T ↔ s.Plain T call := by
  rw [← rebuiltAt_target_iff hT h call]
  refine ⟨fun hall => hall _ _, fun htarget c docId => ?_⟩
  by_cases hsame : (c, docId) = target call
  · obtain ⟨rfl, rfl⟩ : c = (target call).1 ∧ docId = (target call).2 := by
      rw [← hsame]
      exact ⟨rfl, rfl⟩
    exact htarget
  · rw [texts_apply_of_ne hsame]
    exact (h c docId).congr (held_apply_of_ne hT hsame)

end State

/-- No text index and no document yet, under any search declarations. -/
def State.empty (declarations : SortedMap String SearchDeclarationRecord) : State Index :=
  { manager := { indices := SortedMap.empty, declarations := declarations }
    latest := SortedMap.empty }

lemma State.equalsRebuild_empty (declarations : SortedMap String SearchDeclarationRecord) :
    (State.empty declarations).EqualsRebuild T := by
  intro c docId
  have hheld : ∀ key, ¬Held T (State.empty declarations).manager key docId := by
    rintro key ⟨index, hindex, -⟩
    cases hindex
  refine ⟨fun field _ => iff_of_false (hheld _) ?_, iff_of_false (hheld _) ?_⟩
  · rintro ⟨text, -, ht⟩
    cases ht
  · rintro ⟨field, text, -, ht⟩
    cases ht

/-- After any calls on any collections, each a plain one where it is made, every index holds what a
rebuild would put in it, and the next call keeps it so exactly if it is a plain one too. -/
theorem text_indexes_equal_rebuild (hT : T.Correct)
    (declarations : SortedMap String SearchDeclarationRecord) {s : State Index}
    (h : Reaches (fun s call => some (State.apply T s call)) (State.Plain T)
      (State.empty declarations) s) :
    s.EqualsRebuild T ∧ ∀ call, (s.apply T call).EqualsRebuild T ↔ s.Plain T call := by
  have hs : s.EqualsRebuild T := by
    refine h.invariant (State.equalsRebuild_empty declarations) ?_
    rintro s call t hs hplain ⟨⟩
    exact (hs.apply_iff hT call).mpr hplain
  exact ⟨hs, hs.apply_iff hT⟩

/-- Texts by document, of those with a character that is no space. -/
def wordIndex : TextIndex (SortedMap String String) where
  empty := SortedMap.empty
  holds index docId := (index.get docId).isSome
  add index docId text := if text.toList.any (· ≠ ' ') then index.insert docId text else index
  remove index docId := index.erase docId
  records text := text.toList.any (· ≠ ' ')

lemma wordIndex_correct : wordIndex.Correct where
  holds_empty _ := rfl
  holds_add {index docId} hfree text docId' := by
    have hnone : index.get docId = none := by simpa [wordIndex] using hfree
    simp only [wordIndex]
    split_ifs with hwords
    · simp only [SortedMap.get_insert, hwords]
      by_cases hdoc : docId' = docId <;> simp [hdoc]
    · rw [Bool.not_eq_true] at hwords
      simp only [hwords]
      by_cases hdoc : docId' = docId <;> simp [hdoc, hnone]
  holds_remove index docId docId' := by
    simp only [wordIndex, SortedMap.get_erase]
    by_cases hdoc : docId' = docId <;> simp [hdoc]

/-- A collection without a search declaration. -/
def notes : Name := ⟨"notes", by decide +kernel⟩

/-- A document with a title. -/
def titled : Call := .indexDocumentFields notes "a" ⟨[("title", .string "quick")], by simp⟩

/-- The document loses its body, and another document is removed. -/
def noteCalls : List Call :=
  [.indexDocumentFields notes "a" ⟨[("body", .string "brown"), ("title", .string "quick")], by decide⟩,
    .indexDocumentFields notes "b" ⟨[("title", .string "fox")], by simp⟩, titled,
    .removeDocumentFields notes "b"]

lemma plainVersion_of_words {before texts : List (String × String)}
    (hbefore : ∀ t ∈ before, t.1 ≠ "_geohash") (hsome : ∃ t ∈ texts, t.2 ≠ "")
    (hwords : ∀ t ∈ texts, T.records t.2 = true) (hjoined : T.records (joinedText texts) = true) :
    PlainVersion T before texts where
  geohash := fun ⟨_, _, ht⟩ => absurd rfl (hbefore _ ht)
  recorded t ht _ _ := hwords t ht
  joined _ := hjoined
  blank hall := by
    obtain ⟨t, ht, hne⟩ := hsome
    exact absurd (hall t ht) hne

theorem text_indexes_equal_rebuild_titled :
    ∃ s, runAll (fun s call => some (State.apply wordIndex s call)) (State.empty SortedMap.empty)
        noteCalls = some s ∧
      s.texts notes "a" = [("title", "quick")] ∧ s.texts notes "b" = [] ∧
      s.EqualsRebuild wordIndex := by
  have hgood : GoodAll (fun s call => some (State.apply wordIndex s call)) (State.Plain wordIndex)
      (State.empty SortedMap.empty) noteCalls := by
    refine ⟨plainVersion_of_words (by decide +kernel) (by decide +kernel) (by decide +kernel)
      (by decide +kernel), ?_⟩
    rintro _ ⟨⟩
    refine ⟨plainVersion_of_words (by decide +kernel) (by decide +kernel) (by decide +kernel)
      (by decide +kernel), ?_⟩
    rintro _ ⟨⟩
    refine ⟨plainVersion_of_words (by decide +kernel) (by decide +kernel) (by decide +kernel)
      (by decide +kernel), ?_⟩
    rintro _ ⟨⟩
    exact ⟨trivial, fun _ _ => trivial⟩
  refine ⟨_, rfl, by decide +kernel, by decide +kernel, ?_⟩
  exact (text_indexes_equal_rebuild wordIndex_correct SortedMap.empty
    (Reaches.of_runAll hgood rfl)).1

/-- A user's own `_geohash` field, written and then left out by the next version. -/
def geohashed : Call := .indexDocumentFields notes "a" ⟨[("_geohash", .string "quick")], by simp⟩

/-- The document is still found by the `_geohash` its latest version does not have. -/
theorem dropped_geohash_field_still_held :
    wordIndex.Correct ∧ ¬(((State.empty SortedMap.empty).apply wordIndex geohashed).apply wordIndex
      titled).EqualsRebuild wordIndex := by
  refine ⟨wordIndex_correct, fun h => ?_⟩
  have hheld : Held wordIndex (((State.empty SortedMap.empty).apply wordIndex geohashed).apply
      wordIndex titled).manager (indexKey "notes" "_geohash") "a" :=
    ⟨⟨[("a", "quick")], by simp⟩, by rfl, by rfl⟩
  have htexts : (((State.empty SortedMap.empty).apply wordIndex geohashed).apply wordIndex
      titled).texts notes "a" = [("title", "quick")] := by rfl
  have hlatest := ((h notes "a").1 "_geohash" (by decide)).mp hheld
  rw [htexts] at hlatest
  obtain ⟨text, -, ht⟩ := hlatest
  have hname : "_geohash" = "title" := congrArg Prod.fst (List.mem_singleton.mp ht)
  exact absurd hname (by decide)

end Runs

end NodedbLite.Fts
