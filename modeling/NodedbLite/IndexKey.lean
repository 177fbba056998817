import NodedbLite.Digits
import NodedbLite.IndexClass

/-! Storage keys of the index catalog. Every key starts with a root no text key can start with; an
entry key is the length-prefixed collection and index names, one encoded value and the document
id, so the keys of one index are exactly those under its prefix. -/
namespace NodedbLite.Index

open Query (Value)

def root : Bytes := [0xFF, 0x69, 0x64, 0x78]

def formatVersion : Nat := 1

def entriesPrefix : Bytes := root ++ [0x01]

def defsPrefix : Bytes := root ++ [0x02]

def formatKey : Bytes := root ++ [0x03]

/-- A name behind its big-endian length, which saturates. -/
def pushComponent (component : String) : Bytes :=
  let bytes := Bytes.ofString component
  Bytes.ofNatBE 4 (min bytes.length (2 ^ 32 - 1)) ++ bytes

/-- The bytes from `n` on, none when there are fewer. -/
def sliceFrom (bytes : Bytes) (n : Nat) : Option Bytes :=
  if n ≤ bytes.length then some (bytes.drop n) else none

def stripKey (head key : Bytes) : Option Bytes :=
  if head.isPrefixOf key then some (key.drop head.length) else none

def readComponent (bytes : Bytes) : Option (String × Bytes) :=
  if bytes.length < 4 then none
  else
    let len := Bytes.toNatBE (bytes.take 4)
    (sliceFrom bytes (4 + len)).bind fun rest =>
      (Bytes.toString? ((bytes.drop 4).take len)).map fun component => (component, rest)

def defKey (collection name : String) : Bytes :=
  defsPrefix ++ (pushComponent collection ++ pushComponent name)

def collectionPrefix (collection : String) : Bytes := entriesPrefix ++ pushComponent collection

def indexPrefix (collection name : String) : Bytes :=
  collectionPrefix collection ++ pushComponent name

def entryKey (head encodedValue : Bytes) (docId : String) : Bytes :=
  head ++ encodedValue ++ Bytes.ofString docId

/-- The document id behind an encoded value. -/
def docIdAfterValue (rest : Bytes) : Option String :=
  (encodedLen rest).bind fun len => (sliceFrom rest len).bind Bytes.toString?

/-- An entry key split into collection, index and document id. -/
def splitEntry (key : Bytes) : Option (String × String × String) :=
  (stripKey entriesPrefix key).bind fun rest =>
    (readComponent rest).bind fun (collection, rest) =>
      (readComponent rest).bind fun (index, rest) =>
        (docIdAfterValue rest).map fun docId => (collection, index, docId)

structure ParsedEntry where
  collection : String
  docId : String
  deriving DecidableEq, Repr

def parseEntry (key : Bytes) : Option ParsedEntry :=
  (splitEntry key).map fun (collection, _, docId) => ⟨collection, docId⟩

/-- The document id of an entry under an index prefix. -/
def entryDocId (key head : Bytes) : Option String := (stripKey head key).bind docIdAfterValue

def nibbleChar (n : Nat) : Char := Char.ofNat (Digits.digit n).toNat

def nibble (c : Char) : Option Nat :=
  if '0' ≤ c ∧ c ≤ '9' then some (c.toNat - 48)
  else if 'a' ≤ c ∧ c ≤ 'f' then some (c.toNat - 87)
  else none

/-- The document id an entry carries for a row keyed by bytes: the key in lowercase hex. -/
def docIdOfKey (bytes : Bytes) : String :=
  String.ofList (bytes.flatMap fun b => [nibbleChar (b.toNat / 16), nibbleChar (b.toNat % 16)])

def keyOfNibbles : List Char → Option Bytes
  | [] => some []
  | [_] => none
  | c :: d :: rest =>
    (nibble c).bind fun high => (nibble d).bind fun low =>
      (keyOfNibbles rest).map (UInt8.ofNat (16 * high + low) :: ·)

def keyOfDocId (id : String) : Option Bytes := keyOfNibbles id.toList

variable {Predicate : Type}

def IndexDef.entryPrefix (d : IndexDef Predicate) : Bytes := indexPrefix d.collection d.name

def IndexDef.key (d : IndexDef Predicate) : Bytes := defKey d.collection d.name

/-- Every entry key an index holds for one row. -/
def entryKeys (A : IndexApi Predicate) (d : IndexDef Predicate) (docId : String) (row : Value) :
    SortedSet Bytes :=
  SortedSet.ofKeys (((indexValues A d row).flatMap (encodeCoercible A)).map
    (entryKey d.entryPrefix · docId))

lemma stripKey_append (head rest : Bytes) : stripKey head (head ++ rest) = some rest := by
  rw [stripKey, if_pos (List.isPrefixOf_iff_prefix.mpr (List.prefix_append head rest)),
    List.drop_left]

lemma sliceFrom_append {a b : Bytes} {n : Nat} (h : a.length = n) :
    sliceFrom (a ++ b) n = some b := by
  rw [sliceFrom, if_pos (by simp [← h]), List.drop_left' h]

lemma readComponent_pushComponent {c : String} (h : ShortName c) (rest : Bytes) :
    readComponent (pushComponent c ++ rest) = some (c, rest) := by
  set len := (Bytes.ofString c).length with hlen
  have hshort : len < 2 ^ 32 := h
  have hpush : pushComponent c = Bytes.ofNatBE 4 len ++ Bytes.ofString c := by
    rw [pushComponent, ← hlen, min_eq_left (by omega)]
  have hfour : (Bytes.ofNatBE 4 len).length = 4 := Bytes.length_ofNatBE 4 len
  have hread : Bytes.toNatBE (Bytes.ofNatBE 4 len) = len := by
    rw [Bytes.toNatBE_ofNatBE, Nat.mod_eq_of_lt (by simpa using hshort)]
  have hslice : sliceFrom (pushComponent c ++ rest) (4 + len) = some rest :=
    sliceFrom_append (by rw [hpush, List.length_append, hfour, ← hlen])
  have htake : (pushComponent c ++ rest).take 4 = Bytes.ofNatBE 4 len := by
    rw [hpush, List.append_assoc, List.take_left' hfour]
  have hname : ((pushComponent c ++ rest).drop 4).take len = Bytes.ofString c := by
    rw [hpush, List.append_assoc, List.drop_left' hfour, List.take_left' hlen.symm]
  have hlong : ¬ (pushComponent c ++ rest).length < 4 := by
    rw [hpush, List.append_assoc, List.length_append, hfour]
    omega
  simp only [readComponent, if_neg hlong, htake, hread, hslice, hname, Option.bind_some,
    Bytes.toString?_ofString, Option.map_some]

lemma splitEntry_indexPrefix {c n : String} (hc : ShortName c) (hn : ShortName n) (rest : Bytes) :
    splitEntry (indexPrefix c n ++ rest) = (docIdAfterValue rest).map fun id => (c, n, id) := by
  simp only [splitEntry, indexPrefix, collectionPrefix, List.append_assoc, stripKey_append,
    Option.bind_some, readComponent_pushComponent hc, readComponent_pushComponent hn]

lemma docIdAfterValue_append {enc : Bytes} (id : String)
    (h : ∀ rest, encodedLen (enc ++ rest) = some enc.length) :
    docIdAfterValue (enc ++ Bytes.ofString id) = some id := by
  rw [docIdAfterValue, h, Option.bind_some, sliceFrom_append rfl, Option.bind_some,
    Bytes.toString?_ofString]

/-- `k` is a key of index `d` for document `id`. -/
structure EntryOf (d : IndexDef Predicate) (id : String) (k : Bytes) : Prop where
  split : splitEntry k = some (d.collection, d.name, id)
  under : d.entryPrefix <+: k

lemma EntryOf.parse {d : IndexDef Predicate} {id : String} {k : Bytes} (h : EntryOf d id k) :
    parseEntry k = some ⟨d.collection, id⟩ := by
  rw [parseEntry, h.split, Option.map_some]

lemma entriesPrefix_isPrefix_entryPrefix (d : IndexDef Predicate) :
    entriesPrefix <+: d.entryPrefix := by
  refine ⟨pushComponent d.collection ++ pushComponent d.name, ?_⟩
  simp only [IndexDef.entryPrefix, indexPrefix, collectionPrefix, List.append_assoc]

lemma EntryOf.inEntries {d : IndexDef Predicate} {id : String} {k : Bytes} (h : EntryOf d id k) :
    entriesPrefix <+: k := (entriesPrefix_isPrefix_entryPrefix d).trans h.under

lemma names_eq_of_under {d e : IndexDef Predicate} {id : String} {k : Bytes}
    (hd : d.entryPrefix <+: k) (he : splitEntry k = some (e.collection, e.name, id)) :
    d.collection = e.collection ∧ d.name = e.name := by
  obtain ⟨rest, rfl⟩ := hd
  rw [IndexDef.entryPrefix, splitEntry_indexPrefix d.collection_short d.name_short,
    Option.map_eq_some_iff] at he
  obtain ⟨id', -, heq⟩ := he
  simp only [Prod.mk.injEq] at heq
  exact ⟨heq.1, heq.2.1⟩

lemma mem_entryKeys {A : IndexApi Predicate} {d : IndexDef Predicate} {id : String} {row : Value}
    {k : Bytes} : k ∈ entryKeys A d id row ↔
      ∃ v ∈ indexValues A d row, ∃ enc ∈ encodeCoercible A v, k = entryKey d.entryPrefix enc id := by
  rw [entryKeys, SortedSet.mem_ofKeys, List.mem_map]
  constructor
  · rintro ⟨enc, henc, rfl⟩
    obtain ⟨v, hv, hmem⟩ := List.mem_flatMap.mp henc
    exact ⟨v, hv, enc, hmem, rfl⟩
  · rintro ⟨v, hv, enc, hmem, rfl⟩
    exact ⟨enc, List.mem_flatMap.mpr ⟨v, hv, hmem⟩, rfl⟩

/-- Every entry key parses back to the collection, index and document it was made for. -/
theorem entryOf_of_mem_entryKeys {A : IndexApi Predicate} {d : IndexDef Predicate} {id : String}
    {row : Value} {k : Bytes} (h : k ∈ entryKeys A d id row) : EntryOf d id k := by
  obtain ⟨v, -, enc, henc, rfl⟩ := mem_entryKeys.mp h
  have hlen := encodedLen_encodeCoercible A henc
  rw [entryKey, List.append_assoc]
  refine ⟨?_, List.prefix_append _ _⟩
  rw [IndexDef.entryPrefix, splitEntry_indexPrefix d.collection_short d.name_short,
    docIdAfterValue_append id hlen, Option.map_some]

lemma components_inj {c n c' n' : String} (hc : ShortName c) (hn : ShortName n) (hc' : ShortName c')
    (hn' : ShortName n') {rest rest' : Bytes}
    (h : pushComponent c ++ (pushComponent n ++ rest) =
      pushComponent c' ++ (pushComponent n' ++ rest')) :
    c = c' ∧ n = n' ∧ rest = rest' := by
  have hread := congrArg readComponent h
  rw [readComponent_pushComponent hc, readComponent_pushComponent hc', Option.some.injEq,
    Prod.mk.injEq] at hread
  have hname := congrArg readComponent hread.2
  rw [readComponent_pushComponent hn, readComponent_pushComponent hn', Option.some.injEq,
    Prod.mk.injEq] at hname
  exact ⟨hread.1, hname.1, hname.2⟩

lemma defKey_inj {c n c' n' : String} (hc : ShortName c) (hn : ShortName n) (hc' : ShortName c')
    (hn' : ShortName n') (h : defKey c n = defKey c' n') : c = c' ∧ n = n' := by
  have hrest := List.append_cancel_left h
  rw [← List.append_nil (pushComponent n), ← List.append_nil (pushComponent n')] at hrest
  obtain ⟨hcoll, hname, -⟩ := components_inj hc hn hc' hn' hrest
  exact ⟨hcoll, hname⟩

lemma IndexDef.key_inj {d e : IndexDef Predicate} (h : d.key = e.key) :
    d.collection = e.collection ∧ d.name = e.name :=
  defKey_inj d.collection_short d.name_short e.collection_short e.name_short h

lemma defsPrefix_isPrefix_key (d : IndexDef Predicate) : defsPrefix <+: d.key :=
  List.prefix_append _ _

lemma not_defs_of_entries {k : Bytes} (h : entriesPrefix <+: k) : ¬ defsPrefix <+: k := by
  rintro hd
  obtain ⟨rest, rfl⟩ := h
  obtain ⟨tail, htail⟩ := hd
  simp [entriesPrefix, defsPrefix, root] at htail

lemma nibble_nibbleChar : ∀ n < 16, nibble (nibbleChar n) = some n := by decide

/-- A row's key reads back from the document id its entries carry. -/
theorem keyOfDocId_docIdOfKey (key : Bytes) : keyOfDocId (docIdOfKey key) = some key := by
  rw [keyOfDocId, docIdOfKey, String.toList_ofList]
  induction key with
  | nil => rfl
  | cons b key ih =>
    have hb : b.toNat < 256 := b.toNat_lt
    have hsplit : 16 * (b.toNat / 16) + b.toNat % 16 = b.toNat := by omega
    simp only [List.flatMap_cons, List.cons_append, List.nil_append, keyOfNibbles,
      nibble_nibbleChar _ (show b.toNat / 16 < 16 by omega),
      nibble_nibbleChar _ (show b.toNat % 16 < 16 by omega), Option.bind_some, ih,
      Option.map_some, hsplit, UInt8.ofNat_toNat]

lemma docIdOfKey_injective : Function.Injective docIdOfKey := by
  intro a b h
  have hkeys := congrArg keyOfDocId h
  simpa only [keyOfDocId_docIdOfKey, Option.some.injEq] using hkeys

section Codec

variable {c n c' n' : String}

lemma indexPrefix_append_inj (hc : ShortName c) (hn : ShortName n) (hc' : ShortName c')
    (hn' : ShortName n') {rest rest' : Bytes}
    (h : indexPrefix c n ++ rest = indexPrefix c' n' ++ rest') : c = c' ∧ n = n' ∧ rest = rest' := by
  simp only [indexPrefix, collectionPrefix, List.append_assoc] at h
  exact components_inj hc hn hc' hn' (List.append_cancel_left h)

lemma isPrefix_indexPrefix_append_iff (hc : ShortName c) (hn : ShortName n) (hc' : ShortName c')
    (hn' : ShortName n') (under rest : Bytes) :
    indexPrefix c' n' ++ under <+: indexPrefix c n ++ rest ↔ c' = c ∧ n' = n ∧ under <+: rest := by
  constructor
  · rintro ⟨tail, htail⟩
    rw [List.append_assoc] at htail
    obtain ⟨hcoll, hname, hrest⟩ := indexPrefix_append_inj hc' hn' hc hn htail
    exact ⟨hcoll, hname, tail, hrest⟩
  · rintro ⟨rfl, rfl, hrest⟩
    exact (List.prefix_append_right_inj _).mpr hrest

lemma encode_append_inj {a b : ClassValue} {id id' : String}
    (h : a.encode ++ Bytes.ofString id = b.encode ++ Bytes.ofString id') : a.Same b ∧ id = id' := by
  have henc : a.encode = b.encode := Bytes.eq_of_isPrefix_append (a.apart_encode b) ⟨_, h⟩
  rw [henc] at h
  exact ⟨(a.encode_eq_iff b).mp henc, Bytes.ofString_injective (List.append_cancel_left h)⟩

/-- An entry key reads back to its collection and document, under the prefix of its own index only;
equal keys agree in everything up to the equality of values; no prefix of an index, or of a value in
one, begins a key of another. -/
theorem entry_keys_faithful (hc : ShortName c) (hn : ShortName n) (hc' : ShortName c')
    (hn' : ShortName n') (a b : ClassValue) (id id' : String) :
    parseEntry (entryKey (indexPrefix c n) a.encode id) = some ⟨c, id⟩ ∧
      entryDocId (entryKey (indexPrefix c n) a.encode id) (indexPrefix c' n') =
        (if c' = c ∧ n' = n then some id else none) ∧
      (entryKey (indexPrefix c n) a.encode id = entryKey (indexPrefix c' n') b.encode id' ↔
        c = c' ∧ n = n' ∧ a.Same b ∧ id = id') ∧
      (indexPrefix c' n' <+: entryKey (indexPrefix c n) a.encode id ↔ c' = c ∧ n' = n) ∧
      (indexPrefix c' n' ++ b.encode <+: entryKey (indexPrefix c n) a.encode id ↔
        c' = c ∧ n' = n ∧ b.Same a) := by
  have hdoc := docIdAfterValue_append id a.encodedLen_encode
  have hunder := isPrefix_indexPrefix_append_iff hc hn hc' hn'
  simp only [entryKey, List.append_assoc]
  refine ⟨?_, ?_, ?_, ?_, ?_⟩
  · rw [parseEntry, splitEntry_indexPrefix hc hn, hdoc]
    rfl
  · split_ifs with hsame
    · rw [hsame.1, hsame.2, entryDocId, stripKey_append, Option.bind_some, hdoc]
    · rw [entryDocId, stripKey, if_neg, Option.bind_none]
      rw [List.isPrefixOf_iff_prefix, ← List.append_nil (indexPrefix c' n'), hunder]
      exact fun h => hsame ⟨h.1, h.2.1⟩
  · constructor
    · intro h
      obtain ⟨hcoll, hname, hrest⟩ := indexPrefix_append_inj hc hn hc' hn' h
      exact ⟨hcoll, hname, encode_append_inj hrest⟩
    · rintro ⟨rfl, rfl, hsame, rfl⟩
      rw [(a.encode_eq_iff b).mpr hsame]
  · rw [← List.append_nil (indexPrefix c' n'), hunder]
    exact ⟨fun h => ⟨h.1, h.2.1⟩, fun h => ⟨h.1, h.2, List.nil_prefix⟩⟩
  · rw [hunder, ← b.encode_eq_iff a]
    refine and_congr_right fun _ => and_congr_right fun _ => ⟨fun h => ?_, fun h => ?_⟩
    · exact Bytes.eq_of_isPrefix_append (b.apart_encode a) h
    · rw [h]
      exact List.prefix_append _ _

/-- Two indexes whose names would run together without their lengths. -/
theorem entry_keys_faithful_colons :
    entryDocId (entryKey (indexPrefix "a:b" "i") (ClassValue.string [0]).encode "x")
        (indexPrefix "a" "b:i") = none ∧
      ¬ indexPrefix "a" "b:i" <+:
        entryKey (indexPrefix "a:b" "i") (ClassValue.string [0]).encode "x" := by
  obtain ⟨-, hdoc, -, hpfx, -⟩ := entry_keys_faithful
    (show ShortName "a:b" by decide) (show ShortName "i" by decide) (show ShortName "a" by decide)
    (show ShortName "b:i" by decide) (.string [0]) (.string []) "x" "x"
  refine ⟨hdoc, fun h => ?_⟩
  exact absurd (hpfx.mp h).1 (by decide)

end Codec

end NodedbLite.Index
