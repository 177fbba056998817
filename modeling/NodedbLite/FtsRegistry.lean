import NodedbLite.ByteString
import NodedbLite.SortedMap

/-! The text indexes of all collections. An index is kept under the collection's name, for whole
documents, or under the name, a colon and the field. -/
namespace NodedbLite.Fts

def colon : UInt8 := 58

section Keys

/-- The key of a field's index; an empty field names the whole-document index. -/
def indexKey (collection field : String) : String :=
  if field = "" then collection else collection ++ ":" ++ field

def keyOfCollection (key collection : String) : Bool :=
  (Bytes.ofString collection).isPrefixOf (Bytes.ofString key) &&
    (match (Bytes.ofString key).drop (Bytes.ofString collection).length with
      | [] => true
      | b :: _ => b = colon)

end Keys

/-- The external text index: what it holds, and what adding an analysed text and removing a document
make of it. -/
structure TextIndex (Index : Type) where
  empty : Index
  holds : Index → String → Bool
  add : Index → String → String → Index
  remove : Index → String → Index
  /-- Whether a document with this text gets a recorded length: an analysis may leave no token. -/
  records : String → Bool

/-- Single documents are added and removed correctly. -/
structure TextIndex.Correct {Index : Type} (T : TextIndex Index) : Prop where
  holds_empty : ∀ docId, T.holds T.empty docId = false
  holds_add : ∀ {index docId}, T.holds index docId = false → ∀ text docId',
    T.holds (T.add index docId text) docId' = true ↔
      docId' = docId ∧ T.records text = true ∨ docId' ≠ docId ∧ T.holds index docId' = true
  holds_remove : ∀ index docId docId',
    T.holds (T.remove index docId) docId' = true ↔ docId' ≠ docId ∧ T.holds index docId' = true

/-- A field of a document: only strings are indexed. -/
inductive FieldValue
  | string (text : String)
  | other

/-- A collection's search declaration: the fields it selects, if there is one. -/
structure SearchDeclarationRecord where
  declaration : Option (List String)

/-- The indexes by key and the search declarations by collection. -/
structure FtsCollectionManager (Index : Type) where
  indices : SortedMap String Index
  declarations : SortedMap String SearchDeclarationRecord

/-- The texts a declaration selects, by field name; no declared field selects all. -/
def selectedTexts (fields : SortedMap String FieldValue) (declared : Option (List String)) :
    List (String × String) :=
  fields.entries.filterMap (fun field =>
    if (declared.filter (· ≠ [])).all (fun names => field.1 ∈ names) then
      match field.2 with
      | .string text => some (field.1, text)
      | .other => none
    else none)

def joinedText (texts : List (String × String)) : String := " ".intercalate (texts.map Prod.snd)

/-- The key of the geohash index, which the document's own fields leave alone. -/
def systemKey (collection : String) : String := indexKey collection "_geohash"

namespace FtsCollectionManager

variable {Index : Type} (T : TextIndex Index) (m : FtsCollectionManager Index)

section Primitives

def declarationFor (collection : String) : Option (List String) :=
  (m.declarations.get collection).bind SearchDeclarationRecord.declaration

/-- An index that does not hold the document is left alone. -/
def retracted (index : Index) (docId : String) : Index :=
  if T.holds index docId then T.remove index docId else index

def retract (key docId : String) : FtsCollectionManager Index :=
  match m.indices.get key with
  | none => m
  | some index => { m with indices := m.indices.insert key (retracted T index docId) }

/-- Replace the document's text, creating the index on first use; empty text removes it. -/
def indexText (key docId text : String) : FtsCollectionManager Index :=
  if text = "" then m.retract T key docId
  else
    let index := (m.indices.get key).getD T.empty
    { m with indices := m.indices.insert key (T.add (retracted T index docId) docId text) }

def collectionKeys (collection : String) : List String :=
  m.indices.keys.filter (fun key => keyOfCollection key collection)

end Primitives

section Documents

def indexDocument (collection docId text : String) : FtsCollectionManager Index :=
  m.indexText T (indexKey collection "") docId text

def indexField (collection field docId text : String) : FtsCollectionManager Index :=
  m.indexText T (indexKey collection field) docId text

def retractAll (keys : List String) (docId : String) : FtsCollectionManager Index :=
  keys.foldl (fun m key => m.retract T key docId) m

/-- Index a document's string fields and take it out of the collection's other indexes. -/
def indexDocumentFields (collection docId : String) (fields : SortedMap String FieldValue) :
    FtsCollectionManager Index :=
  let texts := selectedTexts fields (m.declarationFor collection)
  let named := texts.filter (fun text => text.1 ≠ "")
  let written := named.foldl (fun m text => m.indexField T collection text.1 docId text.2)
    (m.indexDocument T collection docId (joinedText texts))
  let indexed := named.map (fun text => indexKey collection text.1)
  written.retractAll T ((written.collectionKeys collection).filter (fun key =>
    key ≠ indexKey collection "" ∧ key ≠ systemKey collection ∧ key ∉ indexed)) docId

def removeDocumentFields (collection docId : String) : FtsCollectionManager Index :=
  m.retractAll T (m.collectionKeys collection) docId

end Documents

end FtsCollectionManager

end NodedbLite.Fts
