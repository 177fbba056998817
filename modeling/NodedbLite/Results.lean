import NodedbLite.ByteString

/-! What operations answer: the rows of a result, or an error with its text. -/
namespace NodedbLite

/-- The errors of a budgeted scan, with what their texts name. -/
inductive ScanError
  /-- The cursor does not extend the prefix. -/
  | badRequest (pfx : Bytes) (afterKey : Option Bytes)
  /-- The next row exceeds the budget; a wrapper may add the plaintext budget. -/
  | backpressure (pfx : Bytes) (afterKey : Option Bytes) (maxBytes : Nat) (plaintext : Option Nat)
  | storage
  deriving DecidableEq

inductive LiteError
  | storage (detail : String)
  | serialization (detail : String)
  | badRequest (detail : String)
  | collectionNotFound (engine collection : String)
  | uniqueViolation (collection detail : String)
  | backpressure (detail : String)
  | unsupported (detail : String)
  | corrupted (detail : String)
  | counterFault (collection fault : String)
  | typeMismatch (collection detail : String)
  | undefinedObject (object : String)
  | scan (e : ScanError)
  deriving DecidableEq

/-- A storage call that fails. -/
def callFailed : LiteError := .storage "call failed"

structure QueryResult (V : Type*) where
  columns : List String
  rows : List (List V)
  rowsAffected : Nat
  command : Option String
  deriving DecidableEq

namespace QueryResult

variable {V : Type*}

def empty : QueryResult V := ⟨[], [], 0, none⟩

/-- A result that only counts the rows it changed. -/
def affected (n : Nat) (command : Option String) : QueryResult V := ⟨[], [], n, command⟩

end QueryResult

end NodedbLite
