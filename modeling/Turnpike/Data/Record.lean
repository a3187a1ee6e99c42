import Turnpike.Bytes

/-!
Records: what handlers ask a body or a query string to be read as.
-/

namespace Turnpike

inductive Kind where
  | text
  | natural (limit : Nat)
  | boolean
  deriving DecidableEq, Repr

inductive Value where
  | text (value : String)
  | natural (value : Nat)
  | boolean (value : Bool)
  deriving DecidableEq, Repr

/-- A member without a fallback has to be there. -/
structure Member where
  name : String
  kind : Kind
  fallback : Option Value
  deriving DecidableEq, Repr

abbrev Shape := List Member

abbrev Slots := List (Option Value)

namespace Shape

def slots (shape : Shape) : Slots := shape.map fun _ => none

def index? (shape : Shape) (name : String) : Option Nat := shape.findIdx? (·.name == name)

/-- All values, if no member without a fallback is missing. -/
def complete? (shape : Shape) (slots : Slots) : Option (List Value) :=
  (shape.zip slots).mapM fun (member, value) => value <|> member.fallback

end Shape

end Turnpike
