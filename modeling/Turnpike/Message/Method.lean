import Turnpike.Bytes

namespace Turnpike

/-- A request method: any token, told apart by case. -/
structure Method where
  token : Bytes
  deriving DecidableEq, Repr

namespace Method

def ofText (text : String) : Method := ⟨Bytes.ofText text⟩

def text (method : Method) : String := method.token.toLatin

def get : Method := ofText "GET"
def post : Method := ofText "POST"
def put : Method := ofText "PUT"
def patch : Method := ofText "PATCH"
def delete : Method := ofText "DELETE"
def head : Method := ofText "HEAD"
def options : Method := ofText "OPTIONS"

/-- The methods a view may answer. -/
def standard : List Method := [get, post, put, patch, delete, head, options]

def isHead (method : Method) : Bool := method == head

end Method

end Turnpike
