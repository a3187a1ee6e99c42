import Turnpike.Message.Head
import Turnpike.Text.Number
import Turnpike.Wire.ResponseWriter

/-!
The request of a client, which sends one request per connection.
-/

namespace Turnpike

inductive FieldFlaw where
  | invalidName
  | invalidValue
  deriving DecidableEq, Repr

def FieldFlaw.message : FieldFlaw → String
  | .invalidName => "invalid HTTP header name"
  | .invalidValue => "failed to parse header value"

structure ClientRequest where
  method : Method
  target : Bytes
  fields : Fields
  body : Bytes
  /-- The first flaw among the fields that were added. -/
  flaw : Option FieldFlaw
  deriving Repr

namespace ClientRequest

def start (method : Method) (target : Bytes) : ClientRequest := ⟨method, target, .empty, [], none⟩

def withBody (request : ClientRequest) (body : Bytes) : ClientRequest := { request with body }

def maxNameLength : Nat := 65535

def isName (name : Bytes) : Bool :=
  !name.isEmpty && name.length ≤ maxNameLength && name.all Byte.isToken

def isValue (value : Bytes) : Bool := value.all Byte.isFieldContent

def fieldFlaw? (name value : Bytes) : Option FieldFlaw :=
  if !isName name then some .invalidName else if !isValue value then some .invalidValue else none

def withField (request : ClientRequest) (name value : Bytes) : ClientRequest :=
  match fieldFlaw? name value with
  | some flaw => { request with flaw := request.flaw.or (some flaw) }
  | none => { request with fields := request.fields.append name.lower value }

/-- Whether the fields tell by themselves how the body is framed. -/
def isFramed (request : ClientRequest) : Bool :=
  request.fields.contains FieldName.contentLength ||
    request.fields.contains FieldName.transferEncoding

def usesBody (method : Method) : Bool := [Method.post, .put, .patch].contains method

def announcesLength (request : ClientRequest) : Bool :=
  !request.isFramed && (usesBody request.method || !request.body.isEmpty)

/-- The fields a request gets unless it has them. -/
def addedFields (request : ClientRequest) : List (FieldName × Bytes) :=
  (if request.fields.contains FieldName.host then []
    else [(FieldName.host, Bytes.ofText "localhost")]) ++
  (if request.fields.contains FieldName.connection then []
    else [(FieldName.connection, closeToken)]) ++
  (if request.announcesLength then
      [(FieldName.contentLength, Number.decimal request.body.length)]
    else [])

def requestLine (request : ClientRequest) : Bytes :=
  request.method.token ++ [Byte.space] ++ request.target ++ Bytes.ofText " HTTP/1.1\r\n"

def head (request : ClientRequest) : Bytes :=
  request.requestLine ++ (request.addedFields.flatMap fun field => Fields.line field.1 field.2) ++
    request.fields.block

def expects (request : ClientRequest) : Bool := request.fields.contains FieldName.expect

end ClientRequest

end Turnpike
