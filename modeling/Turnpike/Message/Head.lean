import Turnpike.Message.Fields
import Turnpike.Message.Method
import Turnpike.Message.Status
import Turnpike.Message.Uri
import Turnpike.Message.Version

/-!
The head of a request or a response: everything before the body.  From a request head follow what
the client expects and whether the connection outlives the exchange.
-/

namespace Turnpike

structure RequestHead where
  method : Method
  uri : Uri
  version : Version
  fields : Fields
  deriving DecidableEq, Repr

/-- What the `Expect` field of a request asks for. -/
inductive Expectation where
  | nothing
  | continuation
  | unsupported (value : Bytes)
  deriving DecidableEq, Repr

def Expectation.ofFields (fields : Fields) : Expectation :=
  match fields.get? FieldName.expect with
  | none => .nothing
  | some value =>
    if value.equalsIgnoringCase (Bytes.ofText "100-continue") then .continuation
    else .unsupported value

namespace Fields

/-- The comma separated items of all `Connection` fields, without blanks around them. -/
def connectionTokens (fields : Fields) : List Bytes :=
  (fields.all FieldName.connection).flatMap fun value =>
    (value.splitOn Byte.comma).map Bytes.trim

def hasConnectionToken (fields : Fields) (token : Bytes) : Bool :=
  fields.connectionTokens.any fun item => item.equalsIgnoringCase token

end Fields

def closeToken : Bytes := Bytes.ofText "close"

def keepAliveToken : Bytes := Bytes.ofText "keep-alive"

namespace RequestHead

def expectation (head : RequestHead) : Expectation := .ofFields head.fields

/-- HTTP/1.1 is persistent unless a close token is there, HTTP/1.0 only with a keep-alive token. -/
def keepAlive (head : RequestHead) : Bool :=
  match head.version with
  | .http11 => !head.fields.hasConnectionToken closeToken
  | .http10 => head.fields.hasConnectionToken keepAliveToken
  | _ => false

end RequestHead

structure ResponseHead where
  status : Status
  version : Version
  fields : Fields
  deriving DecidableEq, Repr

end Turnpike
