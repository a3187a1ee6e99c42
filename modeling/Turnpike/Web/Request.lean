import Turnpike.Data.Query
import Turnpike.Data.Json
import Turnpike.Message.Head
import Turnpike.Routing.PathParams
import Turnpike.Web.Fault

/-!
The request a handler receives: its head, what its path has captured and, unless the body is
streamed, the whole body.
-/

namespace Turnpike

structure Request where
  head : RequestHead
  params : PathParams
  /-- Empty if the body is streamed. -/
  body : Bytes
  isStream : Bool
  deriving DecidableEq, Repr

namespace Request

def buffered (head : RequestHead) (params : PathParams) (body : Bytes) : Request :=
  ⟨head, params, body, false⟩

def streaming (head : RequestHead) (params : PathParams) : Request := ⟨head, params, [], true⟩

def method (request : Request) : Method := request.head.method

def path (request : Request) : String := request.head.uri.pathText

def param? (request : Request) (name : String) : Option String := request.params.get? name

def text (request : Request) : Except WebFault String :=
  match Utf8.read request.body with
  | .ok text => .ok text
  | .error fault => .error (.badRequest fault.message)

def json (request : Request) (shape : Shape) : Except Json.Flaw (List Value) :=
  Json.record shape request.body

def form? (request : Request) (shape : Shape) : Option (List Value) :=
  Form.record? shape request.body

def formPairs (request : Request) : List (String × String) := Form.pairs request.body

/-- A missing query string reads as an empty one. -/
def queryBytes (request : Request) : Bytes := request.head.uri.query.getD []

def query? (request : Request) (shape : Shape) : Option (List Value) :=
  Query.record? shape request.queryBytes

def queryMap? (request : Request) : Option (List (String × String)) := Query.map? request.queryBytes

end Request

end Turnpike
