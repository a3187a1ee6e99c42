import Turnpike.Connection.Serve
import Turnpike.Routing.Router
import Turnpike.Web.Config
import Turnpike.Web.SocketAddress
import Turnpike.Web.View

/-!
The server: it dispatches the requests of a connection through its router.  A streamed endpoint gets
the body as it arrives; for any other the body is read first, up to a limit.
-/

namespace Turnpike

structure Server where
  router : Router WebHandler
  /-- Answers when a path selects no route. -/
  fallback : Option WebHandler
  addresses : List SocketAddress
  config : ServerConfig

inductive ServerFault where
  | missingRouter
  | missingAddress
  | invalidAddress (fault : AddressFault)
  deriving DecidableEq, Repr

def ServerFault.message : ServerFault → String
  | .missingRouter => "router must be set"
  | .missingAddress => "address must be set"
  | .invalidAddress fault => "invalid address: " ++ fault.message

structure ServerBuilder where
  router : Option (Router WebHandler)
  fallback : Option WebHandler
  addresses : Option (Except AddressFault (List SocketAddress))
  config : ServerConfig

namespace ServerBuilder

def empty : ServerBuilder := ⟨none, none, none, .standard⟩

def build (builder : ServerBuilder) : Except ServerFault Server :=
  match builder.router, builder.addresses with
  | none, _ => .error .missingRouter
  | some _, none | some _, some (.ok []) => .error .missingAddress
  | some _, some (.error fault) => .error (.invalidAddress fault)
  | some router, some (.ok addresses) => .ok ⟨router, builder.fallback, addresses, builder.config⟩

end ServerBuilder

/-- The handler of a request, what the path has captured, and who reads the body. -/
structure Dispatch where
  handler : WebHandler
  params : PathParams
  isStream : Bool

namespace Server

def isRequestStream (server : Server) : Bool := server.router.isRequestStream

def dispatch (server : Server) (head : RequestHead) : Except WebFault Dispatch :=
  match server.router.dispatch head.method head.uri.pathText with
  | .ok route => .ok ⟨route.item.endpoint.handler, route.params, route.item.endpoint.isStream⟩
  | .error (.notFound path) =>
    match server.fallback with
    | some handler => .ok ⟨handler, [], false⟩
    | none => .error (.notFound path)
  | .error fault => .error fault

/-- Reads a whole body, nothing of one that announces more than the limit. -/
def readBody (limit : Nat) : Activity (Except WebFault Bytes) :=
  .inspect fun view =>
    if view.hint.lower > limit then .done (.error (.payloadTooLarge limit))
    else .gather (some limit) fun data stop =>
      .done (match stop with
        | .ended => .ok data
        | .fault fault => .error (.body fault)
        | .tooLong => .error (.payloadTooLarge limit))

def invoke (limit : Nat) (head : RequestHead) (dispatch : Dispatch) : Activity (Except String Response) :=
  if dispatch.isStream then dispatch.handler (.streaming head dispatch.params)
  else
    (readBody limit).bind fun body =>
      match body with
      | .ok data => dispatch.handler (.buffered head dispatch.params data)
      | .error fault => .done (.ok (respond fault))

def call (server : Server) (head : RequestHead) : Activity (Except String Response) :=
  match server.dispatch head with
  | .ok dispatch => invoke server.config.requestMaxSize head dispatch
  | .error fault => .done (.ok (respond fault))

def callWith (server : Server) (head : RequestHead) (body : Bytes) : Option (Except String Response) :=
  (server.call head).replyOn body

def serve (server : Server) (segments : List Bytes) (ending : Ending)
    (failure : Option WriteFailure) : ConnectionRun Unit :=
  let handler : Handler Unit := fun _ head => (server.call head).map fun reply => ⟨(), reply⟩
  Connection.serve server.config.connection handler segments ending failure

end Server

end Turnpike
