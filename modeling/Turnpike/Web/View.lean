import Turnpike.Body.Activity
import Turnpike.Routing.Draft
import Turnpike.Web.Request
import Turnpike.Web.Responder

namespace Turnpike

/-- A handler of requests that have found their route.  It returns a response or the text of its
failure. -/
abbrev WebHandler := Request → Activity (Except String Response)

/-- The reply to a body in memory.  A stream of what is left unread ends with it. -/
def Activity.replyOn (body : Bytes) (activity : Activity (Except String Response)) :
    Option (Except String Response) :=
  match activity.runOn body with
  | (none, _) => none
  | (some reply, left) =>
    some (reply.map fun response => response.forwarding (.ofAnswers (left.toList.map .ok)))

namespace WebHandler

def ofActivity [Responder α] (f : Request → Activity α) : WebHandler := fun request =>
  (f request).map fun value => .ok (respond value)

def ofFunction [Responder α] (f : Request → α) : WebHandler := .ofActivity fun request => .done (f request)

def fail (reason : String) : WebHandler := fun _ => .done (.error reason)

end WebHandler

/-- One answer for each of several methods of a path.  A method may be announced and yet have no
answer. -/
structure MethodView where
  methods : List Method
  streamMethods : List Method
  answer : Method → Option (Request → Activity (Except WebFault Response))

namespace MethodView

def refusal (view : MethodView) (request : Request) : WebFault :=
  .methodNotAllowed request.method request.path view.methods

/-- Only the standard methods can have an answer. -/
def handler (view : MethodView) (method : Method) : WebHandler :=
  match if Method.standard.contains method then view.answer method else none with
  | some answer => .ofActivity answer
  | none => .ofFunction view.refusal

/-- One endpoint for each announced method. -/
def endpoints (view : MethodView) : List (Endpoint WebHandler) :=
  view.methods.map fun method =>
    ⟨[method], view.handler method, view.streamMethods.contains method⟩

end MethodView

end Turnpike
