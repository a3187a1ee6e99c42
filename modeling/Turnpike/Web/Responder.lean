import Turnpike.Body.Outgoing
import Turnpike.Web.Fault

/-!
What a handler may return, and the response it stands for.
-/

namespace Turnpike

class Responder (α : Type) where
  respond : α → Response

export Responder (respond)

namespace WebFault

/-- A body the transport failed to deliver is not the client's fault. -/
def status : WebFault → Status
  | .notFound _ => .notFound
  | .methodNotAllowed _ _ _ => .methodNotAllowed
  | .payloadTooLarge _ => .contentTooLarge
  | .badRequest _ => .badRequest
  | .body (.io _) | .body .incompleteBody => .internalError
  | .body _ => .badRequest

def text (fault : WebFault) : String :=
  match fault with
  | .payloadTooLarge _ => fault.message
  | _ => "Error: " ++ fault.message

def allowed (methods : List Method) : Bytes :=
  List.intercalate (Bytes.ofText ", ") (methods.map Method.token)

def response (fault : WebFault) : Response :=
  let response := Response.ofText fault.status fault.text
  match fault with
  | .methodNotAllowed _ _ methods => response.withField FieldName.allow (allowed methods)
  | _ => response

end WebFault

namespace Responder

def octetStream : Bytes := Bytes.ofText "application/octet-stream"

instance : Responder Response := ⟨id⟩

instance : Responder ResponseBody := ⟨Response.ofStatus .ok⟩

instance : Responder Unit := ⟨fun _ => .ofStatus .ok .empty⟩

instance : Responder String := ⟨Response.ofText .ok⟩

instance : Responder Bytes :=
  ⟨fun bytes => (Response.ofStatus .ok (.ofBytes bytes)).withField FieldName.contentType octetStream⟩

instance : Responder WebFault := ⟨WebFault.response⟩

/-- Nothing is an empty 404. -/
instance [Responder α] : Responder (Option α) :=
  ⟨fun value => match value with
    | some value => respond value
    | none => .ofStatus .notFound .empty⟩

instance [Responder ε] [Responder α] : Responder (Except ε α) :=
  ⟨fun value => match value with
    | .ok value => respond value
    | .error fault => respond fault⟩

def withStatus (status : Status) (response : Response) : Response :=
  { response with head := { response.head with status } }

instance [Responder α] : Responder (Status × α) :=
  ⟨fun pair => withStatus pair.1 (respond pair.2)⟩

instance [Responder α] : Responder (α × Status) :=
  ⟨fun pair => withStatus pair.2 (respond pair.1)⟩

end Responder

end Turnpike
