import Turnpike.Message.Fault
import Turnpike.Message.Method

namespace Turnpike

inductive WebFault where
  | notFound (path : String)
  | methodNotAllowed (method : Method) (path : String) (allowed : List Method)
  | payloadTooLarge (limit : Nat)
  | badRequest (reason : String)
  | body (source : RequestFault)
  deriving DecidableEq, Repr

def WebFault.message : WebFault → String
  | .notFound path => s!"Requested URL {path} not found"
  | .methodNotAllowed method path _ => s!"Method {method.text} not allowed for URL {path}"
  | .payloadTooLarge _ => "Payload Too Large"
  | .badRequest reason => s!"Bad Request: {reason}"
  | .body source => s!"invalid request body: {source.message}"

end Turnpike
