import Turnpike.Bytes

/-!
What can go wrong while a request is read or a response is written, and the text of each cause.
-/

namespace Turnpike

inductive IoKind where
  | brokenPipe
  | connectionReset
  | connectionAborted
  | unexpectedEof
  | connectionRefused
  | notConnected
  | timedOut
  | invalidData
  | invalidInput
  | writeZero
  | other
  deriving DecidableEq, Repr

namespace IoKind

def description : IoKind → String
  | .brokenPipe => "broken pipe"
  | .connectionReset => "connection reset"
  | .connectionAborted => "connection aborted"
  | .unexpectedEof => "unexpected end of file"
  | .connectionRefused => "connection refused"
  | .notConnected => "not connected"
  | .timedOut => "timed out"
  | .invalidData => "invalid data"
  | .invalidInput => "invalid input parameter"
  | .writeZero => "write zero"
  | .other => "other error"

def isDisconnect : IoKind → Bool
  | .brokenPipe | .connectionReset | .connectionAborted | .unexpectedEof => true
  | _ => false

end IoKind

/-- A failure of the underlying transport; a text of its own replaces the description of its kind. -/
structure IoFault where
  kind : IoKind
  text : Option String
  deriving DecidableEq, Repr

def IoFault.message (fault : IoFault) : String := fault.text.getD fault.kind.description

/-- Why a request, header or body, could not be read. -/
inductive RequestFault where
  | headTooLarge (size limit : Nat)
  | tooManyFields (limit : Nat)
  | invalidHead (reason : String)
  | invalidVersion (minor : Option Nat)
  | invalidMethod
  | invalidUri
  | invalidContentLength (reason : String)
  | invalidBody (reason : String)
  | incompleteBody
  | io (fault : IoFault)
  deriving DecidableEq, Repr

namespace RequestFault

def message : RequestFault → String
  | .headTooLarge size limit => s!"header size too large, current: {size} exceed the limit {limit}"
  | .tooManyFields limit => s!"header number exceed the limit {limit}"
  | .invalidHead reason => s!"invalid header: {reason}"
  | .invalidVersion none => "invalid http version: None"
  | .invalidVersion (some minor) => s!"invalid http version: Some({minor})"
  | .invalidMethod => "invalid http method"
  | .invalidUri => "invalid http uri"
  | .invalidContentLength reason => s!"invalid content-length header: {reason}"
  | .invalidBody reason => s!"invalid body: {reason}"
  | .incompleteBody => "connection closed before the request body was complete"
  | .io fault => s!"io error: {fault.message}"

def isDisconnect : RequestFault → Bool
  | .incompleteBody => true
  | .io fault => fault.kind.isDisconnect
  | _ => false

end RequestFault

inductive ResponseFault where
  | invalidBody (reason : String)
  | io (fault : IoFault)
  deriving DecidableEq, Repr

def ResponseFault.message : ResponseFault → String
  | .invalidBody reason => s!"invalid body: {reason}"
  | .io fault => s!"io error: {fault.message}"

inductive HttpFault where
  | request (source : RequestFault)
  | response (source : ResponseFault)
  deriving DecidableEq, Repr

namespace HttpFault

def message : HttpFault → String
  | .request source => s!"request error: {source.message}"
  | .response source => s!"response error: {source.message}"

def isDisconnect : HttpFault → Bool
  | .request source => source.isDisconnect
  | .response (.io fault) => fault.kind.isDisconnect
  | .response _ => false

end HttpFault

end Turnpike
