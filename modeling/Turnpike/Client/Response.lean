import Turnpike.Client.Request
import Turnpike.Message.Fault
import Turnpike.Payload.Decoder
import Turnpike.Wire.ResponseReader

/-!
The response of an exchange, read from all that the server writes.
-/

namespace Turnpike

structure ClientResponse where
  status : Status
  fields : Fields
  body : Bytes
  deriving DecidableEq, Repr

inductive ClientFault where
  | invalidRequest (flaw : FieldFlaw)
  | invalidResponse (reason : String)
  | expectationFailed (status : Status) (message : String)
  | body (source : RequestFault)
  | io (fault : IoFault)
  deriving DecidableEq, Repr

def Status.text (status : Status) : String :=
  let reason := if status.reason.isEmpty then "<unknown status code>" else status.reason
  s!"{status.code} {reason}"

def ClientFault.message : ClientFault → String
  | .invalidRequest flaw => s!"invalid request: {flaw.message}"
  | .invalidResponse reason => s!"invalid response: {reason}"
  | .expectationFailed status message => s!"expectation failed with status {status.text}: {message}"
  | .body source => s!"invalid response body: {source.message}"
  | .io fault => s!"io error: {fault.message}"

inductive ClientStop where
  | fault (fault : ClientFault)
  /-- The server keeps the connection open and writes nothing more. -/
  | stalled
  deriving DecidableEq, Repr

/-- What the server has written, and whether it has closed the connection then. -/
structure Received where
  octets : Bytes
  isClosed : Bool
  deriving Repr

/-- What has been read, and what comes behind it. -/
abbrev ClientReading (α : Type) := Except ClientStop (α × Received)

namespace Received

def drop (received : Received) (rest : Bytes) : Received := { received with octets := rest }

/-- What it means that more is asked for than there is. -/
def shortfall (received : Received) (part : String) : ClientStop :=
  if received.isClosed then
    .fault (.invalidResponse ("connection closed before the response " ++ part ++ " was complete"))
  else .stalled

def minStatus : Nat := 100

def head (received : Received) : ClientReading ResponseHead :=
  match ResponseHead.read received.octets with
  | .more => .error (received.shortfall "header")
  | .bad flaw => .error (.fault (.invalidResponse flaw.message))
  | .done head rest =>
    if head.status.code < minStatus then .error (.fault (.invalidResponse "invalid status code"))
    else .ok (head, received.drop rest)

/-- Whether a response is over with its head. -/
def isBodiless (status : Status) (isHead : Bool) : Bool :=
  isHead || status == .noContent || status == .notModified

/-- The framing that the fields announce; nothing if the body ends with the connection. -/
def framing? (fields : Fields) : Except ClientFault (Option PayloadSize) :=
  if (fields.get? FieldName.transferEncoding).any fun value =>
      value.equalsIgnoringCase (Bytes.ofText "chunked") then .ok (some .chunked)
  else
    match fields.get? FieldName.contentLength with
    | none => .ok none
    | some value =>
      match Number.unsigned? Number.wordLimit value with
      | some octets => .ok (some (.ofLength octets))
      | none => .error (.invalidResponse "invalid content-length")

def framedBody (received : Received) (size : PayloadSize) : ClientReading Bytes :=
  let drained := (PayloadDecoder.ofSize size).drain received.octets
  match drained.stop with
  | .eof => .ok (drained.chunks.flatten, received.drop drained.rest)
  | .fault fault => .error (.fault (.body fault))
  | .more => .error (received.shortfall "body")

def body (received : Received) (status : Status) (fields : Fields) (isHead : Bool) :
    ClientReading Bytes :=
  if isBodiless status isHead then .ok ([], received)
  else
    match framing? fields with
    | .error fault => .error (.fault fault)
    | .ok (some size) => received.framedBody size
    | .ok none =>
      if received.isClosed then .ok (received.octets, received.drop []) else .error .stalled

def responseAfter (received : Received) (head : ResponseHead) (isHead : Bool) :
    ClientReading ClientResponse :=
  match received.body head.status head.fields isHead with
  | .ok (body, rest) => .ok (⟨head.status, head.fields, body⟩, rest)
  | .error stop => .error stop

def responseWithin : Nat → Received → Bool → ClientReading ClientResponse
  | 0, received, _ => .error (received.shortfall "header")
  | fuel + 1, received, isHead =>
    match received.head with
    | .error stop => .error stop
    | .ok (head, rest) =>
      if head.status.isInformational then responseWithin fuel rest isHead
      else rest.responseAfter head isHead

/-- The final response; interim ones are passed over. -/
def response (received : Received) (isHead : Bool) : ClientReading ClientResponse :=
  responseWithin (received.octets.length + 1) received isHead

end Received

end Turnpike
