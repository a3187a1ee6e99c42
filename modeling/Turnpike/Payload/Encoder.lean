import Turnpike.Payload.Item
import Turnpike.Payload.Size
import Turnpike.Text.Number

/-!
The encoder of one message body, chosen by its announced size.  A piece that would break the framing
is refused and leaves the encoder as it was.
-/

namespace Turnpike

inductive PayloadEncoder where
  | length (remaining : Nat) (finished : Bool)
  | chunked (finished : Bool)
  deriving DecidableEq, Repr

namespace PayloadEncoder

inductive Flaw where
  | exceeds (octets : Nat)
  | short (octets : Nat)
  | finished
  deriving DecidableEq, Repr

def Flaw.message : Flaw → String
  | .exceeds octets => s!"body exceeds content-length by {octets} bytes"
  | .short octets => s!"body ended {octets} bytes short of content-length"
  | .finished => "chunked body already finished"

/-- No encoder for a size without a body. -/
def ofSize? : PayloadSize → Option PayloadEncoder
  | .length octets => some (.length octets false)
  | .chunked => some (.chunked false)
  | .empty => none

def isFinished : PayloadEncoder → Bool
  | .length _ finished => finished
  | .chunked finished => finished

def lineEnd : Bytes := [Byte.cr, Byte.lf]

/-- A chunk of no data would end the body, so it is left out. -/
def chunk (data : Bytes) : Bytes :=
  if data.isEmpty then []
  else Number.hexadecimal data.length ++ lineEnd ++ data ++ lineEnd

def lastChunk : Bytes := Number.hexadecimal 0 ++ lineEnd ++ lineEnd

def encode : PayloadEncoder → PayloadItem → Except Flaw (Bytes × PayloadEncoder)
  | .length remaining finished, .chunk data =>
    if data.length > remaining then .error (.exceeds (data.length - remaining))
    else .ok (data, .length (remaining - data.length) finished)
  | .length remaining _, .eof =>
    if remaining > 0 then .error (.short remaining) else .ok ([], .length 0 true)
  | .chunked true, _ => .error .finished
  | .chunked false, .chunk data => .ok (chunk data, .chunked false)
  | .chunked false, .eof => .ok (lastChunk, .chunked true)

end PayloadEncoder

end Turnpike
