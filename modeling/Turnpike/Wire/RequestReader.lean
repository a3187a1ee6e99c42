import Turnpike.Message.Head
import Turnpike.Payload.Decoder
import Turnpike.Payload.Framing
import Turnpike.Payload.Message
import Turnpike.Wire.Lines

/-!
Reading requests from a stream: the head, the pieces of its body, the next head, and so on.
-/

namespace Turnpike

namespace RequestHead

def maxFields : Nat := 64

/-- The longest header section, empty lines in front of it included. -/
def maxSize : Nat := 8192

/-- The parts of a request line and the field lines after it, not yet looked into. -/
structure Lines where
  method : Bytes
  target : Bytes
  version : Version
  fields : List (Bytes × Bytes)

open Wire in
def lines (bytes : Bytes) : Reading Lines :=
  (emptyLines bytes).andThen fun _ rest =>
  (methodToken rest).andThen fun method rest =>
  (requestTarget rest).andThen fun target rest =>
  (protocolVersion rest).andThen fun version rest =>
  (lineEnd .newLine rest).andThen fun _ rest =>
  (fieldSection maxFields rest).map fun fields => ⟨method, target, version, fields⟩

def ofLines? (lines : Lines) : Option RequestHead :=
  (Uri.ofBytes? lines.target).map fun uri =>
    ⟨⟨lines.method⟩, uri, lines.version, .ofList lines.fields⟩

/-- Reads a head with the framing it announces.  A head that breaks off or is refused stays in the
buffer, unless only its framing is at fault. -/
def decode (bytes : Bytes) : Except RequestFault (Option (RequestHead × PayloadSize)) × Bytes :=
  match lines bytes with
  | .more =>
    if bytes.length ≤ maxSize then (.ok none, bytes)
    else (.error (.headTooLarge bytes.length maxSize), bytes)
  | .bad .tooManyFields => (.error (.tooManyFields maxFields), bytes)
  | .bad flaw => (.error (.invalidHead flaw.message), bytes)
  | .done lines rest =>
    let size := bytes.length - rest.length
    if size > maxSize then (.error (.headTooLarge size maxSize), bytes)
    else match ofLines? lines with
      | none => (.error .invalidUri, bytes)
      | some head => ((Framing.ofFields head.fields).map fun size => some (head, size), rest)

end RequestHead

/-- Inside a body the decoder of that body is at hand, between requests none is. -/
structure RequestReader where
  body : Option PayloadDecoder
  deriving DecidableEq, Repr

namespace RequestReader

def start : RequestReader := ⟨none⟩

def afterItem (decoder : PayloadDecoder) : Except RequestFault (Option PayloadItem) → RequestReader
  | .ok (some .eof) => ⟨none⟩
  | _ => ⟨some decoder⟩

def decode (reader : RequestReader) (bytes : Bytes) :
    Decoded RequestReader (Message RequestHead) :=
  match reader.body with
  | some decoder =>
    let decoded := decoder.decode bytes
    ⟨decoded.outcome.map (·.map .item), afterItem decoded.next decoded.outcome, decoded.rest⟩
  | none =>
    match RequestHead.decode bytes with
    | (.ok (some (head, size)), rest) =>
      ⟨.ok (some (.head head size)), ⟨some (.ofSize size)⟩, rest⟩
    | (.ok none, rest) => ⟨.ok none, reader, rest⟩
    | (.error fault, rest) => ⟨.error fault, reader, rest⟩

/-- The messages and the fault, if any, that one buffer holds; `fuel` bounds their number. -/
structure Drained where
  messages : List (Message RequestHead)
  fault : Option RequestFault
  reader : RequestReader
  rest : Bytes

def drainWithin : Nat → RequestReader → Bytes → Drained
  | 0, reader, bytes => ⟨[], none, reader, bytes⟩
  | fuel + 1, reader, bytes =>
    let decoded := reader.decode bytes
    match decoded.outcome with
    | .error fault => ⟨[], some fault, decoded.next, decoded.rest⟩
    | .ok none => ⟨[], none, decoded.next, decoded.rest⟩
    | .ok (some message) =>
      let drained := drainWithin fuel decoded.next decoded.rest
      { drained with messages := message :: drained.messages }

/-- Every octet opens at most one piece, and between two pieces stand at most an end and a head. -/
def drain (reader : RequestReader) (bytes : Bytes) : Drained :=
  drainWithin (3 * bytes.length + 3) reader bytes

end RequestReader

end Turnpike
