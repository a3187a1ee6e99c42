import Turnpike.Payload.Chunked
import Turnpike.Payload.Size

/-!
The decoder of one message body, chosen by its announced size: pieces, then one `eof`.
-/

namespace Turnpike

inductive PayloadDecoder where
  | length (remaining : Nat)
  | chunked (state : ChunkedDecoder)
  | empty
  deriving DecidableEq, Repr

namespace PayloadDecoder

def ofSize : PayloadSize → PayloadDecoder
  | .length octets => .length octets
  | .chunked => .chunked .start
  | .empty => .empty

def isChunked : PayloadDecoder → Bool
  | .chunked _ => true
  | _ => false

def isEmpty : PayloadDecoder → Bool
  | .empty => true
  | _ => false

/-- Never takes an octet that belongs to the next message. -/
def decodeLength (remaining : Nat) (bytes : Bytes) : Decoded Nat PayloadItem :=
  if remaining = 0 then ⟨.ok (some .eof), 0, bytes⟩
  else if bytes.isEmpty then ⟨.ok none, remaining, bytes⟩
  else
    let data := bytes.take remaining
    ⟨.ok (some (.chunk data)), remaining - data.length, bytes.drop remaining⟩

def decode (decoder : PayloadDecoder) (bytes : Bytes) : Decoded PayloadDecoder PayloadItem :=
  match decoder with
  | .length remaining => (decodeLength remaining bytes).mapState .length
  | .chunked state => (state.decode bytes).mapState .chunked
  | .empty => ⟨.ok (some .eof), .empty, bytes⟩

inductive Stop where
  | more
  | eof
  | fault (fault : RequestFault)
  deriving DecidableEq, Repr

structure Drained where
  chunks : List Bytes
  stop : Stop
  decoder : PayloadDecoder
  rest : Bytes

def drainWithin : Nat → PayloadDecoder → Bytes → Drained
  | 0, decoder, bytes => ⟨[], .more, decoder, bytes⟩
  | fuel + 1, decoder, bytes =>
    let decoded := decoder.decode bytes
    match decoded.outcome with
    | .error fault => ⟨[], .fault fault, decoded.next, decoded.rest⟩
    | .ok none => ⟨[], .more, decoded.next, decoded.rest⟩
    | .ok (some .eof) => ⟨[], .eof, decoded.next, decoded.rest⟩
    | .ok (some (.chunk data)) =>
      let drained := drainWithin fuel decoded.next decoded.rest
      { drained with chunks := data :: drained.chunks }

/-- Decodes all pieces a buffer holds, up to the end of the body. -/
def drain (decoder : PayloadDecoder) (bytes : Bytes) : Drained :=
  drainWithin (bytes.length + 1) decoder bytes

end PayloadDecoder

end Turnpike
