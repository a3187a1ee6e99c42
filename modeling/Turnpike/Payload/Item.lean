import Turnpike.Message.Fault

namespace Turnpike

/-- A piece of a message body; the end of the body is a piece of its own. -/
inductive PayloadItem where
  | chunk (data : Bytes)
  | eof
  deriving DecidableEq, Repr

namespace PayloadItem

def data : PayloadItem → Bytes
  | .chunk data => data
  | .eof => []

def isEof (item : PayloadItem) : Bool := item == .eof

end PayloadItem

/-- One attempt to decode: what came of it, the decoder afterwards and the octets left over.
`ok none` asks for more octets. -/
structure Decoded (σ α : Type) where
  outcome : Except RequestFault (Option α)
  next : σ
  rest : Bytes

namespace Decoded

def mapState (f : σ → τ) (decoded : Decoded σ α) : Decoded τ α :=
  ⟨decoded.outcome, f decoded.next, decoded.rest⟩

end Decoded

end Turnpike
