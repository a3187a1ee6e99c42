import Turnpike.Proofs.Connection.Gathering
import Turnpike.Proofs.Connection.Silence
import Turnpike.Web.Server

/-!
Requests whose body is buffered.  Their handler is given all of the body, or is not run at all.
-/

namespace Turnpike

open BodyChannel

namespace PayloadDecoder

end PayloadDecoder

namespace Server

variable {size : PayloadSize} {feed : Feed}

/-- What reading a body comes to. -/
def Reads (size : PayloadSize) (feed : Feed) (limit : Nat) : Option (Except WebFault Bytes) → Prop
  | some (.ok data) =>
    let body := (PayloadDecoder.ofSize size).drain feed.unread
    body.stop = .eof ∧ data = body.chunks.flatten ∧ data.length ≤ limit
  | some (.error fault) =>
    let body := (PayloadDecoder.ofSize size).drain feed.unread
    body.stop = .eof → fault = .payloadTooLarge limit ∧ limit < body.chunks.flatten.length
  | none => ((PayloadDecoder.ofSize size).drain feed.unread).stop ≠ .eof ∧ feed.ending = .silence

/-- The handler of a request is not run, whatever it is. -/
def Spares (limit : Nat) (head : RequestHead) (dispatch : Dispatch) (size : PayloadSize) (feed : Feed)
    (ran : Option (Except String Response) × BodyReader (BodyChannel Feed)) : Prop :=
  ∀ handler : WebHandler,
    (invoke limit head { dispatch with handler }).run (.start (BodyChannel.start size feed)) = ran

end Server

end Turnpike
