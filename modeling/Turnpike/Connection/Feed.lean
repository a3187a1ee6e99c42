import Turnpike.Body.Channel
import Turnpike.Wire.RequestReader

/-!
The reading half of a connection: what the peer has sent, read by read, decoded into messages as
they become complete.
-/

namespace Turnpike

inductive Ending where
  | eof
  | fault (fault : IoFault)
  /-- The peer keeps the connection open and sends nothing. -/
  | silence
  deriving DecidableEq, Repr

/-- `capacity` is the size of the buffer, whose first `consumed` octets are decoded already. -/
structure Feed where
  reader : RequestReader
  buffer : Bytes
  consumed : Nat
  capacity : Nat
  /-- What each of the coming reads can return; none is empty. -/
  segments : List Bytes
  ending : Ending
  deriving Repr

inductive Arrival where
  | message (message : Message RequestHead)
  | fault (fault : RequestFault)
  | ended
  | silence

namespace Feed

def start (capacity : Nat) (segments : List Bytes) (ending : Ending) : Feed :=
  ⟨.start, [], 0, capacity, segments.filter (!·.isEmpty), ending⟩

def unread (feed : Feed) : Bytes := feed.buffer ++ feed.segments.flatten

def minCapacity : Nat := 8

def room (feed : Feed) : Nat := feed.capacity - feed.consumed - feed.buffer.length

/-- A full buffer is moved to the front if that is cheap, and doubled otherwise. -/
def makeRoom (feed : Feed) : Feed :=
  if feed.room > 0 then feed
  else if feed.buffer.length < feed.capacity ∧ feed.buffer.length ≤ feed.consumed then
    { feed with consumed := 0 }
  else
    { feed with
      capacity := max minCapacity (max (2 * feed.capacity) (feed.consumed + feed.buffer.length + 1)) }

/-- One read, of no more octets than there is room for. -/
def fill? (feed : Feed) : Option Feed :=
  let feed := feed.makeRoom
  match feed.segments with
  | [] => none
  | segment :: segments =>
    let rest := segment.drop feed.room
    some { feed with
      buffer := feed.buffer ++ segment.take feed.room
      segments := if rest.isEmpty then segments else rest :: segments }

@[simp] theorem buffer_makeRoom (feed : Feed) : feed.makeRoom.buffer = feed.buffer := by
  unfold makeRoom
  split
  · rfl
  · split <;> rfl

@[simp] theorem segments_makeRoom (feed : Feed) : feed.makeRoom.segments = feed.segments := by
  unfold makeRoom
  split
  · rfl
  · split <;> rfl

theorem unread_fill? {feed filled : Feed} (h : feed.fill? = some filled) :
    filled.unread = feed.unread := by
  unfold fill? at h
  simp only [segments_makeRoom] at h
  split at h
  · contradiction
  · next segment segments hsegments =>
    obtain rfl := Option.some.inj h
    simp only [unread, buffer_makeRoom, hsegments, List.flatten_cons]
    split
    · next hrest =>
      have htaken : segment.take feed.makeRoom.room = segment := by
        rw [List.isEmpty_iff, List.drop_eq_nil_iff] at hrest
        exact List.take_of_length_le hrest
      rw [htaken, List.append_assoc]
    · rw [List.flatten_cons, List.append_assoc, ← List.append_assoc (segment.take _),
        List.take_append_drop]

def bytesRemaining : RequestFault := .io ⟨.other, some "bytes remaining on stream"⟩

/-- What follows when decoding asks for more and nothing more comes. -/
def arrivalAtEnd (feed : Feed) : Arrival :=
  match feed.ending with
  | .eof => if feed.buffer.isEmpty then .ended else .fault bytesRemaining
  | .fault fault => .fault (.io fault)
  | .silence => .silence

def decode (feed : Feed) : Except RequestFault (Option (Message RequestHead)) × Feed :=
  let decoded := feed.reader.decode feed.buffer
  (decoded.outcome,
    { feed with
      reader := decoded.next
      buffer := decoded.rest
      consumed := feed.consumed + (feed.buffer.length - decoded.rest.length) })

def nextWithin : Nat → Feed → Arrival × Feed
  | 0, feed => (.silence, feed)
  | fuel + 1, feed =>
    match feed.decode with
    | (.ok (some message), next) => (.message message, next)
    | (.error fault, next) => (.fault fault, next)
    | (.ok none, next) =>
      match next.fill? with
      | some filled => nextWithin fuel filled
      | none => (next.arrivalAtEnd, next)

def next (feed : Feed) : Arrival × Feed :=
  nextWithin (feed.segments.flatten.length + 1) feed

/-! The feed as the source of the pieces of a body. -/

def headInsideBody : RequestFault := .invalidBody "received a request header while reading the body"

def pullItem (feed : Feed) : Option (Delivery × Feed) :=
  match feed.next with
  | (.message (.item item), next) => some (.ok item, next)
  | (.message (.head _ _), next) => some (.error headInsideBody, next)
  | (.fault fault, next) => some (.error fault, next)
  | (.ended, next) => some (.error .incompleteBody, next)
  | (.silence, _) => none

instance : PayloadSource Feed := ⟨pullItem, fun feed => feed.unread.length + 1⟩

end Feed

end Turnpike
