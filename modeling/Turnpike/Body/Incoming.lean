import Turnpike.Body.Channel

/-!
A request body as its handler sees it, on its way through a channel or in memory, and a reader that
stops asking once it has come to the end or to a fault.
-/

namespace Turnpike

class Incoming (ι : Type) where
  poll : ι → Polled × ι
  serve : ι → ι
  /-- Lets the other end come no further than so many steps. -/
  advance : Nat → ι → ι
  release : ι → ι
  isEnded : ι → Bool
  hint : ι → SizeHint
  /-- No more than this many pieces come before the end or a fault. -/
  bound : ι → Nat

instance [PayloadSource σ] : Incoming (BodyChannel σ) where
  poll := BodyChannel.poll
  serve := BodyChannel.serve
  advance := BodyChannel.serveWithin
  release := BodyChannel.dropReceiver
  isEnded channel := channel.receiver.all fun receiver => receiver.finished || receiver.size.isEmpty
  hint channel := (channel.receiver.map (·.size.hint)).getD (.ofExact 0)
  bound channel := PayloadSource.bound channel.source + channel.items.length

/-- A body in memory; no data is no body. -/
structure StoredBody where
  data : Option Bytes
  deriving DecidableEq, Repr

namespace StoredBody

def ofBytes (data : Bytes) : StoredBody := ⟨if data.isEmpty then none else some data⟩

instance : Incoming StoredBody where
  poll body := (.ready (body.data.map .ok), ⟨none⟩)
  serve body := body
  advance _ body := body
  release _ := ⟨none⟩
  isEnded body := body.data.isNone
  hint body := .ofExact ((body.data.map List.length).getD 0)
  bound _ := 1

end StoredBody

/-- What can be told of a body without reading it. -/
structure BodyView where
  ended : Bool
  finished : Bool
  hint : SizeHint
  deriving DecidableEq, Repr

structure BodyReader (ι : Type) where
  body : ι
  /-- The end or a fault was handed out. -/
  finished : Bool

namespace BodyReader

variable {ι : Type}

def start (body : ι) : BodyReader ι := ⟨body, false⟩

variable [Incoming ι]

def view (reader : BodyReader ι) : BodyView :=
  ⟨Incoming.isEnded reader.body, reader.finished, Incoming.hint reader.body⟩

/-- Asks for a piece, once; after the end or a fault there is nothing more. -/
def poll (reader : BodyReader ι) : Polled × BodyReader ι :=
  if reader.finished then (.ready none, reader)
  else match Incoming.poll reader.body with
    | (.pending, body) => (.pending, ⟨body, false⟩)
    | (.ready (some (.ok data)), body) => (.ready (some (.ok data)), ⟨body, false⟩)
    | (.ready answer, body) => (.ready answer, ⟨body, true⟩)

/-- Asks once for a piece with data; after a piece without any, the next one has yet to come. -/
def pollData (reader : BodyReader ι) : Polled × BodyReader ι :=
  match reader.poll with
  | (.ready (some (.ok [])), next) => next.poll
  | polled => polled

def serve (reader : BodyReader ι) : BodyReader ι := { reader with body := Incoming.serve reader.body }

def advance (steps : Nat) (reader : BodyReader ι) : BodyReader ι :=
  { reader with body := Incoming.advance steps reader.body }

def release (reader : BodyReader ι) : BodyReader ι :=
  { reader with body := Incoming.release reader.body }

/-- Waits for a piece, letting the other end run; `none` when none can arrive any more. -/
def frame (reader : BodyReader ι) : Option (Answer × BodyReader ι) :=
  match reader.poll with
  | (.ready answer, next) => some (answer, next)
  | (.pending, next) =>
    match next.serve.poll with
    | (.ready answer, last) => some (answer, last)
    | (.pending, _) => none

def readWithin : Nat → BodyReader ι → Option (Answer × BodyReader ι)
  | 0, reader => reader.frame
  | fuel + 1, reader =>
    match reader.frame with
    | some (some (.ok []), next) => readWithin fuel next
    | other => other

def read (reader : BodyReader ι) : Option (Answer × BodyReader ι) :=
  readWithin (Incoming.bound reader.body) reader

inductive Stop where
  | ended
  | fault (fault : RequestFault)
  /-- A piece would have gone beyond the limit. -/
  | tooLong
  deriving DecidableEq, Repr

/-- `room` is what the limit still allows. -/
def gatherWithin : Nat → Option Nat → List Bytes → BodyReader ι →
    Option (List Bytes × Stop × BodyReader ι)
  | 0, _, _, _ => none
  | fuel + 1, room, seen, reader =>
    match reader.frame with
    | none => none
    | some (none, next) => some (seen, .ended, next)
    | some (some (.error fault), next) => some (seen, .fault fault, next)
    | some (some (.ok data), next) =>
      if room.any (· < data.length) then some (seen, .tooLong, next)
      else gatherWithin fuel (room.map (· - data.length)) (data :: seen) next

def gather (limit : Option Nat) (reader : BodyReader ι) : Option (Bytes × Stop × BodyReader ι) :=
  (gatherWithin (Incoming.bound reader.body + 2) limit [] reader).map fun (seen, stop, next) =>
    (seen.reverse.flatten, stop, next)

end BodyReader

end Turnpike
