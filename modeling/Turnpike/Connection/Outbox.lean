import Turnpike.Body.Outgoing
import Turnpike.Wire.ResponseWriter

/-!
The writing half of a connection.  Encoded messages gather in a buffer, which goes out when a
message is to follow a full buffer and when a response is complete.
-/

namespace Turnpike

/-- How a writer fails: it accepts so many octets and refuses the rest. -/
structure WriteFailure where
  after : Nat
  fault : IoFault
  deriving DecidableEq, Repr

/-- The peer's end: what it has accepted. -/
structure Sink where
  written : Bytes
  failure : Option WriteFailure
  isShutdown : Bool
  deriving Repr

namespace Sink

def start (failure : Option WriteFailure) : Sink := ⟨[], failure, false⟩

def accept (sink : Sink) (bytes : Bytes) : Sink := { sink with written := sink.written ++ bytes }

def write (sink : Sink) (bytes : Bytes) : Except IoFault Unit × Sink :=
  match sink.failure with
  | none => (.ok (), sink.accept bytes)
  | some failure =>
    let room := failure.after - sink.written.length
    if bytes.length ≤ room then (.ok (), sink.accept bytes)
    else (.error failure.fault, sink.accept (bytes.take room))

def shutdown (sink : Sink) : Sink := { sink with isShutdown := true }

@[simp] theorem written_accept (sink : Sink) (bytes : Bytes) :
    (sink.accept bytes).written = sink.written ++ bytes := rfl

@[simp] theorem written_shutdown (sink : Sink) : sink.shutdown.written = sink.written := rfl

theorem write_of_no_failure {sink : Sink} (h : sink.failure = none) (bytes : Bytes) :
    sink.write bytes = (.ok (), sink.accept bytes) := by
  simp [write, h]

theorem written_write (sink : Sink) (bytes : Bytes) :
    ∃ taken, taken <+: bytes ∧ (sink.write bytes).2.written = sink.written ++ taken := by
  unfold write
  split
  · exact ⟨bytes, List.prefix_rfl, rfl⟩
  · next failure _ =>
    simp only
    split
    · exact ⟨bytes, List.prefix_rfl, rfl⟩
    · exact ⟨_, List.take_prefix _ bytes, rfl⟩

@[simp] theorem failure_write (sink : Sink) (bytes : Bytes) :
    (sink.write bytes).2.failure = sink.failure := by
  unfold write
  split
  · rfl
  · simp only
    split <;> rfl

end Sink

structure Outbox where
  writer : ResponseWriter
  buffer : Bytes
  sink : Sink
  deriving Repr

abbrev Sent := Except ResponseFault Unit × Outbox

def Sent.andThen (sent : Sent) (next : Outbox → Sent) : Sent :=
  match sent with
  | (.ok (), outbox) => next outbox
  | (.error fault, outbox) => (.error fault, outbox)

namespace Outbox

def start (failure : Option WriteFailure) : Outbox := ⟨.start, [], .start failure⟩

/-- From this size on the buffer goes out before the next message. -/
def fullSize : Nat := 8192

/-- Writes past the buffer, which has to be empty. -/
def writeNow (outbox : Outbox) (bytes : Bytes) : Sent :=
  match outbox.sink.write bytes with
  | (.ok (), sink) => (.ok (), { outbox with sink })
  | (.error fault, sink) => (.error (.io fault), { outbox with sink })

def flush (outbox : Outbox) : Sent :=
  if outbox.buffer.isEmpty then (.ok (), outbox)
  else (outbox.writeNow outbox.buffer).andThen fun outbox => (.ok (), { outbox with buffer := [] })

def flushIfFull (outbox : Outbox) : Sent :=
  if outbox.buffer.length ≥ fullSize then outbox.flush else (.ok (), outbox)

def put (outbox : Outbox) (message : Message ResponseHead) : Sent :=
  match outbox.writer.encode message with
  | (.ok bytes, writer) => (.ok (), { outbox with writer, buffer := outbox.buffer ++ bytes })
  | (.error flaw, writer) => (.error flaw.fault, { outbox with writer })

def feed (outbox : Outbox) (message : Message ResponseHead) : Sent :=
  outbox.flushIfFull.andThen fun outbox => outbox.put message

def send (outbox : Outbox) (message : Message ResponseHead) : Sent :=
  (outbox.feed message).andThen flush

def bodyFailed (fault : HttpFault) : ResponseFault :=
  .invalidBody ("failed to produce response body: " ++ fault.message)

/-- Trailers are not written. -/
def feedFrames (outbox : Outbox) : List (Except HttpFault Frame) → Sent
  | [] => (.ok (), outbox)
  | .error fault :: _ => (.error (bodyFailed fault), outbox)
  | .ok (.trailers _) :: frames => outbox.feedFrames frames
  | .ok (.data data) :: frames =>
    match outbox.feed (.item (.chunk data)) with
    | (.ok (), next) => next.feedFrames frames
    | failed => failed

def discardBody (outbox : Outbox) : Outbox := { outbox with writer := outbox.writer.discardBody }

/-- Writes a head and a body of which the hint is known beforehand; the answer to `HEAD` keeps its
head only. -/
def sendParts (outbox : Outbox) (head : ResponseHead) (hint : SizeHint)
    (frames : List (Except HttpFault Frame)) (isHead : Bool) : Sent :=
  let size := PayloadSize.ofHint hint
  let message : Message ResponseHead := .head head size
  if isHead || size.isEmpty then
    (outbox.send message).andThen fun outbox => (.ok (), outbox.discardBody)
  else
    (outbox.feed message).andThen fun outbox =>
    (outbox.feedFrames frames).andThen fun outbox =>
    outbox.send (.item .eof)

def sendResponse (outbox : Outbox) (response : Response) (isHead : Bool) : Sent :=
  outbox.sendParts response.head response.body.hint response.body.frames isHead

def continueLine : Bytes := Bytes.ofText "HTTP/1.1 100 Continue\r\n\r\n"

def sendContinue (outbox : Outbox) : Sent := outbox.writeNow continueLine

def shutdown (outbox : Outbox) : Outbox := { outbox with sink := outbox.sink.shutdown }

end Outbox

end Turnpike
