import Turnpike.Payload.Item
import Turnpike.Payload.Size

/-!
The channel a request body goes through.  The handler's end, the receiver, asks for one piece at a
time; the connection's end, the sender, pulls one piece for each demand and puts it into the
channel.  Either end may be gone at any moment.
-/

namespace Turnpike

/-- A piece of a body, or why there is none. -/
abbrev Delivery := Except RequestFault PayloadItem

class PayloadSource (σ : Type) where
  /-- `none` as long as nothing has arrived. -/
  pull : σ → Option (Delivery × σ)
  /-- No more than this many pieces come before the end or a fault. -/
  bound : σ → Nat

export PayloadSource (pull)

/-- What a reader is handed: data, a fault, or the end. -/
abbrev Answer := Option (Except RequestFault Bytes)

inductive Polled where
  | pending
  | ready (answer : Answer)

def Polled.answer? : Polled → Option Answer
  | .pending => none
  | .ready answer => some answer

structure Receiver where
  size : PayloadSize
  /-- A demand was sent and not answered yet. -/
  inFlight : Bool
  finished : Bool
  deriving DecidableEq, Repr

inductive SenderPhase where
  /-- for a demand -/
  | waiting
  /-- a demand is taken, its piece not yet pulled -/
  | pulling
  | offering (delivery : Delivery)
  | stopped

structure BodySender where
  phase : SenderPhase
  eof : Bool
  broken : Bool

structure BodyChannel (σ : Type) where
  receiver : Option Receiver
  demands : Nat
  items : List Delivery
  sender : Option BodySender
  source : σ

namespace BodyChannel

/-- How many entries either direction of the channel can hold. -/
def slots : Nat := 2

def start (size : PayloadSize) (source : σ) : BodyChannel σ :=
  ⟨some ⟨size, false, false⟩, 0, [], some ⟨.waiting, false, false⟩, source⟩

/-! The receiver. -/

def withReceiver (channel : BodyChannel σ) (receiver : Receiver) : BodyChannel σ :=
  { channel with receiver := some receiver }

/-- Takes the next item out of the channel, if there is one or none can come any more. -/
def receive (channel : BodyChannel σ) (receiver : Receiver) : Polled × BodyChannel σ :=
  let closed : Receiver := { receiver with inFlight := false, finished := true }
  match channel.items with
  | .ok (.chunk data) :: items =>
    (.ready (some (.ok data)),
      { channel with items, receiver := some { receiver with inFlight := false } })
  | .ok .eof :: items => (.ready none, { channel with items, receiver := some closed })
  | .error fault :: items =>
    (.ready (some (.error fault)), { channel with items, receiver := some closed })
  | [] =>
    match channel.sender with
    | some _ => (.pending, channel.withReceiver receiver)
    | none => (.ready (some (.error .incompleteBody)), channel.withReceiver closed)

/-- Asks for the next piece, once.  A receiver that has finished never asks again. -/
def poll (channel : BodyChannel σ) : Polled × BodyChannel σ :=
  match channel.receiver with
  | none => (.ready none, channel)
  | some receiver =>
    if receiver.finished || receiver.size.isEmpty then
      (.ready none, channel.withReceiver { receiver with finished := true })
    else if receiver.inFlight then channel.receive receiver
    else if channel.sender.isNone then
      (.ready (some (.error .incompleteBody)), channel.withReceiver { receiver with finished := true })
    else if channel.demands < slots then
      { channel with demands := channel.demands + 1 }.receive { receiver with inFlight := true }
    else (.pending, channel)

/-- All that polling still yields when nobody sends. -/
def leftWithin : Nat → BodyChannel σ → List (Except RequestFault Bytes)
  | 0, _ => []
  | fuel + 1, channel =>
    match channel.poll with
    | (.ready (some answer), next) => answer :: leftWithin fuel next
    | _ => []

def left (channel : BodyChannel σ) : List (Except RequestFault Bytes) :=
  leftWithin (channel.items.length + 2) channel

def dropReceiver (channel : BodyChannel σ) : BodyChannel σ := { channel with receiver := none }

/-! The sender. -/

def withPhase (channel : BodyChannel σ) (sender : BodySender) (phase : SenderPhase) : BodyChannel σ :=
  { channel with sender := some { sender with phase } }

/-- What the receiver is told of a fault. -/
def forwarded (fault : RequestFault) : RequestFault :=
  if fault.isDisconnect then .incompleteBody else .invalidBody fault.message

def BodySender.pulled (sender : BodySender) : Delivery → BodySender
  | .ok item => { sender with phase := .offering (.ok item), eof := item.isEof }
  | .error fault => { sender with phase := .offering (.error (forwarded fault)), broken := true }

/-- One step of the sender, or none while it has to wait. -/
def step? [PayloadSource σ] (channel : BodyChannel σ) : Option (BodyChannel σ) :=
  match channel.sender with
  | none => none
  | some sender =>
    match sender.phase with
    | .waiting =>
      if channel.demands > 0 then
        some ({ channel with demands := channel.demands - 1 }.withPhase sender .pulling)
      else if channel.receiver.isNone then some (channel.withPhase sender .stopped)
      else none
    | .pulling =>
      match pull channel.source with
      | none => none
      | some (delivery, rest) =>
        some { channel with sender := some (BodySender.pulled sender delivery), source := rest }
    | .offering delivery =>
      if channel.receiver.isNone then some (channel.withPhase sender .stopped)
      else if channel.items.length < slots then
        some ({ channel with items := channel.items ++ [delivery] }.withPhase sender
          (if sender.eof || sender.broken then .stopped else .waiting))
      else none
    | .stopped => none

def serveWithin [PayloadSource σ] : Nat → BodyChannel σ → BodyChannel σ
  | 0, channel => channel
  | fuel + 1, channel =>
    match channel.step? with
    | none => channel
    | some next => serveWithin fuel next

/-- Lets the sender run until it has to wait: three steps for each demand, and one to stop. -/
def serve [PayloadSource σ] (channel : BodyChannel σ) : BodyChannel σ :=
  serveWithin (3 * channel.demands + 4) channel

def interrupt (channel : BodyChannel σ) : BodyChannel σ :=
  { channel with sender := channel.sender.map fun sender => { sender with phase := .stopped } }

def dropSender (channel : BodyChannel σ) : BodyChannel σ := { channel with sender := none }

/-! Skipping what nobody reads. -/

/-- Pulls up to the end of the body; `none` when what is there does not reach it. -/
def skipWithin [PayloadSource σ] : Nat → σ → Option (Except RequestFault Unit × σ)
  | 0, _ => none
  | fuel + 1, state =>
    match pull state with
    | none => none
    | some (.error fault, rest) => some (.error fault, rest)
    | some (.ok .eof, rest) => some (.ok (), rest)
    | some (.ok (.chunk _), rest) => skipWithin fuel rest

def streamBroken : RequestFault := .invalidBody "request body stream is broken"

/-- Brings the source to the end of the body, whatever the receiver has left unread. -/
def finish [PayloadSource σ] (channel : BodyChannel σ) :
    Option (Except RequestFault Unit × BodyChannel σ) :=
  match channel.sender with
  | none => some (.ok (), channel)
  | some sender =>
    if sender.broken then some (.error streamBroken, channel)
    else if sender.eof then some (.ok (), channel)
    else
      match skipWithin (PayloadSource.bound channel.source + 1) channel.source with
      | none => none
      | some (outcome, rest) => some (outcome, { channel with source := rest })

end BodyChannel

end Turnpike
