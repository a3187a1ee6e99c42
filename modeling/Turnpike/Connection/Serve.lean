import Turnpike.Body.Activity
import Turnpike.Connection.Feed
import Turnpike.Connection.Outbox

/-!
The request loop of a connection: read a head, answer what it expects, run the handler while its
body arrives, skip what the handler leaves of the body, write the response, and go on as long as the
connection is to be kept.
-/

namespace Turnpike

structure ConnectionConfig where
  readBufferSize : Nat
  keepAlive : Bool
  deriving DecidableEq, Repr

def ConnectionConfig.standard : ConnectionConfig := ⟨8192, true⟩

/-- What a handler comes to: a note of its own, and a response or the text of its failure. -/
structure Handled (β : Type) where
  note : β
  reply : Except String Response

/-- A handler knows how many requests the connection has handed out before. -/
abbrev Handler (β : Type) := Nat → RequestHead → Activity (Handled β)

inductive Next where
  | keepAlive
  | close
  deriving DecidableEq, Repr

/-- A request that was handed to the handler; the note is missing if the handler never ended. -/
structure Dispatched (β : Type) where
  head : RequestHead
  size : PayloadSize
  note : Option β

inductive Outcome where
  | closed
  | failed (fault : HttpFault)
  /-- The peer is silent, and the connection waits for it. -/
  | waiting
  deriving DecidableEq, Repr

structure ConnectionRun (β : Type) where
  dispatched : List (Dispatched β)
  outcome : Outcome
  outbox : Outbox
  feed : Feed

namespace ConnectionRun

def written (run : ConnectionRun β) : Bytes := run.outbox.sink.written

end ConnectionRun

namespace Fields

/-- Tells the peer what becomes of the connection, as far as its version does not. -/
def marked (fields : Fields) (next : Next) (version : Version) : Fields :=
  match next, version with
  | .close, _ => fields.insert FieldName.connection closeToken
  | .keepAlive, .http10 => fields.insert FieldName.connection keepAliveToken
  | .keepAlive, _ => fields

end Fields

namespace Response

def marked (response : Response) (next : Next) (version : Version) : Response :=
  { response with
    head := { response.head with fields := response.head.fields.marked next version } }

def unknownExpectation (value : Bytes) : Response :=
  .ofText .expectationFailed ("Unknown Expect: " ++ Utf8.readLossy value)

/-- The response of a handler, with what it passes on of its request; a failed handler is answered
for. -/
def ofReply (reply : Except String Response) (left : ResponseBody) : Response :=
  match reply with
  | .error _ => .ofStatus .internalError .empty
  | .ok response => response.forwarding left

end Response

inductive Processed (β : Type) where
  | answered (next : Next) (dispatched : List (Dispatched β)) (feed : Feed) (outbox : Outbox)
  | failed (fault : HttpFault) (dispatched : List (Dispatched β)) (feed : Feed) (outbox : Outbox)
  | waiting (dispatched : List (Dispatched β)) (feed : Feed) (outbox : Outbox)

namespace Connection

/-- What the handler's end of the body is worth once the handler has returned. -/
def unreadBody (channel : BodyChannel Feed) : ResponseBody :=
  if channel.receiver.isNone then .empty else .ofAnswers channel.dropSender.left

def answered (next : Next) (dispatched : List (Dispatched β)) (feed : Feed) : Sent → Processed β
  | (.ok (), outbox) => .answered next dispatched feed outbox
  | (.error fault, outbox) => .failed (.response fault) dispatched feed outbox

def refuse (head : RequestHead) (value : Bytes) (feed : Feed) (outbox : Outbox) : Processed β :=
  let response := (Response.unknownExpectation value).marked .close head.version
  answered .close [] feed (outbox.sendResponse response head.method.isHead)

/-- Writes the response of a handler once its request body is received or given up. -/
def conclude (keepAlive : Bool) (head : RequestHead) (size : PayloadSize) (handled : Handled β)
    (received : Except RequestFault Unit) (left : ResponseBody) (feed : Feed) (outbox : Outbox) :
    Processed β :=
  let dispatched := [⟨head, size, some handled.note⟩]
  let next : Next := match received with
    | .ok () => if keepAlive then .keepAlive else .close
    | .error _ => .close
  let respond :=
    let response := (Response.ofReply handled.reply left).marked next head.version
    answered next dispatched feed (outbox.sendResponse response head.method.isHead)
  match received with
  | .ok () => respond
  | .error fault =>
    if fault.isDisconnect then .failed (.request fault) dispatched feed outbox else respond

def dispatch (keepAlive : Bool) (head : RequestHead) (size : PayloadSize)
    (activity : Activity (Handled β)) (feed : Feed) (outbox : Outbox) : Processed β :=
  match activity.run (.start (BodyChannel.start size feed)) with
  | (none, _) => .waiting [⟨head, size, none⟩] feed outbox
  | (some handled, reader) =>
    match reader.body.finish with
    | none => .waiting [⟨head, size, some handled.note⟩] reader.body.source outbox
    | some (received, channel) =>
      conclude keepAlive head size handled received (unreadBody channel) channel.source outbox

def process (config : ConnectionConfig) (handler : RequestHead → Activity (Handled β))
    (head : RequestHead) (size : PayloadSize) (feed : Feed) (outbox : Outbox) : Processed β :=
  let keepAlive := config.keepAlive && head.keepAlive
  match head.expectation with
  | .unsupported value => refuse head value feed outbox
  | .nothing => dispatch keepAlive head size (handler head) feed outbox
  | .continuation =>
    if size.isEmpty then dispatch keepAlive head size (handler head) feed outbox
    else
      match outbox.sendContinue with
      | (.error fault, outbox) => .failed (.response fault) [] feed outbox
      | (.ok (), outbox) => dispatch keepAlive head size (handler head) feed outbox

def statusOf : RequestFault → Status
  | .headTooLarge _ _ | .tooManyFields _ => .fieldsTooLarge
  | _ => .badRequest

def reject (status : Status) (fault : RequestFault) (feed : Feed) (outbox : Outbox) :
    ConnectionRun β :=
  let response := (Response.ofStatus status .empty).marked .close .http11
  match outbox.sendResponse response false with
  | (.error sendFault, outbox) => ⟨[], .failed (.response sendFault), outbox, feed⟩
  | (.ok (), outbox) => ⟨[], .failed (.request fault), outbox.shutdown, feed⟩

def bodyWithoutHead : RequestFault := .invalidBody "body data without a request header"

def loop (config : ConnectionConfig) (handler : Handler β) :
    Nat → Nat → Feed → Outbox → ConnectionRun β
  | 0, _, feed, outbox => ⟨[], .waiting, outbox, feed⟩
  | fuel + 1, count, feed, outbox =>
    match feed.next with
    | (.ended, feed) => ⟨[], .closed, outbox, feed⟩
    | (.silence, feed) => ⟨[], .waiting, outbox, feed⟩
    | (.message (.item _), feed) => reject .badRequest bodyWithoutHead feed outbox
    | (.fault fault, feed) =>
      if fault.isDisconnect then ⟨[], .failed (.request fault), outbox, feed⟩
      else reject (statusOf fault) fault feed outbox
    | (.message (.head head size), feed) =>
      match process config (handler count) head size feed outbox with
      | .failed fault dispatched feed outbox => ⟨dispatched, .failed fault, outbox, feed⟩
      | .waiting dispatched feed outbox => ⟨dispatched, .waiting, outbox, feed⟩
      | .answered .close dispatched feed outbox => ⟨dispatched, .closed, outbox.shutdown, feed⟩
      | .answered .keepAlive dispatched feed outbox =>
        let run := loop config handler fuel (count + dispatched.length) feed outbox
        { run with dispatched := dispatched ++ run.dispatched }

/-- Serves a connection until it ends.  Each request takes at least one octet. -/
def serve (config : ConnectionConfig) (handler : Handler β) (segments : List Bytes)
    (ending : Ending) (failure : Option WriteFailure) : ConnectionRun β :=
  let feed := Feed.start config.readBufferSize segments ending
  loop config handler (feed.unread.length + 1) 0 feed (.start failure)

end Connection

end Turnpike
