import Turnpike.Proofs.Connection.Blocks
import Turnpike.Proofs.Routing.Order
import Turnpike.Proofs.Web.Handing
import Turnpike.Proofs.Wire.HeaderSection

/-!
A path that answers `HEAD` by its handler for `GET`.  Side by side, the two requests are answered by
one response, of which the first is sent the header section only; both leave the writer as it is
between two responses.
-/

namespace Turnpike

/-! What a handler comes to. -/

namespace Request

def withMethod (request : Request) (method : Method) : Request :=
  { request with head := { request.head with method } }

end Request

/-- The response of an activity from where its reader stands, with what it passes on of the body; none
while it waits. -/
def Activity.response? (activity : Activity (Except String Response))
    (reader : BodyReader (BodyChannel Feed)) : Option Response :=
  match activity.run reader with
  | (none, _) => none
  | (some reply, after) =>
    after.body.finish.map fun finished => .ofReply reply (Connection.unreadBody finished.2)

theorem Activity.response?_bind (activity : Activity α)
    (f : α → Activity (Except String Response)) (reader : BodyReader (BodyChannel Feed)) :
    (activity.bind f).response? reader =
      match activity.run reader with
      | (none, _) => none
      | (some result, after) => (f result).response? after := by
  unfold response?
  rw [run_bind]
  rcases activity.run reader with ⟨_ | result, after⟩ <;> rfl

namespace WebHandler

/-- A handler that comes to the same response by whatever method it is asked. -/
def IgnoresMethod (handler : WebHandler) : Prop :=
  ∀ request method reader,
    (handler (request.withMethod method)).response? reader = (handler request).response? reader

/-- A handler whose responses have fields such as a map of fields can hold. -/
def KeepsFields (handler : WebHandler) : Prop :=
  ∀ request reader response, (handler request).response? reader = some response →
    response.head.fields.Encodable

end WebHandler

/-! Fields. -/

namespace Fields

theorem isName_connection : IsName FieldName.connection :=
  ⟨by decide, List.all_eq_true.mp (by decide), by decide⟩

theorem isName_contentType : IsName FieldName.contentType :=
  ⟨by decide, List.all_eq_true.mp (by decide), by decide⟩

theorem Encodable.marked {fields : Fields} (h : fields.Encodable) (next : Next)
    (version : Version) : (fields.marked next version).Encodable := by
  unfold Fields.marked
  split
  · exact h.insert isName_connection (List.all_eq_true.mp (by decide))
  · exact h.insert isName_connection (List.all_eq_true.mp (by decide))
  · exact h

end Fields

theorem Response.encodable_ofText (status : Status) (text : String) :
    (Response.ofText status text).head.fields.Encodable :=
  Fields.encodable_empty.insert Fields.isName_contentType
    (List.all_eq_true.mp (by decide))

theorem Response.fields_forwarding (response : Response) (left : ResponseBody) :
    (response.forwarding left).head.fields = response.head.fields := by
  unfold forwarding
  split <;> rfl

/-- The octets without a body are the header section of those with one. -/
theorem Response.headerSection_octets {response : Response}
    (hfields : response.head.fields.Encodable) (hnonempty : response.octets true ≠ []) :
    response.head.encode? (.ofHint response.body.hint) = some (response.octets true) ∧
      headerSection (response.octets false) = response.octets true := by
  unfold octets at hnonempty ⊢
  cases hencoded : response.head.encode? (.ofHint response.body.hint) with
  | none =>
      rw [hencoded] at hnonempty
      exact absurd rfl hnonempty
  | some encoded =>
      simp only [Option.getD_some, if_true, Bool.false_eq_true, if_false, List.append_nil]
      exact ⟨trivial, ResponseHead.headerSection_of_encode? hfields hencoded response.body.framed⟩

/-! The two requests on their way to the handler. -/

namespace Router

theorem dispatch_get_of_fallback {η : Type} {router : Router η} {path : String} {route : Route η}
    (hroute : router.dispatch .head path = .ok route) (hfallback : Method.head ∉ route.item.methods) :
    router.dispatch .get path = .ok route := by
  rw [dispatch_eq_ok_iff] at hroute ⊢
  refine ⟨?_, hroute.2⟩
  cases hroute.1 with
  | own hfirst =>
      obtain ⟨before, after, -, htakes, -⟩ := hfirst
      exact absurd htakes.2 hfallback
  | get _ _ hfirst => exact .own hfirst

end Router

namespace Server

theorem fault_of_readBody {limit : Nat} {reader after : BodyReader (BodyChannel Feed)}
    {fault : WebFault} (h : (readBody limit).run reader = (some (.error fault), after)) :
    fault = .payloadTooLarge limit ∨ ∃ source, fault = .body source := by
  unfold readBody at h
  simp only [Activity.run] at h
  split at h
  · obtain ⟨hfault, -⟩ := Prod.mk.inj h
    exact .inl (Except.error.inj (Option.some.inj hfault)).symm
  · simp only [Activity.run] at h
    rcases hgather : reader.gather (some limit) with _ | ⟨data, _ | source | _, rest⟩
    all_goals rw [hgather] at h
    · simp at h
    · simp at h
    · obtain ⟨hfault, -⟩ := Prod.mk.inj h
      exact .inr ⟨source, (Except.error.inj (Option.some.inj hfault)).symm⟩
    · obtain ⟨hfault, -⟩ := Prod.mk.inj h
      exact .inl (Except.error.inj (Option.some.inj hfault)).symm

theorem encodable_respond {limit : Nat} {fault : WebFault}
    (h : fault = .payloadTooLarge limit ∨ ∃ source, fault = .body source) :
    (respond fault : Response).head.fields.Encodable := by
  rcases h with rfl | ⟨source, rfl⟩
  · exact Response.encodable_ofText _ _
  · exact Response.encodable_ofText _ _

variable {limit : Nat} {handler : WebHandler} {params : PathParams} {isStream : Bool}
  {reader : BodyReader (BodyChannel Feed)}

/-- The body is read alike for every method, and a handler that ignores it goes on alike. -/
theorem response?_invoke_withMethod (hignores : handler.IgnoresMethod) (head : RequestHead)
    (method : Method) :
    (invoke limit { head with method } ⟨handler, params, isStream⟩).response? reader =
      (invoke limit head ⟨handler, params, isStream⟩).response? reader := by
  unfold invoke
  cases isStream with
  | true => exact hignores (.streaming head params) method reader
  | false =>
      simp only [Bool.false_eq_true, if_false, Activity.response?_bind]
      rcases (readBody limit).run reader with ⟨_ | fault | data, after⟩
      · rfl
      · rfl
      · exact hignores (.buffered head params data) method after

theorem encodable_of_invoke (hfields : handler.KeepsFields) {head : RequestHead}
    {response : Response}
    (h : (invoke limit head ⟨handler, params, isStream⟩).response? reader = some response) :
    response.head.fields.Encodable := by
  unfold invoke at h
  cases isStream with
  | true => exact hfields _ reader response h
  | false =>
      simp only [Bool.false_eq_true, if_false, Activity.response?_bind] at h
      rcases hread : (readBody limit).run reader with ⟨_ | fault | data, after⟩
      · rw [hread] at h
        contradiction
      · rw [hread] at h
        obtain ⟨finished, -, rfl⟩ := Option.map_eq_some_iff.mp h
        rw [Response.ofReply, Response.fields_forwarding]
        exact encodable_respond (fault_of_readBody hread)
      · rw [hread] at h
        exact hfields _ after response h

variable {server : Server} {head : RequestHead} {route : Route WebHandler}

theorem call_of_dispatch
    (hroute : server.router.dispatch head.method head.uri.pathText = .ok route) :
    server.call head = invoke server.config.requestMaxSize head
      ⟨route.item.endpoint.handler, route.params, route.item.endpoint.isStream⟩ := by
  simp only [call, Server.dispatch, hroute]

/-- What the server does for a request of a connection. -/
def answer (server : Server) (head : RequestHead) : Activity (Handled Unit) :=
  (server.call head).map fun reply => ⟨(), reply⟩

/-- A request whose route is known is answered as that route is. -/
theorem process_of_dispatch
    (hroute : server.router.dispatch head.method head.uri.pathText = .ok route)
    (size : PayloadSize) (feed : Feed) (outbox : Outbox) :
    Connection.process server.config.connection server.answer head size feed outbox =
      Connection.process server.config.connection (fun head =>
        (invoke server.config.requestMaxSize head
          ⟨route.item.endpoint.handler, route.params, route.item.endpoint.isStream⟩).map fun reply =>
            ⟨(), reply⟩) head size feed outbox := by
  unfold Connection.process answer
  rw [call_of_dispatch hroute]

theorem serve_eq (server : Server) (segments : List Bytes) (ending : Ending)
    (failure : Option WriteFailure) :
    server.serve segments ending failure =
      Connection.serve server.config.connection (fun _ => server.answer) segments ending failure :=
  rfl

end Server

namespace Connection

/-! A turn that is answered. -/

variable {β : Type}

/-- A body is received just in case it is complete. -/
theorem received_iff_of_follow {activity : Activity (Handled β)} {size : PayloadSize} {feed : Feed}
    (hinside : feed.Inside (.ofSize size)) {handled : Handled β}
    {received : Except RequestFault Unit} {left : ResponseBody}
    (h : (follow activity size feed).1 = .handled handled received left) :
    received = .ok () ↔ ((PayloadDecoder.ofSize size).drain feed.unread).stop = .eof := by
  have hskipped := (follow_skipped hinside h).1
  cases received with
  | ok _ => exact iff_of_true rfl hskipped.2.2.1
  | error fault => exact iff_of_false nofun hskipped

namespace Turn

theorem play_eq_answered {turn : Turn β} {outbox after : Outbox} (hidle : outbox.Idle) {next : Next}
    {dispatched : List (Dispatched β)} {feed : Feed}
    (h : turn.play outbox = .answered next dispatched feed after) :
    ∃ response, turn.final? = some response ∧ next = turn.next ∧ after.Idle ∧
      after.sink.written =
        outbox.sink.written ++ turn.interim ++ response.octets turn.head.method.isHead ∧
      response.octets turn.head.method.isHead ≠ [] := by
  rcases turn.play_cases outbox with ⟨fault, last, -, hplay⟩ | ⟨invited, hinvite, hplay⟩
  · rw [hplay] at h
    contradiction
  · obtain ⟨hinvited, -, hinterim⟩ := invite_eq_ok hidle hinvite
    rcases hplay with
      ⟨hfinal, hplay⟩ | ⟨response, hfinal, ⟨fault, last, -, hplay⟩ | ⟨last, hsent, hplay⟩⟩
    · rw [hplay] at h
      obtain ⟨-, ⟨_, _, _, -, -, hunanswered⟩ | ⟨-, hunanswered⟩⟩ := unanswered_cases hfinal
      all_goals
        rw [hunanswered] at h
        contradiction
    · rw [hplay] at h
      contradiction
    · rw [hplay] at h
      obtain ⟨rfl, -, -, rfl⟩ := Processed.answered.inj h
      obtain ⟨hlast, hwritten⟩ := Outbox.sendResponse_written hinvited hsent
      exact ⟨response, hfinal, rfl, hlast, by rw [hwritten, hinterim],
        Outbox.octets_ne_nil_of_sendResponse hinvited.writer hsent⟩

end Turn

end Connection

namespace Server

open Connection

variable {server : Server} {size : PayloadSize} {feed : Feed}

/-- The turn of a request at the server. -/
def turn (server : Server) (head : RequestHead) (size : PayloadSize) (feed : Feed) : Turn Unit :=
  .take server.config.connection server.answer head size feed

theorem response?_of_follow {head : RequestHead} {handled : Handled Unit}
    {received : Except RequestFault Unit} {left : ResponseBody}
    (h : (follow (server.answer head) size feed).1 = .handled handled received left) :
    (server.call head).response? (.start (BodyChannel.start size feed)) =
      some (.ofReply handled.reply left) := by
  obtain ⟨reader, channel, hrun, hfinish, rfl, -⟩ := follow_eq_handled h
  unfold answer Activity.map at hrun
  rw [Activity.run_bind] at hrun
  unfold Activity.response?
  rcases hcall : (server.call head).run (.start (BodyChannel.start size feed)) with
    ⟨_ | reply, after⟩
  · rw [hcall] at hrun
    simp at hrun
  · rw [hcall] at hrun
    obtain ⟨hhandled, rfl⟩ := Prod.mk.inj hrun
    obtain rfl := Option.some.inj hhandled
    simp only [hfinish, Option.map_some]

/-- What a turn is answered with before the connection marks it, and whether the connection is kept. -/
inductive Settles (server : Server) (head : RequestHead) (size : PayloadSize) (feed : Feed)
    (plain : Response) (next : Next) : Prop where
  | refused {value : Bytes} (unmet : head.expectation = .unsupported value)
      (refusal : plain = .unknownExpectation value) (closes : next = .close)
  | handled (met : ∀ value, head.expectation ≠ .unsupported value)
      (response : (server.call head).response? (.start (BodyChannel.start size feed)) = some plain)
      (keeps : next = .keepAlive ↔ (server.config.connection.keepAlive && head.keepAlive) = true ∧
        ((PayloadDecoder.ofSize size).drain feed.unread).stop = .eof)

theorem settles_of_final? (hinside : feed.Inside (.ofSize size)) {head : RequestHead}
    {final : Response} (h : (server.turn head size feed).final? = some final) :
    ∃ plain, final = plain.marked (server.turn head size feed).next head.version ∧
      server.Settles head size feed plain (server.turn head size feed).next := by
  rcases Turn.final?_cases h with
    ⟨value, hcourse, hplain⟩ | ⟨handled, received, left, hcourse, hplain⟩
  all_goals
    refine ⟨_, hplain, ?_⟩
    rcases Turn.take_cases server.config.connection server.answer head size feed with
      ⟨other, hunmet, htaken⟩ | ⟨hmet, htaken, -⟩
    all_goals have hsame := hcourse.symm.trans htaken
  · obtain rfl := Course.refused.inj hsame
    exact .refused hunmet rfl (by simp only [Turn.next, hcourse])
  · exact absurd hsame.symm (follow_ne_refused _ _ _ value)
  · contradiction
  · refine .handled hmet (response?_of_follow hsame.symm) ?_
    rw [← received_iff_of_follow hinside hsame.symm, Turn.next, hcourse]
    cases received with
    | error fault => simp
    | ok received => simp [turn, Turn.take]

theorem Settles.agree {head : RequestHead} {first second : Method} {left right : Response}
    {next other : Next}
    (hsame : (server.call { head with method := first }).response?
        (.start (BodyChannel.start size feed)) =
      (server.call { head with method := second }).response?
        (.start (BodyChannel.start size feed)))
    (hfirst : server.Settles { head with method := first } size feed left next)
    (hsecond : server.Settles { head with method := second } size feed right other) :
    left = right ∧ next = other := by
  cases hfirst with
  | refused unmet refusal closes =>
      cases hsecond with
      | refused unmet' refusal' closes' =>
          obtain rfl := Expectation.unsupported.inj (unmet.symm.trans unmet')
          exact ⟨refusal.trans refusal'.symm, closes.trans closes'.symm⟩
      | handled met => exact absurd unmet (met _)
  | handled met response keeps =>
      cases hsecond with
      | refused unmet => exact absurd unmet (met _)
      | handled _ response' keeps' =>
          refine ⟨Option.some.inj (response.symm.trans (hsame.trans response')), ?_⟩
          have hkept : next = .keepAlive ↔ other = .keepAlive := keeps.trans keeps'.symm
          cases next with
          | keepAlive => exact (hkept.mp rfl).symm
          | close =>
              cases other with
              | keepAlive => exact absurd (hkept.mpr rfl) nofun
              | close => rfl

theorem Settles.encodable {head : RequestHead} {plain : Response} {next : Next}
    (h : server.Settles head size feed plain next)
    (hfields : ∀ response, (server.call head).response? (.start (BodyChannel.start size feed)) =
      some response → response.head.fields.Encodable) : plain.head.fields.Encodable := by
  cases h with
  | refused _ refusal _ =>
      rw [refusal]
      exact Response.encodable_ofText _ _
  | handled _ response _ => exact hfields plain response

/-- What goes out before a body is sent that the client holds back. -/
def interim (head : RequestHead) (size : PayloadSize) : Bytes :=
  if head.expectation = .continuation ∧ size ≠ .empty then Outbox.continueLine else []

theorem interim_turn (server : Server) (head : RequestHead) (size : PayloadSize) (feed : Feed) :
    (server.turn head size feed).interim = interim head size := by
  have hawaited : (server.turn head size feed).isAwaited = true ↔
      head.expectation = .continuation ∧ size ≠ .empty := by
    simp [Turn.isAwaited, turn, Turn.take, ← PayloadSize.isEmpty_iff]
  simp only [Turn.interim, interim, hawaited]

/-- A request that is answered has its response written completely. -/
theorem written_of_answered (hinside : feed.Inside (.ofSize size)) {head : RequestHead}
    {outbox after : Outbox} (hidle : outbox.Idle) {next : Next} {handed : List (Dispatched Unit)}
    {rest : Feed} (h : process server.config.connection server.answer head size feed outbox =
      .answered next handed rest after) :
    ∃ plain, server.Settles head size feed plain next ∧ after.Idle ∧
      after.sink.written = outbox.sink.written ++ interim head size ++
        (plain.marked next head.version).octets head.method.isHead ∧
      (plain.marked next head.version).octets head.method.isHead ≠ [] := by
  rw [Turn.process_eq_play] at h
  obtain ⟨final, hfinal, rfl, hafter, hwritten, hnonempty⟩ := Turn.play_eq_answered hidle h
  obtain ⟨plain, rfl, hsettles⟩ := settles_of_final? hinside hfinal
  exact ⟨plain, hsettles, hafter, interim_turn server head size feed ▸ hwritten, hnonempty⟩

/-- What is written for `HEAD` on a path that answers it by `GET` is the header section of what is
written for `GET`, behind the same invitation to send the body, and the writer is left as it is between
two responses.  This is so whatever the handler does with the body and whatever comes of it. -/
theorem head_writes_headerSection {head : RequestHead} {route : Route WebHandler}
    (hroute : server.router.dispatch .head head.uri.pathText = .ok route)
    (hfallback : Method.head ∉ route.item.methods)
    (hignores : route.item.endpoint.handler.IgnoresMethod)
    (hfields : route.item.endpoint.handler.KeepsFields)
    (hinside : feed.Inside (.ofSize size)) {outbox afterHead afterGet : Outbox}
    (hidle : outbox.Idle) {nextHead nextGet : Next} {handedHead handedGet : List (Dispatched Unit)}
    {feedHead feedGet : Feed}
    (hhead : process server.config.connection server.answer { head with method := .head } size feed
      outbox = .answered nextHead handedHead feedHead afterHead)
    (hget : process server.config.connection server.answer { head with method := .get } size feed
      outbox = .answered nextGet handedGet feedGet afterGet) :
    ∃ response : Response,
      afterGet.sink.written =
        outbox.sink.written ++ interim head size ++ response.octets false ∧
      afterHead.sink.written =
        outbox.sink.written ++ interim head size ++ headerSection (response.octets false) ∧
      response.head.encode? (.ofHint response.body.hint) =
        some (headerSection (response.octets false)) ∧
      afterHead.Idle ∧ afterGet.Idle ∧ nextHead = nextGet := by
  obtain ⟨left, hleft, hidleHead, hwrittenHead, hnonempty⟩ :=
    written_of_answered hinside hidle hhead
  obtain ⟨right, hright, hidleGet, hwrittenGet, -⟩ := written_of_answered hinside hidle hget
  have hcallHead : server.call { head with method := .head } = _ := call_of_dispatch hroute
  have hcallGet : server.call { head with method := .get } = _ :=
    call_of_dispatch (Router.dispatch_get_of_fallback hroute hfallback)
  have hsame : (server.call { head with method := .head }).response?
        (.start (BodyChannel.start size feed)) =
      (server.call { head with method := .get }).response?
        (.start (BodyChannel.start size feed)) := by
    rw [hcallHead, hcallGet, response?_invoke_withMethod hignores head .head,
      response?_invoke_withMethod hignores head .get]
  obtain ⟨rfl, rfl⟩ := hleft.agree hsame hright
  have hencodable : (left.marked nextHead head.version).head.fields.Encodable := by
    refine Fields.Encodable.marked (hright.encodable ?_) nextHead head.version
    intro response hresponse
    rw [hcallGet] at hresponse
    exact encodable_of_invoke hfields hresponse
  obtain ⟨hencoded, hsection⟩ := Response.headerSection_octets hencodable hnonempty
  refine ⟨left.marked nextHead head.version, hwrittenGet, ?_, hsection ▸ hencoded, hidleHead,
    hidleGet, rfl⟩
  rw [hsection]
  exact hwrittenHead

/-- A streamed response to a request that holds its body back. -/
theorem head_writes_headerSection_streamed :
    let frames : List (Except HttpFault Frame) :=
      [.ok (.data (Bytes.ofText "ab")), .ok (.data (Bytes.ofText "c"))]
    let handler : WebHandler := fun _ => .done (.ok (.ofStatus .ok (.stream frames)))
    let mountings : List (Mounting WebHandler) := [.own (.route "/a" ⟨[.get], handler, true⟩)]
    let head : RequestHead := ⟨.get, ⟨none, none, Bytes.ofText "/a", none⟩, .http11,
      .ofList [(FieldName.expect, Bytes.ofText "100-continue")]⟩
    let feed : Feed := ⟨⟨some (.length 1)⟩, [], 0, 16, [Bytes.ofText "x"], .eof⟩
    let written (server : Server) (method : Method) (after : Outbox) : Prop :=
      ∃ next handed rest, process server.config.connection server.answer { head with method }
        (.length 1) feed (.start none) = .answered next handed rest after
    ∃ (server : Server) (route : Route WebHandler) (afterHead afterGet : Outbox) (octets : Bytes),
      (RouterBuilder.ofMountings mountings).build = .ok server.router ∧
      server.router.dispatch .head head.uri.pathText = .ok route ∧
      Method.head ∉ route.item.methods ∧ route.item.endpoint.handler.IgnoresMethod ∧
      route.item.endpoint.handler.KeepsFields ∧ feed.Inside (.ofSize (.length 1)) ∧
      (Outbox.start none).Idle ∧ written server .head afterHead ∧ written server .get afterGet ∧
      afterGet.sink.written = Outbox.continueLine ++ octets ∧
      afterHead.sink.written = Outbox.continueLine ++ headerSection octets ∧ afterHead.Idle := by
  intro frames handler mountings head feed written
  have hinside : feed.Inside (.ofSize (.length 1)) := by
    refine ⟨⟨?_, by decide⟩, rfl⟩
    rintro _ ⟨⟩
    exact PayloadDecoder.isProper_ofSize (.length 1)
  have hbuilds : ((RouterBuilder.ofMountings mountings).build.toOption.bind fun router =>
      (router.dispatch .head head.uri.pathText).toOption.map fun route => route.params) =
        some [] := by decide
  obtain ⟨router, hbuild, hfound⟩ := Option.bind_eq_some_iff.mp hbuilds
  obtain ⟨route, hroute, hparams⟩ := Option.map_eq_some_iff.mp hfound
  let server : Server := ⟨router, none, [], .standard⟩
  have hbuilt : (RouterBuilder.ofMountings mountings).build = .ok server.router :=
    Except.eq_ok_of_toOption hbuild
  have hdispatch : server.router.dispatch .head head.uri.pathText = .ok route :=
    Except.eq_ok_of_toOption hroute
  have hendpoint : route.item.endpoint = ⟨[.get], handler, true⟩ :=
    List.mem_singleton.mp (endpoint_mem_mountings hbuilt hdispatch)
  have hfallback : Method.head ∉ route.item.methods := by
    rw [RouteItem.methods, hendpoint]
    decide
  have hignores : route.item.endpoint.handler.IgnoresMethod := by
    rw [hendpoint]
    exact fun _ _ _ => rfl
  have hfields : route.item.endpoint.handler.KeepsFields := by
    rw [hendpoint]
    intro request reader response hresponse
    obtain ⟨finished, -, rfl⟩ := Option.map_eq_some_iff.mp hresponse
    rw [Response.ofReply, Response.fields_forwarding]
    exact Fields.encodable_empty
  -- both requests are answered, as the handler is known
  have hanswered : ∀ method : Method, server.router.dispatch method head.uri.pathText = .ok route →
      (match process ServerConfig.standard.connection (fun head =>
          (invoke ServerConfig.standard.requestMaxSize head ⟨handler, [], true⟩).map fun reply =>
            (⟨(), reply⟩ : Handled Unit)) { head with method } (.length 1) feed (.start none) with
        | .answered _ _ _ _ => true
        | _ => false) = true → ∃ after, written server method after := by
    intro method hmethod hshape
    have hprocess : process server.config.connection server.answer { head with method } (.length 1)
        feed (.start none) = _ := process_of_dispatch hmethod (.length 1) feed (.start none)
    rw [hendpoint, hparams] at hprocess
    rw [← hprocess] at hshape
    split at hshape
    · next next handed rest after heq => exact ⟨after, next, handed, rest, heq⟩
    · contradiction
  obtain ⟨afterHead, nextHead, handedHead, restHead, hhead⟩ :=
    hanswered .head hdispatch (by decide)
  obtain ⟨afterGet, nextGet, handedGet, restGet, hget⟩ := hanswered .get
    (Router.dispatch_get_of_fallback hdispatch hfallback) (by decide)
  have hidle := Outbox.idle_start none
  obtain ⟨response, hwrittenGet, hwrittenHead, -, hidleHead, -, -⟩ :=
    head_writes_headerSection hdispatch hfallback hignores hfields hinside hidle hhead hget
  have hinterim : interim head (.length 1) = Outbox.continueLine := by decide
  rw [hinterim] at hwrittenGet hwrittenHead
  exact ⟨server, route, afterHead, afterGet, response.octets false, hbuilt, hdispatch, hfallback,
    hignores, hfields, hinside, hidle, ⟨nextHead, handedHead, restHead, hhead⟩,
    ⟨nextGet, handedGet, restGet, hget⟩, hwrittenGet, hwrittenHead, hidleHead⟩

end Server

end Turnpike
