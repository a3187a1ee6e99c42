import Turnpike.Connection.Serve
import Turnpike.Proofs.Connection.Body
import Turnpike.Proofs.Connection.Delivery

/-!
The requests a connection hands out.  They are those that reading the whole input one request after
another comes to, however the input arrives and whatever the handlers do with the bodies.
-/

namespace Turnpike

open BodyChannel

theorem Response.IsEncodable.marked {response : Response} {isHead : Bool}
    (h : response.IsEncodable isHead) (next : Next) (version : Version) :
    (response.marked next version).IsEncodable isHead := ⟨h.version, h.frames, h.kept⟩

/-- Whatever body it is given: if it ends, then with a failure or a response that can be encoded. -/
def Handler.IsEncodable (handler : Handler β) : Prop :=
  ∀ count head size (feed : Feed) handled reader received channel,
    (handler count head).run (.start (BodyChannel.start size feed)) = (some handled, reader) →
    reader.body.finish = some (received, channel) →
    (Response.ofReply handled.reply (Connection.unreadBody channel)).IsEncodable head.method.isHead

namespace Connection

/-! Reading an input from its front to its end. -/

/-- A request with the octets behind its head. -/
structure Parsed where
  head : RequestHead
  size : PayloadSize
  behind : Bytes

namespace Parsed

def body (parsed : Parsed) : PayloadDecoder.Drained :=
  (PayloadDecoder.ofSize parsed.size).drain parsed.behind

def data (parsed : Parsed) : Bytes := parsed.body.chunks.flatten

/-- Its body is complete and both ends keep the connection. -/
def persists (keepAlive : Bool) (parsed : Parsed) : Bool :=
  keepAlive && parsed.head.keepAlive && parsed.body.stop == .eof

def ofInput? (input : Bytes) : Option Parsed :=
  match RequestHead.decode input with
  | (.ok (some (head, size)), behind) => some ⟨head, size, behind⟩
  | _ => none

theorem ofInput?_eq_some {input : Bytes} {parsed : Parsed} (h : ofInput? input = some parsed) :
    RequestHead.decode input = (.ok (some (parsed.head, parsed.size)), parsed.behind) := by
  unfold ofInput? at h
  split at h
  · next head size behind hdecode =>
    obtain rfl := Option.some.inj h
    exact hdecode
  · contradiction

theorem rest_length_lt {input : Bytes} {parsed : Parsed} (h : ofInput? input = some parsed) :
    parsed.body.rest.length < input.length :=
  Nat.lt_of_le_of_lt
    (PayloadDecoder.suffix_drain (PayloadDecoder.isProper_ofSize parsed.size)
      parsed.behind).length_le
    (RequestHead.decode_some_length_lt (ofInput?_eq_some h))

end Parsed

/-- Head, body, head, body, and so on, as long as both ends keep the connection: up to the first
expectation that nobody meets and the first head or body that is malformed or breaks off. -/
def parse (keepAlive : Bool) (input : Bytes) : List Parsed :=
  match _h : Parsed.ofInput? input with
  | none => []
  | some parsed =>
    match parsed.head.expectation with
    | .unsupported _ => []
    | .nothing | .continuation =>
      parsed :: if parsed.persists keepAlive then parse keepAlive parsed.body.rest else []
termination_by input.length
decreasing_by all_goals exact Parsed.rest_length_lt ‹_›

theorem parse_of_none {input : Bytes} (h : Parsed.ofInput? input = none) (keepAlive : Bool) :
    parse keepAlive input = [] := by
  rw [parse]
  split
  · rfl
  · next hsome => simp [h] at hsome

theorem parse_of_unmet {input value : Bytes} {parsed : Parsed}
    (h : Parsed.ofInput? input = some parsed) (hunmet : parsed.head.expectation = .unsupported value)
    (keepAlive : Bool) : parse keepAlive input = [] := by
  rw [parse]
  split
  · rfl
  · next other hsome =>
    obtain rfl := Option.some.inj (h.symm.trans hsome)
    simp only [hunmet]

theorem parse_of_met {input : Bytes} {parsed : Parsed} (h : Parsed.ofInput? input = some parsed)
    (hmet : ∀ value, parsed.head.expectation ≠ .unsupported value) (keepAlive : Bool) :
    parse keepAlive input =
      parsed :: if parsed.persists keepAlive then parse keepAlive parsed.body.rest else [] := by
  rw [parse]
  split
  · next hnone => simp [h] at hnone
  · next other hsome =>
    obtain rfl := Option.some.inj (h.symm.trans hsome)
    split
    · next value hunmet => exact absurd hunmet (hmet value)
    · rfl
    · rfl

/-! One request. -/

/-- What was handed out is this request, and the handler was run on its body, which is all that was
unread then: the data it was given are the front of those of the body. -/
structure Runs (handler : Handler β) (count : Nat) (parsed : Parsed) (dispatched : Dispatched β) :
    Prop where
  head : dispatched.head = parsed.head
  size : dispatched.size = parsed.size
  body : ∃ (feed : Feed) (events : List Event),
    let ran := (handler count parsed.head).run (.start (BodyChannel.start parsed.size feed))
    let exchange := (Exchange.start parsed.size feed).run events
    feed.Inside (.ofSize parsed.size) ∧ feed.unread = parsed.behind ∧
      dispatched.note = ran.1.map Handled.note ∧ ran.2.body = exchange.channel ∧
      Feed.octets exchange.yielded <+: parsed.data

/-- What comes of a request, and where the connection goes on from if it does. -/
def Settles (handler : Handler β) (keepAlive : Bool) (count : Nat) (parsed : Parsed) :
    Processed β → Prop
  | .answered .keepAlive dispatched feed outbox =>
    (∃ only, dispatched = [only] ∧ Runs handler count parsed only) ∧
      parsed.persists keepAlive = true ∧ feed.Sound ∧ feed.reader = .start ∧
      feed.unread = parsed.body.rest ∧ outbox.Ready
  | .answered .close dispatched _ _ | .failed _ dispatched _ _ | .waiting dispatched _ _ =>
    (∃ only, dispatched = [only] ∧ Runs handler count parsed only) ∧
      parsed.persists keepAlive = false

theorem runs_of_reached {handler : Handler β} {count : Nat} {parsed : Parsed} {feed : Feed}
    (hinside : feed.Inside (.ofSize parsed.size)) (hbehind : feed.unread = parsed.behind)
    {ran : Option (Handled β) × BodyReader (BodyChannel Feed)}
    (hran : (handler count parsed.head).run (.start (BodyChannel.start parsed.size feed)) = ran)
    (hreached : Reached parsed.size feed ran.2.body) :
    Runs handler count parsed ⟨parsed.head, parsed.size, ran.1.map Handled.note⟩ where
  head := rfl
  size := rfl
  body := by
    obtain ⟨events, -, hchannel⟩ := hreached
    obtain ⟨sender, hsound⟩ := Exchange.sound_run (Exchange.sound_start parsed.size feed) events
    have hdata := Feed.octets_yielded hinside hsound
    rw [hbehind] at hdata
    refine ⟨feed, events, hinside, hbehind, ?_, ?_, hdata⟩
    · rw [hran]
    · rw [hran]
      exact hchannel

theorem persists_eq_false {parsed : Parsed} (h : parsed.body.stop ≠ .eof) (keepAlive : Bool) :
    parsed.persists keepAlive = false := by
  simp [Parsed.persists, h]

theorem conclude_settles {handler : Handler β} {keepAlive : Bool} {count : Nat} {parsed : Parsed}
    {handled : Handled β} (hruns : Runs handler count parsed
      ⟨parsed.head, parsed.size, some handled.note⟩) {left : ResponseBody}
    (hencodable : (Response.ofReply handled.reply left).IsEncodable parsed.head.method.isHead)
    {feed next : Feed} (hbehind : feed.unread = parsed.behind) {received : Except RequestFault Unit}
    (hskipped : feed.Skipped (.ofSize parsed.size) (some (received, next))) {outbox : Outbox}
    (hready : outbox.Ready) :
    Settles handler keepAlive count parsed
      (conclude (keepAlive && parsed.head.keepAlive) parsed.head parsed.size handled received left
        next outbox) := by
  have hsend : ∀ after, ∃ rest,
      outbox.sendResponse ((Response.ofReply handled.reply left).marked after parsed.head.version)
        parsed.head.method.isHead = (.ok (), rest) ∧ rest.Ready := fun after =>
    Outbox.sendResponse_ready hready (hencodable.marked after parsed.head.version)
  cases received with
  | error fault =>
      simp only [Feed.Skipped, hbehind] at hskipped
      have hlast := persists_eq_false hskipped keepAlive
      simp only [conclude]
      split
      · exact ⟨⟨_, rfl, hruns⟩, hlast⟩
      · obtain ⟨rest, hrest, -⟩ := hsend .close
        rw [hrest]
        exact ⟨⟨_, rfl, hruns⟩, hlast⟩
  | ok received =>
      simp only [Feed.Skipped, hbehind] at hskipped
      obtain ⟨hsound, hreader, hstop, hrest⟩ := hskipped
      have hpersists : parsed.persists keepAlive = (keepAlive && parsed.head.keepAlive) := by
        simp [Parsed.persists, Parsed.body, hstop]
      simp only [conclude]
      cases hkeep : keepAlive && parsed.head.keepAlive with
      | true =>
          obtain ⟨rest, hsent, hidle⟩ := hsend .keepAlive
          simp only [if_true, hsent, answered]
          exact ⟨⟨_, rfl, hruns⟩, hpersists.trans hkeep, hsound, hreader, hrest.symm, hidle⟩
      | false =>
          obtain ⟨rest, hsent, -⟩ := hsend .close
          simp only [Bool.false_eq_true, if_false, hsent, answered]
          exact ⟨⟨_, rfl, hruns⟩, hpersists.trans hkeep⟩

theorem dispatch_settles {handler : Handler β} (hencodable : handler.IsEncodable) (keepAlive : Bool)
    (count : Nat) {parsed : Parsed} {feed : Feed} (hinside : feed.Inside (.ofSize parsed.size))
    (hbehind : feed.unread = parsed.behind) {outbox : Outbox} (hready : outbox.Ready) :
    Settles handler keepAlive count parsed
      (dispatch (keepAlive && parsed.head.keepAlive) parsed.head parsed.size
        (handler count parsed.head) feed outbox) := by
  obtain ⟨hreached, hstarved⟩ := Feed.reached_run hinside parsed.size (handler count parsed.head)
  have hskipped := Feed.skipped_finish hinside hreached
  unfold dispatch
  rcases hran : (handler count parsed.head).run (.start (BodyChannel.start parsed.size feed)) with
    ⟨_ | handled, reader⟩
  all_goals
    rw [hran] at hreached hstarved hskipped
    have hruns := runs_of_reached hinside hbehind hran hreached
  · have hstop := Feed.stop_of_starved hinside (hstarved rfl)
    rw [hbehind] at hstop
    exact ⟨⟨_, rfl, hruns⟩, persists_eq_false hstop keepAlive⟩
  · cases hfinish : reader.body.finish with
    | none =>
        rw [hfinish] at hskipped
        simp only [Option.map_none, Feed.Skipped, hbehind] at hskipped
        simp only [hfinish]
        exact ⟨⟨_, rfl, hruns⟩, persists_eq_false hskipped keepAlive⟩
    | some finished =>
        rw [hfinish] at hskipped
        simp only [hfinish]
        exact conclude_settles hruns
          (hencodable count parsed.head parsed.size feed handled reader finished.1 finished.2 hran
            hfinish) hbehind hskipped hready

/-! All requests. -/

theorem next_of_start {feed : Feed} (hsound : feed.Sound) (hstart : feed.reader = .start) :
    (∃ head size next, feed.next = (.message (.head head size), next) ∧
      Parsed.ofInput? feed.unread = some ⟨head, size, next.unread⟩ ∧ next.Inside (.ofSize size)) ∨
    ((∀ message, feed.next.1 ≠ .message message) ∧ Parsed.ofInput? feed.unread = none) := by
  obtain ⟨hnext, hanswers⟩ := Feed.next_answers hsound
  have hnone : (∀ message after left, feed.reader.decode feed.unread ≠
      ⟨.ok (some message), after, left⟩) → Parsed.ofInput? feed.unread = none := by
    intro hno
    unfold Parsed.ofInput?
    split
    · next head size behind hdecode =>
      rw [hstart] at hno
      exact absurd (RequestReader.decode_head hdecode) (hno _ _ _)
    · rfl
  rcases hnextEq : feed.next with ⟨arrival, next⟩
  rw [hnextEq] at hnext hanswers
  cases arrival with
  | fault fault => exact .inr ⟨by simp, hnone hanswers⟩
  | ended => exact .inr ⟨by simp, hnone hanswers⟩
  | silence => exact .inr ⟨by simp, hnone hanswers⟩
  | message message =>
      simp only [Feed.Answers, hstart] at hanswers
      rcases hanswers with hmessage | ⟨-, data, more, after, left, -, -, hboth⟩
      · rcases RequestReader.decode_eq_message hmessage with
          ⟨head, size, -, rfl, hreader, hdecode⟩ | ⟨decoder, _, _, hdecoder, -⟩
        · refine .inl ⟨head, size, next, rfl, ?_, hnext, hreader⟩
          simp only [Parsed.ofInput?, hdecode]
        · exact absurd (congrArg RequestReader.body hdecoder) (Option.some_ne_none decoder).symm
      · rcases RequestReader.decode_eq_message hboth with
          ⟨_, _, -, hitem, -⟩ | ⟨decoder, _, _, hdecoder, -⟩
        · contradiction
        · exact absurd (congrArg RequestReader.body hdecoder) (Option.some_ne_none decoder).symm

theorem sendContinue_ready {outbox : Outbox} (h : outbox.Ready) :
    ∃ next, outbox.sendContinue = (.ok (), next) ∧ next.Ready := by
  obtain ⟨next, hsent, haccepting, hwriter⟩ :=
    Outbox.writeNow_succeeds h.accepting Outbox.continueLine
  exact ⟨next, hsent, haccepting, hwriter.trans h.writer⟩

theorem process_settles (config : ConnectionConfig) {handler : Handler β}
    (hencodable : handler.IsEncodable) (count : Nat) (parsed : Parsed) {feed : Feed}
    (hinside : feed.Inside (.ofSize parsed.size)) (hbehind : feed.unread = parsed.behind)
    {outbox : Outbox} (hready : outbox.Ready)
    (hmet : ∀ value, parsed.head.expectation ≠ .unsupported value) :
    Settles handler config.keepAlive count parsed
      (process config (handler count) parsed.head parsed.size feed outbox) := by
  have hdispatch : ∀ next : Outbox, next.Ready → Settles handler config.keepAlive count parsed
      (dispatch (config.keepAlive && parsed.head.keepAlive) parsed.head parsed.size
        (handler count parsed.head) feed next) := fun next hnext =>
    dispatch_settles hencodable config.keepAlive count hinside hbehind hnext
  unfold process
  cases hexpectation : parsed.head.expectation with
  | unsupported value => exact absurd hexpectation (hmet value)
  | nothing => exact hdispatch outbox hready
  | continuation =>
      simp only
      split
      · exact hdispatch outbox hready
      · obtain ⟨next, hsent, hnext⟩ := sendContinue_ready hready
        rw [hsent]
        exact hdispatch next hnext

/-- What was handed out are these requests, in their order, and each handler was run on its own. -/
def RunsAll (handler : Handler β) : Nat → List Parsed → List (Dispatched β) → Prop
  | _, [], [] => True
  | count, parsed :: later, dispatched :: rest =>
    Runs handler count parsed dispatched ∧ RunsAll handler (count + 1) later rest
  | _, _, _ => False

theorem RunsAll.map_eq {handler : Handler β} {count : Nat} {parsed : List Parsed}
    {dispatched : List (Dispatched β)} (h : RunsAll handler count parsed dispatched) :
    dispatched.map (fun one => (one.head, one.size)) =
      parsed.map fun one => (one.head, one.size) := by
  induction parsed generalizing count dispatched with
  | nil =>
      cases dispatched with
      | nil => rfl
      | cons => contradiction
  | cons first parsed ih =>
      cases dispatched with
      | nil => contradiction
      | cons one dispatched =>
          rw [List.map_cons, List.map_cons, h.1.head, h.1.size, ih h.2]

theorem RunsAll.last {handler : Handler β} {count : Nat} {parsed : Parsed} {keepAlive : Bool}
    {dispatched : List (Dispatched β)}
    (h : (∃ only, dispatched = [only] ∧ Runs handler count parsed only) ∧
      parsed.persists keepAlive = false) (later : List Parsed) :
    RunsAll handler count (parsed :: if parsed.persists keepAlive then later else []) dispatched := by
  obtain ⟨⟨only, rfl, hruns⟩, hpersists⟩ := h
  rw [hpersists]
  exact ⟨hruns, trivial⟩

theorem dispatched_refuse (head : RequestHead) (value : Bytes) (feed : Feed) (outbox : Outbox) :
    (∃ next rest, (refuse head value feed outbox : Processed β) = .answered .close [] next rest) ∨
      ∃ fault next rest, (refuse head value feed outbox : Processed β) = .failed fault [] next rest := by
  unfold refuse
  simp only
  rcases outbox.sendResponse ((Response.unknownExpectation value).marked .close head.version)
    head.method.isHead with ⟨fault | _, rest⟩
  · exact .inr ⟨_, _, _, rfl⟩
  · exact .inl ⟨_, _, rfl⟩

theorem dispatched_reject (status : Status) (fault : RequestFault) (feed : Feed) (outbox : Outbox) :
    (reject status fault feed outbox : ConnectionRun β).dispatched = [] := by
  unfold reject
  simp only
  split <;> rfl

theorem loop_runsAll (config : ConnectionConfig) {handler : Handler β}
    (hencodable : handler.IsEncodable) {fuel : Nat} (count : Nat) {feed : Feed}
    (hsound : feed.Sound) (hstart : feed.reader = .start) (hfuel : feed.unread.length < fuel)
    {outbox : Outbox} (hready : outbox.Ready) :
    RunsAll handler count (parse config.keepAlive feed.unread)
      (loop config handler fuel count feed outbox).dispatched := by
  induction fuel generalizing count feed outbox with
  | zero => contradiction
  | succ fuel ih =>
      rcases next_of_start hsound hstart with
        ⟨head, size, next, hnext, hparsed, hinside⟩ | ⟨hnone, hparsed⟩
      · simp only [loop, hnext]
        by_cases hmet : ∀ value, head.expectation ≠ .unsupported value
        · have hlength := Parsed.rest_length_lt hparsed
          have hsettles := process_settles config hencodable count ⟨head, size, next.unread⟩ hinside rfl
            hready hmet
          rw [parse_of_met hparsed hmet]
          rcases hprocess : process config (handler count) head size next outbox with
            ⟨_ | _, dispatched, after, rest⟩ | ⟨fault, dispatched, after, rest⟩ |
              ⟨dispatched, after, rest⟩
          all_goals rw [hprocess] at hsettles
          · obtain ⟨⟨only, rfl, hruns⟩, hpersists, hafter, hreader, hunread, hrest⟩ := hsettles
            rw [hpersists, if_pos rfl, ← hunread]
            rw [← hunread] at hlength
            exact ⟨hruns, ih (count + 1) hafter hreader (by omega) hrest⟩
          · exact RunsAll.last hsettles _
          · exact RunsAll.last hsettles _
          · exact RunsAll.last hsettles _
        · obtain ⟨value, hvalue⟩ := Classical.not_forall.mp hmet
          have hunmet : head.expectation = .unsupported value := Classical.not_not.mp hvalue
          rw [parse_of_unmet hparsed hunmet]
          simp only [process, hunmet]
          rcases dispatched_refuse head value next outbox with
            ⟨after, rest, hrefuse⟩ | ⟨fault, after, rest, hrefuse⟩
          · rw [hrefuse]
            trivial
          · rw [hrefuse]
            trivial
      · rw [parse_of_none hparsed]
        rcases hnext : feed.next with ⟨message | fault | _ | _, next⟩
        · exact absurd (by rw [hnext]) (hnone message)
        · simp only [loop, hnext]
          split
          · trivial
          · rw [dispatched_reject]
            trivial
        · simp only [loop, hnext]
          trivial
        · simp only [loop, hnext]
          trivial

/-- However an input arrives and whatever the handlers do with the bodies, the requests handed out
are those of the input read from its front, and each handler is run on the body of its own. -/
theorem serve_hands_out (config : ConnectionConfig) {handler : Handler β}
    (hencodable : handler.IsEncodable) (segments : List Bytes) (ending : Ending) :
    let run := serve config handler segments ending none
    let parsed := parse config.keepAlive segments.flatten
    (run.dispatched.map fun one => (one.head, one.size)) =
        parsed.map (fun one => (one.head, one.size)) ∧
      RunsAll handler 0 parsed run.dispatched := by
  intro run parsed
  have hruns : RunsAll handler 0 parsed run.dispatched := by
    have hloop := loop_runsAll config hencodable 0
      (Feed.sound_start config.readBufferSize segments ending) rfl (Nat.lt_succ_self _)
      Outbox.ready_start
    change RunsAll handler 0 (parse _ (Feed.start _ _ _).unread) run.dispatched at hloop
    rw [Feed.unread_start] at hloop
    exact hloop
  exact ⟨hruns.map_eq, hruns⟩

/-- Two requests in one read and a half, to a handler that asks once and gives up while the sender
has taken the demand. -/
theorem serve_hands_out_asked_once :
    let handler : Handler Unit := fun _ _ =>
      .poll fun _ => .wait 1 (.done ⟨(), .ok (.ofStatus .ok .empty)⟩)
    let segments := [Bytes.ofText "POST /a HTTP/1.1\r\nContent-Length: 5\r\n\r\nhe",
      Bytes.ofText "lloGET /b HTTP/1.1\r\n\r\n"]
    let run := serve .standard handler segments .eof none
    let parsed := parse ConnectionConfig.standard.keepAlive segments.flatten
    handler.IsEncodable ∧ run.dispatched.map Dispatched.size = [.length 5, .empty] ∧
      (run.dispatched.map fun one => (one.head, one.size)) =
        parsed.map (fun one => (one.head, one.size)) ∧
      RunsAll handler 0 parsed run.dispatched := by
  intro handler segments run parsed
  have hencodable : handler.IsEncodable := by
    intro count head size feed handled reader received channel hrun _
    have hhandled : handled = ⟨(), .ok (.ofStatus .ok .empty)⟩ :=
      (Option.some.inj (congrArg Prod.fst hrun)).symm
    subst hhandled
    exact ⟨.inr rfl, fun _ _ => nofun, fun _ _ => nofun⟩
  exact ⟨hencodable, by decide +kernel, serve_hands_out .standard hencodable segments .eof⟩

end Connection

end Turnpike
