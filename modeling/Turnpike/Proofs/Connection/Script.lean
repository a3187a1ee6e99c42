import Turnpike.Connection.Serve
import Turnpike.Proofs.Connection.Written

/-!
A connection as its two halves.  What is read, and what the handlers make of it, does not depend on
what becomes of the responses: the reading half yields a script of turns, and the writing half plays
it until it is through or the writer fails.
-/

namespace Turnpike

namespace Connection

/-- What comes of a request on the reading half. -/
inductive Course (β : Type) where
  | refused (value : Bytes)
  /-- The handler, or what skips the body behind it, waits for octets that do not come. -/
  | stalled (note : Option β)
  | handled (handled : Handled β) (received : Except RequestFault Unit) (left : ResponseBody)

/-- A request and what comes of it. -/
structure Turn (β : Type) where
  head : RequestHead
  size : PayloadSize
  keepAlive : Bool
  /-- behind the head -/
  arrived : Feed
  course : Course β
  feed : Feed

def follow (activity : Activity (Handled β)) (size : PayloadSize) (feed : Feed) : Course β × Feed :=
  match activity.run (.start (BodyChannel.start size feed)) with
  | (none, _) => (.stalled none, feed)
  | (some handled, reader) =>
    match reader.body.finish with
    | none => (.stalled (some handled.note), reader.body.source)
    | some (received, channel) => (.handled handled received (unreadBody channel), channel.source)

namespace Turn

def take (config : ConnectionConfig) (handler : RequestHead → Activity (Handled β))
    (head : RequestHead) (size : PayloadSize) (feed : Feed) : Turn β :=
  let came : Course β × Feed := match head.expectation with
    | .unsupported value => (.refused value, feed)
    | .nothing | .continuation => follow (handler head) size feed
  ⟨head, size, config.keepAlive && head.keepAlive, feed, came.1, came.2⟩

def next (turn : Turn β) : Next :=
  match turn.course with
  | .handled _ (.ok ()) _ => if turn.keepAlive then .keepAlive else .close
  | .handled _ (.error _) _ | .refused _ | .stalled _ => .close

def dispatched (turn : Turn β) : List (Dispatched β) :=
  match turn.course with
  | .refused _ => []
  | .stalled note => [⟨turn.head, turn.size, note⟩]
  | .handled handled _ _ => [⟨turn.head, turn.size, some handled.note⟩]

/-- Its response before the connection marks it.  Nobody is answered who has gone away. -/
def plain? (turn : Turn β) : Option Response :=
  match turn.course with
  | .refused value => some (.unknownExpectation value)
  | .stalled _ => none
  | .handled handled (.ok ()) left => some (.ofReply handled.reply left)
  | .handled handled (.error fault) left =>
    if fault.isDisconnect then none else some (.ofReply handled.reply left)

def final? (turn : Turn β) : Option Response :=
  turn.plain?.map (·.marked turn.next turn.head.version)

/-- The peer holds its body back until it is told to go on. -/
def isAwaited (turn : Turn β) : Bool :=
  turn.head.expectation == .continuation && !turn.size.isEmpty

def interim (turn : Turn β) : Bytes := if turn.isAwaited then Outbox.continueLine else []

/-- All that is written of a turn. -/
def block (turn : Turn β) : Bytes :=
  turn.interim ++ (turn.final?.map (·.octets turn.head.method.isHead)).getD []

def unanswered (turn : Turn β) (outbox : Outbox) : Processed β :=
  match turn.course with
  | .handled _ (.error fault) _ => .failed (.request fault) turn.dispatched turn.feed outbox
  | .handled _ (.ok ()) _ | .refused _ | .stalled _ => .waiting turn.dispatched turn.feed outbox

def invite (turn : Turn β) (outbox : Outbox) : Sent :=
  if turn.isAwaited then outbox.sendContinue else (.ok (), outbox)

def respond (turn : Turn β) (outbox : Outbox) : Processed β :=
  match turn.final? with
  | none => turn.unanswered outbox
  | some response =>
    answered turn.next turn.dispatched turn.feed
      (outbox.sendResponse response turn.head.method.isHead)

def play (turn : Turn β) (outbox : Outbox) : Processed β :=
  match turn.invite outbox with
  | (.error fault, outbox) => .failed (.response fault) [] turn.arrived outbox
  | (.ok (), outbox) => turn.respond outbox

theorem respond_of_handled {turn : Turn β} {handled : Handled β}
    {received : Except RequestFault Unit} {left : ResponseBody}
    (h : turn.course = .handled handled received left) (outbox : Outbox) :
    turn.respond outbox =
      conclude turn.keepAlive turn.head turn.size handled received left turn.feed outbox := by
  cases received with
  | ok received => simp only [respond, final?, plain?, next, dispatched, h, conclude, Option.map_some]
  | error fault =>
      simp only [respond, final?, plain?, next, dispatched, unanswered, h, conclude]
      cases fault.isDisconnect <;> rfl

theorem respond_of_follow (handler : RequestHead → Activity (Handled β)) (head : RequestHead)
    (size : PayloadSize) (keepAlive : Bool) (feed : Feed) (outbox : Outbox) :
    let came := follow (handler head) size feed
    (⟨head, size, keepAlive, feed, came.1, came.2⟩ : Turn β).respond outbox =
      dispatch keepAlive head size (handler head) feed outbox := by
  unfold follow dispatch
  rcases (handler head).run (.start (BodyChannel.start size feed)) with ⟨_ | handled, reader⟩
  · rfl
  · rcases hfinish : reader.body.finish with _ | ⟨received, channel⟩
    · simp only [hfinish]
      rfl
    · simp only [hfinish]
      exact respond_of_handled rfl outbox

theorem process_eq_play (config : ConnectionConfig)
    (handler : RequestHead → Activity (Handled β)) (head : RequestHead) (size : PayloadSize)
    (feed : Feed) (outbox : Outbox) :
    process config handler head size feed outbox =
      (take config handler head size feed).play outbox := by
  have hrespond := respond_of_follow handler head size (config.keepAlive && head.keepAlive) feed
  unfold process
  cases hexpectation : head.expectation with
  | unsupported value =>
      simp only [play, invite, isAwaited, take, hexpectation]
      rfl
  | nothing =>
      simp only [play, invite, isAwaited, take, hexpectation]
      exact (hrespond outbox).symm
  | continuation =>
      simp only [play, invite, isAwaited, take, hexpectation]
      cases size.isEmpty with
      | true => exact (hrespond outbox).symm
      | false =>
          rcases hsent : outbox.sendContinue with ⟨fault | _, next⟩
          · rfl
          · simpa [hsent] using (hrespond next).symm

theorem grows_invite (turn : Turn β) (outbox : Outbox) : outbox.Grows (turn.invite outbox).2 := by
  unfold invite
  split
  · exact Outbox.grows_writeNow outbox Outbox.continueLine
  · exact .refl outbox

theorem invite_eq_ok {turn : Turn β} {outbox invited : Outbox} (h : outbox.Idle)
    (hinvite : turn.invite outbox = (.ok (), invited)) :
    invited.Idle ∧ invited.sink.isShutdown = outbox.sink.isShutdown ∧
      invited.sink.written = outbox.sink.written ++ turn.interim := by
  unfold invite at hinvite
  split at hinvite
  · next hawaited =>
    obtain rfl := Outbox.writeNow_eq_ok hinvite
    exact ⟨⟨h.writer, h.buffer⟩, rfl, by rw [interim, if_pos hawaited]; rfl⟩
  · next hawaited =>
    obtain rfl := (Prod.mk.inj hinvite).2
    exact ⟨h, rfl, by rw [interim, if_neg hawaited, List.append_nil]⟩

theorem written_invite (turn : Turn β) (outbox : Outbox) :
    (turn.invite outbox).2.sink.written <+: outbox.sink.written ++ turn.interim := by
  unfold invite interim
  split
  · exact Outbox.written_writeNow outbox Outbox.continueLine
  · exact List.prefix_append ..

theorem play_cases (turn : Turn β) (outbox : Outbox) :
    (∃ fault after, turn.invite outbox = (.error fault, after) ∧
      turn.play outbox = .failed (.response fault) [] turn.arrived after) ∨
    ∃ invited, turn.invite outbox = (.ok (), invited) ∧
      ((turn.final? = none ∧ turn.play outbox = turn.unanswered invited) ∨
        ∃ response, turn.final? = some response ∧
          ((∃ fault after, invited.sendResponse response turn.head.method.isHead =
              (.error fault, after) ∧
            turn.play outbox = .failed (.response fault) turn.dispatched turn.feed after) ∨
          ∃ after, invited.sendResponse response turn.head.method.isHead = (.ok (), after) ∧
            turn.play outbox = .answered turn.next turn.dispatched turn.feed after)) := by
  unfold play
  rcases hinvite : turn.invite outbox with ⟨fault | _, invited⟩
  · exact .inl ⟨fault, invited, rfl, rfl⟩
  · refine .inr ⟨invited, rfl, ?_⟩
    simp only [respond]
    cases hfinal : turn.final? with
    | none => exact .inl ⟨rfl, rfl⟩
    | some response =>
        refine .inr ⟨response, rfl, ?_⟩
        simp only
        rcases hsent : invited.sendResponse response turn.head.method.isHead with
          ⟨fault | _, after⟩
        · exact .inl ⟨fault, after, rfl, rfl⟩
        · exact .inr ⟨after, rfl, rfl⟩

theorem unanswered_cases {turn : Turn β} (h : turn.final? = none) :
    turn.next = .close ∧
      ((∃ handled fault left, turn.course = .handled handled (.error fault) left ∧
        fault.isDisconnect = true ∧ ∀ outbox,
          turn.unanswered outbox = .failed (.request fault) turn.dispatched turn.feed outbox) ∨
      (∃ note, turn.course = .stalled note) ∧ ∀ outbox,
        turn.unanswered outbox = .waiting turn.dispatched turn.feed outbox) := by
  simp only [final?, Option.map_eq_none_iff] at h
  unfold plain? at h
  split at h
  · contradiction
  · next note hcourse =>
    have hnext : turn.next = .close := by simp only [next, hcourse]
    refine ⟨hnext, .inr ⟨⟨note, hcourse⟩, fun outbox => ?_⟩⟩
    simp only [unanswered, hcourse]
  · contradiction
  · next handled fault left hcourse =>
    split at h
    · next hdisconnect =>
      have hnext : turn.next = .close := by simp only [next, hcourse]
      refine ⟨hnext, .inl ⟨handled, fault, left, hcourse, hdisconnect, fun outbox => ?_⟩⟩
      simp only [unanswered, hcourse]
    · contradiction

theorem final?_ne_none {turn : Turn β} (h : turn.next = .keepAlive) : turn.final? ≠ none := by
  intro hnone
  have hclose := (unanswered_cases hnone).1
  rw [h] at hclose
  contradiction

theorem dispatched_of_keepAlive {turn : Turn β} (h : turn.next = .keepAlive) :
    ∃ handled left, turn.course = .handled handled (.ok ()) left ∧ turn.keepAlive = true ∧
      turn.dispatched = [⟨turn.head, turn.size, some handled.note⟩] := by
  unfold next at h
  split at h
  · next handled left hcourse =>
    split at h
    · next hkeep => exact ⟨handled, left, hcourse, hkeep, by simp only [dispatched, hcourse]⟩
    · contradiction
  · contradiction
  · contradiction
  · contradiction

end Turn

/-! All turns. -/

/-- The turns of a connection: each but the last keeps it. -/
inductive Script (β : Type) where
  | stopped (outcome : Outcome) (feed : Feed)
  | rejected (status : Status) (fault : RequestFault) (feed : Feed)
  | last (turn : Turn β) (closes : turn.next = .close)
  | kept (turn : Turn β) (keeps : turn.next = .keepAlive) (later : Script β)

def goOn (next : Outbox → ConnectionRun β) : Processed β → ConnectionRun β
  | .failed fault dispatched feed outbox => ⟨dispatched, .failed fault, outbox, feed⟩
  | .waiting dispatched feed outbox => ⟨dispatched, .waiting, outbox, feed⟩
  | .answered _ dispatched _ outbox =>
    let run := next outbox
    { run with dispatched := dispatched ++ run.dispatched }

namespace Turn

/-- What a run that begins with a turn comes to, whatever the writer does. -/
inductive Unfolds (turn : Turn β) (outbox : Outbox) (next : Outbox → ConnectionRun β)
    (run : ConnectionRun β) : Prop where
  | uninvited (dispatched : run.dispatched = [])
      (outcome : ∃ fault, run.outcome = .failed (.response fault))
      (written : run.written <+: outbox.sink.written ++ turn.interim)
  | unanswered (final : turn.final? = none) (dispatched : run.dispatched = turn.dispatched)
      (written : run.written = outbox.sink.written ++ turn.interim)
  | brokenOff (dispatched : run.dispatched = turn.dispatched)
      (outcome : ∃ fault, run.outcome = .failed (.response fault))
      (begun : outbox.sink.written ++ turn.interim <+: run.written)
      (written : run.written <+: outbox.sink.written ++ turn.block)
  | answered {after : Outbox} (idle : after.Idle)
      (written : after.sink.written = outbox.sink.written ++ turn.block)
      (goes : run = { next after with dispatched := turn.dispatched ++ (next after).dispatched })

theorem unfolds_play (turn : Turn β) {outbox : Outbox} (h : outbox.Idle)
    (next : Outbox → ConnectionRun β) :
    turn.Unfolds outbox next (goOn next (turn.play outbox)) := by
  rcases turn.play_cases outbox with ⟨fault, after, hinvite, hplay⟩ | ⟨invited, hinvite, hplay⟩
  · have hwritten := turn.written_invite outbox
    rw [hinvite] at hwritten
    rw [hplay]
    exact .uninvited rfl ⟨fault, rfl⟩ hwritten
  · obtain ⟨hinvited, -, hinterim⟩ := invite_eq_ok h hinvite
    rcases hplay with ⟨hfinal, hplay⟩ | ⟨response, hfinal, hplay⟩
    · rw [hplay]
      obtain ⟨-, ⟨_, fault, _, -, -, hunanswered⟩ | ⟨-, hunanswered⟩⟩ := unanswered_cases hfinal
      all_goals
        rw [hunanswered]
        exact .unanswered hfinal rfl hinterim
    · have hblock : outbox.sink.written ++ turn.block =
          invited.sink.written ++ response.octets turn.head.method.isHead := by
        rw [hinterim, block, hfinal, Option.map_some, Option.getD_some, List.append_assoc]
      rcases hplay with ⟨fault, after, hsent, hplay⟩ | ⟨after, hsent, hplay⟩
      · have hbegun := (Outbox.grows_of_sendResponse hinvited hsent).written
        have hemits := (Outbox.sendResponse_emits hinvited.writer response
          turn.head.method.isHead).written
        rw [hinterim] at hbegun
        rw [hsent, Outbox.gathered, hinvited.buffer, List.append_nil, ← hblock] at hemits
        rw [hplay]
        exact .brokenOff rfl ⟨fault, rfl⟩ hbegun hemits
      · obtain ⟨hafter, hwritten⟩ := Outbox.sendResponse_written hinvited hsent
        rw [hplay]
        exact .answered hafter (hwritten.trans hblock.symm) rfl

end Turn

namespace Script

def andThen (turn : Turn β) (later : Script β) : Script β :=
  match hnext : turn.next with
  | .close => .last turn hnext
  | .keepAlive => .kept turn hnext later

def read (config : ConnectionConfig) (handler : Handler β) : Nat → Nat → Feed → Script β
  | 0, _, feed => .stopped .waiting feed
  | fuel + 1, count, feed =>
    match feed.next with
    | (.ended, feed) => .stopped .closed feed
    | (.silence, feed) => .stopped .waiting feed
    | (.message (.item _), feed) => .rejected .badRequest bodyWithoutHead feed
    | (.fault fault, feed) =>
      if fault.isDisconnect then .stopped (.failed (.request fault)) feed
      else .rejected (statusOf fault) fault feed
    | (.message (.head head size), feed) =>
      let turn := Turn.take config (handler count) head size feed
      andThen turn (read config handler fuel (count + turn.dispatched.length) turn.feed)

def ofInput (config : ConnectionConfig) (handler : Handler β) (segments : List Bytes)
    (ending : Ending) : Script β :=
  let feed := Feed.start config.readBufferSize segments ending
  read config handler (feed.unread.length + 1) 0 feed

def play : Script β → Outbox → ConnectionRun β
  | .stopped outcome feed, outbox => ⟨[], outcome, outbox, feed⟩
  | .rejected status fault feed, outbox => reject status fault feed outbox
  | .last turn _, outbox =>
    goOn (fun after => ⟨[], .closed, after.shutdown, turn.feed⟩) (turn.play outbox)
  | .kept turn _ later, outbox => goOn (fun after => later.play after) (turn.play outbox)

def turns : Script β → List (Turn β)
  | .stopped _ _ | .rejected _ _ _ => []
  | .last turn _ => [turn]
  | .kept turn _ later => turn :: later.turns

theorem play_andThen (turn : Turn β) (later : Script β) (outbox : Outbox) :
    (andThen turn later).play outbox =
      goOn (fun after => match turn.next with
        | .close => ⟨[], .closed, after.shutdown, turn.feed⟩
        | .keepAlive => later.play after) (turn.play outbox) := by
  unfold andThen
  split
  · next hnext => simp only [play, hnext]
  · next hnext => simp only [play, hnext]

theorem loop_eq_play (config : ConnectionConfig) (handler : Handler β) (fuel count : Nat)
    (feed : Feed) (outbox : Outbox) :
    loop config handler fuel count feed outbox =
      (read config handler fuel count feed).play outbox := by
  induction fuel generalizing count feed outbox with
  | zero =>
      unfold loop read
      rfl
  | succ fuel ih =>
      unfold loop read
      rcases feed.next with ⟨(⟨head, size⟩ | item) | fault | _ | _, next⟩
      · simp only [Turn.process_eq_play, play_andThen]
        generalize Turn.take config (handler count) head size next = turn
        rcases turn.play_cases outbox with ⟨fault, after, -, hplay⟩ |
          ⟨invited, -, ⟨hfinal, hplay⟩ | ⟨response, -, ⟨fault, after, -, hplay⟩ | ⟨after, -, hplay⟩⟩⟩
        · rw [hplay]
          rfl
        · obtain ⟨-, ⟨_, _, _, -, -, hunanswered⟩ | ⟨-, hunanswered⟩⟩ := Turn.unanswered_cases hfinal
          · rw [hplay, hunanswered]
            rfl
          · rw [hplay, hunanswered]
            rfl
        · rw [hplay]
          rfl
        · rw [hplay]
          cases turn.next with
          | close => simp only [goOn, List.append_nil]
          | keepAlive => simp only [goOn, ih]
      · rfl
      · simp only
        cases fault.isDisconnect <;> rfl
      · rfl
      · rfl

theorem serve_eq_play (config : ConnectionConfig) (handler : Handler β) (segments : List Bytes)
    (ending : Ending) (failure : Option WriteFailure) :
    serve config handler segments ending failure =
      (ofInput config handler segments ending).play (.start failure) :=
  loop_eq_play config handler _ 0 _ _

end Script

end Connection

end Turnpike
