import Turnpike.Proofs.Connection.Pipeline
import Turnpike.Proofs.Connection.Script
import Turnpike.Proofs.Connection.Silence

/-!
What a connection writes to a peer that accepts all octets: a block for each turn, and at the very
end a refusal of what is no request.
-/

namespace Turnpike

open BodyChannel

namespace Connection

/-! One turn. -/

theorem follow_eq_handled {activity : Activity (Handled β)} {size : PayloadSize} {feed : Feed}
    {handled : Handled β} {received : Except RequestFault Unit} {left : ResponseBody}
    (h : (follow activity size feed).1 = .handled handled received left) :
    ∃ reader channel, activity.run (.start (BodyChannel.start size feed)) = (some handled, reader) ∧
      reader.body.finish = some (received, channel) ∧ left = unreadBody channel ∧
      (follow activity size feed).2 = channel.source := by
  unfold follow at h ⊢
  split at h
  · contradiction
  · next found reader hrun =>
    split at h
    · contradiction
    · next outcome channel hfinish =>
      obtain ⟨rfl, rfl, rfl⟩ := Course.handled.inj h
      exact ⟨reader, channel, hrun, hfinish, rfl, rfl⟩

theorem follow_ne_refused (activity : Activity (Handled β)) (size : PayloadSize) (feed : Feed)
    (value : Bytes) : (follow activity size feed).1 ≠ .refused value := by
  unfold follow
  split
  · exact nofun
  · split
    · exact nofun
    · exact nofun

/-- Whatever a handler does with it, a body is brought to its end behind the handler, if it has one. -/
theorem follow_skipped {activity : Activity (Handled β)} {size : PayloadSize} {feed : Feed}
    (hinside : feed.Inside (.ofSize size)) {handled : Handled β}
    {received : Except RequestFault Unit} {left : ResponseBody}
    (h : (follow activity size feed).1 = .handled handled received left) :
    let after := (follow activity size feed).2
    feed.Skipped (.ofSize size) (some (received, after)) ∧ after.ending = feed.ending := by
  obtain ⟨reader, channel, hrun, hfinish, -, hafter⟩ := follow_eq_handled h
  have hreached := (Feed.reached_run hinside size activity).1
  rw [hrun] at hreached
  have hskipped := Feed.skipped_finish hinside hreached
  rw [hfinish] at hskipped
  simp only [hafter]
  exact ⟨hskipped, (Feed.finish_ending hinside hreached).2 hfinish⟩

theorem follow_received {activity : Activity (Handled β)} {size : PayloadSize} {feed : Feed}
    (hinside : feed.Inside (.ofSize size)) {handled : Handled β} {left : ResponseBody}
    (h : (follow activity size feed).1 = .handled handled (.ok ()) left) :
    let after := (follow activity size feed).2
    after.Sound ∧ after.reader = .start ∧ after.unread.length ≤ feed.unread.length ∧
      after.ending = feed.ending := by
  obtain ⟨⟨hsound, hreader, -, hrest⟩, hending⟩ := follow_skipped hinside h
  have hsuffix := PayloadDecoder.suffix_drain (PayloadDecoder.isProper_ofSize size) feed.unread
  rw [hrest] at hsuffix
  exact ⟨hsound, hreader, hsuffix.length_le, hending⟩

theorem silence_of_follow {activity : Activity (Handled β)} {size : PayloadSize} {feed : Feed}
    (hinside : feed.Inside (.ofSize size)) {note : Option β}
    (h : (follow activity size feed).1 = .stalled note) : feed.ending = .silence := by
  obtain ⟨hreached, hstarved⟩ := Feed.reached_run hinside size activity
  unfold follow at h
  split at h
  · next reader hrun =>
    rw [hrun] at hstarved
    exact Feed.silence_of_starved hinside (hstarved rfl)
  · next handled reader hrun =>
    rw [hrun] at hreached
    split at h
    · next hfinish => exact (Feed.finish_ending hinside hreached).1 hfinish
    · contradiction

namespace Turn

/-- A request is refused for what it expects, or handed out. -/
theorem take_cases (config : ConnectionConfig) (handler : RequestHead → Activity (Handled β))
    (head : RequestHead) (size : PayloadSize) (feed : Feed) :
    (∃ value, head.expectation = .unsupported value ∧
        (take config handler head size feed).course = .refused value) ∨
      (∀ value, head.expectation ≠ .unsupported value) ∧
        (take config handler head size feed).course = (follow (handler head) size feed).1 ∧
        (take config handler head size feed).feed = (follow (handler head) size feed).2 := by
  unfold take
  cases head.expectation with
  | unsupported value => exact .inl ⟨value, rfl, rfl⟩
  | nothing => exact .inr ⟨by simp, rfl, rfl⟩
  | continuation => exact .inr ⟨by simp, rfl, rfl⟩

/-- The request that is read next, with what becomes of it. -/
structure Arises (config : ConnectionConfig) (handler : Handler β) (count : Nat) (before : Feed)
    (turn : Turn β) : Prop where
  start : before.reader = .start
  read : before.next = (.message (.head turn.head turn.size), turn.arrived)
  taken : turn = take config (handler count) turn.head turn.size turn.arrived

variable {config : ConnectionConfig} {handler : Handler β} {count : Nat} {before : Feed}
  {turn : Turn β}

theorem Arises.course_cases (h : turn.Arises config handler count before) :
    (∃ value, turn.head.expectation = .unsupported value ∧ turn.course = .refused value) ∨
      (∀ value, turn.head.expectation ≠ .unsupported value) ∧
        turn.course = (follow (handler count turn.head) turn.size turn.arrived).1 ∧
        turn.feed = (follow (handler count turn.head) turn.size turn.arrived).2 := by
  have hcases := take_cases config (handler count) turn.head turn.size turn.arrived
  rwa [← h.taken] at hcases

theorem Arises.followed (h : turn.Arises config handler count before)
    (hcourse : ∀ value, turn.course ≠ .refused value) :
    (∀ value, turn.head.expectation ≠ .unsupported value) ∧
      turn.course = (follow (handler count turn.head) turn.size turn.arrived).1 ∧
      turn.feed = (follow (handler count turn.head) turn.size turn.arrived).2 := by
  rcases h.course_cases with ⟨value, -, hrefused⟩ | hfollowed
  · exact absurd hrefused (hcourse value)
  · exact hfollowed

theorem final?_cases {response : Response} (h : turn.final? = some response) :
    (∃ value, turn.course = .refused value ∧
      response = (Response.unknownExpectation value).marked turn.next turn.head.version) ∨
    ∃ handled received left, turn.course = .handled handled received left ∧
      response = (Response.ofReply handled.reply left).marked turn.next turn.head.version := by
  obtain ⟨plain, hplain, rfl⟩ := Option.map_eq_some_iff.mp h
  unfold plain? at hplain
  split at hplain
  · next value hcourse =>
    obtain rfl := Option.some.inj hplain
    exact .inl ⟨value, hcourse, rfl⟩
  · contradiction
  · next handled left hcourse =>
    obtain rfl := Option.some.inj hplain
    exact .inr ⟨handled, .ok (), left, hcourse, rfl⟩
  · next handled fault left hcourse =>
    split at hplain
    · contradiction
    · obtain rfl := Option.some.inj hplain
      exact .inr ⟨handled, .error fault, left, hcourse, rfl⟩

theorem Arises.isEncodable (h : turn.Arises config handler count before) (hencodable : handler.IsEncodable)
    {response : Response} (hfinal : turn.final? = some response) :
    response.IsEncodable turn.head.method.isHead := by
  rcases final?_cases hfinal with
    ⟨value, -, rfl⟩ | ⟨handled, received, left, hcourse, rfl⟩
  · exact (Response.isEncodable_ofBytes rfl rfl _).marked _ _
  · obtain ⟨-, hfollow, -⟩ := h.followed (by rw [hcourse]; exact nofun)
    obtain ⟨reader, channel, hrun, hfinish, rfl, -⟩ := follow_eq_handled (hfollow.symm.trans hcourse)
    exact (hencodable count turn.head turn.size turn.arrived handled reader received channel hrun
      hfinish).marked _ _

theorem Arises.received (h : turn.Arises config handler count before)
    (hinside : turn.arrived.Inside (.ofSize turn.size)) (hkeep : turn.next = .keepAlive) :
    turn.feed.Sound ∧ turn.feed.reader = .start ∧
      turn.feed.unread.length ≤ turn.arrived.unread.length ∧
      turn.feed.ending = turn.arrived.ending := by
  obtain ⟨handled, left, hcourse, -, -⟩ := dispatched_of_keepAlive hkeep
  obtain ⟨-, hfollow, hfeed⟩ := h.followed (by rw [hcourse]; exact nofun)
  rw [hfeed]
  exact follow_received hinside (hfollow.symm.trans hcourse)

theorem Arises.silence (h : turn.Arises config handler count before)
    (hinside : turn.arrived.Inside (.ofSize turn.size)) {note : Option β}
    (hcourse : turn.course = .stalled note) : turn.arrived.ending = .silence := by
  obtain ⟨-, hfollow, -⟩ := h.followed (by rw [hcourse]; exact nofun)
  exact silence_of_follow hinside (hfollow.symm.trans hcourse)

theorem invite_ready (turn : Turn β) {outbox : Outbox} (h : outbox.Ready) :
    ∃ invited, turn.invite outbox = (.ok (), invited) ∧ invited.Ready := by
  unfold invite
  split
  · exact sendContinue_ready h
  · exact ⟨outbox, rfl, h⟩

/-- A turn writes its block, and leaves the writer ready if it has a final response. -/
theorem play_writes (turn : Turn β) {outbox : Outbox} (hready : outbox.Ready) (hidle : outbox.Idle)
    (hencodable : ∀ response, turn.final? = some response →
      response.IsEncodable turn.head.method.isHead) :
    ∃ after : Outbox, after.sink.written = outbox.sink.written ++ turn.block ∧
      ((turn.final? = none ∧ turn.play outbox = turn.unanswered after) ∨
        turn.final? ≠ none ∧ after.Ready ∧ after.Idle ∧
          turn.play outbox = .answered turn.next turn.dispatched turn.feed after) := by
  obtain ⟨invited, hinvite, hinvited⟩ := turn.invite_ready hready
  obtain ⟨hstill, -, hinterim⟩ := invite_eq_ok hidle hinvite
  unfold block play
  rw [hinvite]
  cases hfinal : turn.final? with
  | none =>
      refine ⟨invited, ?_, .inl ⟨rfl, ?_⟩⟩
      · rw [hinterim, Option.map_none, Option.getD_none, List.append_nil]
      · simp only [respond, hfinal]
  | some response =>
      obtain ⟨after, hsent, hafter⟩ := Outbox.sendResponse_ready hinvited (hencodable response hfinal)
      obtain ⟨hlast, hwritten⟩ := Outbox.sendResponse_written hstill hsent
      refine ⟨after, ?_, .inr ⟨by simp, hafter, hlast, ?_⟩⟩
      · rw [hwritten, hinterim, List.append_assoc]
        rfl
      · simp only [respond, hfinal, hsent, answered]

end Turn

/-! All turns. -/

namespace Script

def rejection? : Script β → Option (Status × RequestFault)
  | .stopped _ _ | .last _ _ => none
  | .rejected status fault _ => some (status, fault)
  | .kept _ _ later => later.rejection?

/-- What is written behind all turns. -/
def closing (script : Script β) : Bytes :=
  match script.rejection? with
  | none => []
  | some (status, _) => ((Response.ofStatus status .empty).marked .close .http11).octets false

def IsWaiting : Script β → Prop
  | .stopped outcome _ => outcome = .waiting
  | .rejected _ _ _ => False
  | .last turn _ => ∃ note, turn.course = .stalled note
  | .kept _ _ later => later.IsWaiting

/-- The peer has gone away from this turn, or keeps it waiting. -/
def Abandoned (turn : Turn β) (outcome : Outcome) : Prop :=
  (∃ handled fault left, turn.course = .handled handled (.error fault) left ∧
    fault.isDisconnect = true ∧ outcome = .failed (.request fault)) ∨
  (∃ note, turn.course = .stalled note) ∧ outcome = .waiting

/-- A script that was played to its end. -/
structure Played (script : Script β) (outbox : Outbox) (run : ConnectionRun β) : Prop where
  written : run.written = outbox.sink.written ++ script.turns.flatMap Turn.block ++ script.closing
  dispatched : run.dispatched = script.turns.flatMap Turn.dispatched
  rejected : ∀ status fault, script.rejection? = some (status, fault) →
    run.outcome = .failed (.request fault)
  unanswered : ∀ before turn after, script.turns = before ++ turn :: after → turn.final? = none →
    after = [] ∧ script.rejection? = none ∧ Abandoned turn run.outcome
  waiting : run.outcome = .waiting → script.IsWaiting

theorem played_rejected (status : Status) (fault : RequestFault) (feed : Feed) {outbox : Outbox}
    (hready : outbox.Ready) (hidle : outbox.Idle) :
    (rejected status fault feed : Script β).Played outbox
      ((rejected status fault feed).play outbox) := by
  have hencodable : ((Response.ofStatus status .empty).marked .close .http11).IsEncodable false :=
    ⟨.inr rfl, fun _ _ => List.not_mem_nil, by rintro _ _ ⟨⟩⟩
  obtain ⟨after, hsent, -⟩ := Outbox.sendResponse_ready hready hencodable
  obtain ⟨-, hwritten⟩ := Outbox.sendResponse_written hidle hsent
  simp only [play, reject, hsent]
  refine ⟨?_, rfl, ?_, ?_, by rintro ⟨⟩⟩
  · rw [turns, List.flatMap_nil, List.append_nil]
    exact hwritten
  · rintro _ _ ⟨⟩
    rfl
  · intro before turn after hturns
    simp [turns] at hturns

/-- Where each turn is read, and what is left behind the last one. -/
def feeds (script : Script β) (feed : Feed) : List Feed := feed :: script.turns.map Turn.feed

/-- What the reading half of a connection can come to from here. -/
structure Arises (config : ConnectionConfig) (handler : Handler β) (count : Nat) (feed : Feed)
    (script : Script β) : Prop where
  turns : ∀ (i : Nat) (turn : Turn β), script.turns[i]? = some turn → ∃ before,
    (script.feeds feed)[i]? = some before ∧ turn.Arises config handler (count + i) before
  rejected : ∀ status fault, script.rejection? = some (status, fault) →
    status = statusOf fault ∧ fault.isDisconnect = false ∧ ∃ before after,
      (script.feeds feed).getLast? = some before ∧ before.reader = .start ∧
        before.next = (.fault fault, after)
  waiting : script.IsWaiting → feed.ending = .silence

variable {config : ConnectionConfig} {handler : Handler β} {count : Nat} {feed : Feed}

theorem arises_stopped {outcome : Outcome} {left : Feed}
    (h : outcome = .waiting → feed.ending = .silence) :
    (stopped outcome left : Script β).Arises config handler count feed where
  turns := by
    intro i turn hturn
    simp [Script.turns] at hturn
  rejected := nofun
  waiting := h

theorem arises_last {turn : Turn β} (closes : turn.next = .close)
    (hturn : turn.Arises config handler count feed)
    (hsilence : ∀ note, turn.course = .stalled note → feed.ending = .silence) :
    (last turn closes).Arises config handler count feed where
  turns := by
    intro i other hother
    cases i with
    | zero =>
        obtain rfl : turn = other := Option.some.inj hother
        exact ⟨feed, rfl, hturn⟩
    | succ i => simp [Script.turns] at hother
  rejected := nofun
  waiting := by
    rintro ⟨note, hcourse⟩
    exact hsilence note hcourse

theorem arises_kept {turn : Turn β} (keeps : turn.next = .keepAlive) {later : Script β}
    (hturn : turn.Arises config handler count feed) (hending : turn.feed.ending = feed.ending)
    (hlater : later.Arises config handler (count + 1) turn.feed) :
    (kept turn keeps later).Arises config handler count feed where
  turns := by
    intro i other hother
    cases i with
    | zero =>
        obtain rfl : turn = other := Option.some.inj hother
        exact ⟨feed, rfl, hturn⟩
    | succ i =>
        have hrest := hlater.turns i other hother
        rwa [Nat.add_assoc, Nat.add_comm 1] at hrest
  rejected := hlater.rejected
  waiting := fun hwaiting => hending.symm.trans (hlater.waiting hwaiting)

theorem arises_read (config : ConnectionConfig) (handler : Handler β) {fuel : Nat} (count : Nat)
    {feed : Feed} (hsound : feed.Sound) (hstart : feed.reader = .start)
    (hfuel : feed.unread.length < fuel) :
    (read config handler fuel count feed).Arises config handler count feed := by
  induction fuel generalizing count feed with
  | zero => contradiction
  | succ fuel ih =>
      have hending := Feed.ending_next hsound
      unfold read
      rcases next_of_start hsound hstart with
        ⟨head, size, arrived, hnext, hparsed, hinside⟩ | ⟨hnone, -⟩
      · rw [hnext] at hending ⊢
        simp only
        have hturn : (Turn.take config (handler count) head size arrived).Arises config handler
            count feed := ⟨hstart, hnext, rfl⟩
        unfold andThen
        split
        · next closes =>
          refine arises_last closes hturn ?_
          intro note hcourse
          exact hending.symm.trans (hturn.silence hinside hcourse)
        · next keeps =>
          obtain ⟨hafter, hreader, hlength, hsame⟩ := hturn.received hinside keeps
          obtain ⟨_, _, -, -, hdispatched⟩ := Turn.dispatched_of_keepAlive keeps
          have hless : arrived.unread.length < feed.unread.length :=
            RequestHead.decode_some_length_lt (Parsed.ofInput?_eq_some hparsed)
          refine arises_kept keeps hturn (hsame.trans hending) ?_
          rw [hdispatched]
          -- the head has taken octets, so that the fuel lasts for the turns behind it
          have hbehind := Nat.lt_of_le_of_lt hlength hless
          exact ih (count + 1) hafter hreader (Nat.lt_of_lt_of_le hbehind (Nat.le_of_lt_succ hfuel))
      · rcases hnext : feed.next with ⟨message | fault | _ | _, next⟩
        · exact absurd (by rw [hnext]) (hnone message)
        · simp only
          split
          · exact arises_stopped (by rintro ⟨⟩)
          · next hdisconnect =>
            refine ⟨?_, ?_, by rintro ⟨⟩⟩
            · intro i turn hturn
              simp [Script.turns] at hturn
            · rintro _ _ ⟨⟩
              exact ⟨rfl, by simpa using hdisconnect, feed, next, rfl, hstart, hnext⟩
        · exact arises_stopped (by rintro ⟨⟩)
        · exact arises_stopped fun _ => Feed.silence_of_next hsound hnext

theorem arises_ofInput (config : ConnectionConfig) (handler : Handler β) (segments : List Bytes)
    (ending : Ending) : (ofInput config handler segments ending).Arises config handler 0
      (.start config.readBufferSize segments ending) :=
  arises_read config handler 0 (Feed.sound_start config.readBufferSize segments ending) rfl
    (Nat.lt_succ_self _)

end Script

end Connection

end Turnpike
