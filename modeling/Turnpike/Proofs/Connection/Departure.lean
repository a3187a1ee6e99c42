import Turnpike.Proofs.Connection.Blocks
import Turnpike.Proofs.Connection.Ended
import Turnpike.Proofs.Payload.Feeding

/-!
A peer that goes away in the middle of a request.  All requests before it are answered as ever; the
one that breaks off is the last, and nobody is answered who has left it unfinished.
-/

namespace Turnpike

open BodyChannel

namespace Connection

/-! Inputs that end inside a request. -/

/-- One request, and nothing behind its body. -/
def IsRequest (bytes : Bytes) : Prop :=
  ∃ parsed, Parsed.ofInput? bytes = some parsed ∧ parsed.body.stop = .eof ∧ parsed.body.rest = []

instance (bytes : Bytes) : Decidable (IsRequest bytes) :=
  decidable_of_iff
    ((Parsed.ofInput? bytes).any (fun parsed =>
      parsed.body.stop == .eof && parsed.body.rest.isEmpty) = true) (by
    simp only [IsRequest, Option.any_eq_true, Bool.and_eq_true, beq_iff_eq, List.isEmpty_iff])

/-- The front of a request, with octets missing. -/
def IsCut (bytes : Bytes) : Prop :=
  bytes ≠ [] ∧ ∃ missing, missing ≠ [] ∧ IsRequest (bytes ++ missing)

theorem IsCut.cases {cut : Bytes} (h : IsCut cut) :
    RequestHead.decode cut = (.ok none, cut) ∨
      ∃ parsed, Parsed.ofInput? cut = some parsed ∧ parsed.body.stop = .more := by
  obtain ⟨-, missing, hmissing, parsed, hparsed, hstop, hrest⟩ := h
  have hwhole := Parsed.ofInput?_eq_some hparsed
  rcases hdecode : RequestHead.decode cut with ⟨fault | _ | ⟨head, size⟩, behind⟩
  · obtain ⟨other, hother⟩ :=
      RequestHead.decode_append_of_error (congrArg Prod.fst hdecode) missing
    rw [hwhole] at hother
    contradiction
  · rw [RequestHead.rest_of_decode_none hdecode]
    exact .inl rfl
  · have hsame := RequestHead.decode_append_of_some hdecode missing
    rw [hwhole] at hsame
    obtain ⟨hfound, hbehind⟩ := Prod.mk.inj hsame
    obtain ⟨rfl, rfl⟩ := Prod.mk.inj (Option.some.inj (Except.ok.inj hfound))
    refine .inr ⟨⟨parsed.head, parsed.size, behind⟩, by simp only [Parsed.ofInput?, hdecode], ?_⟩
    change ((PayloadDecoder.ofSize parsed.size).drain parsed.behind).stop = .eof at hstop
    change ((PayloadDecoder.ofSize parsed.size).drain parsed.behind).rest = [] at hrest
    rw [hbehind] at hstop hrest
    exact PayloadDecoder.stop_of_front (PayloadDecoder.isProper_ofSize parsed.size) hmissing hstop
      hrest

/-- So many requests that are complete and keep the connection, and what is left behind them. -/
inductive Leaves (keepAlive : Bool) : Bytes → Nat → Bytes → Prop
  | here (input : Bytes) : Leaves keepAlive input 0 input
  | behind {input rest : Bytes} {parsed : Parsed} {count : Nat}
      (first : Parsed.ofInput? input = some parsed)
      (met : ∀ value, parsed.head.expectation ≠ .unsupported value)
      (persists : parsed.persists keepAlive = true)
      (later : Leaves keepAlive parsed.body.rest count rest) :
      Leaves keepAlive input (count + 1) rest

/-! Reading up to there. -/

theorem follow_of_complete (activity : Activity (Handled β)) {size : PayloadSize} {feed : Feed}
    (hinside : feed.Inside (.ofSize size))
    (hstop : ((PayloadDecoder.ofSize size).drain feed.unread).stop = .eof) :
    (∃ handled left, (follow activity size feed).1 = .handled handled (.ok ()) left) ∧
      (follow activity size feed).2.unread =
        ((PayloadDecoder.ofSize size).drain feed.unread).rest := by
  obtain ⟨hreached, hstarved⟩ := Feed.reached_run hinside size activity
  have hskipped := Feed.skipped_finish hinside hreached
  unfold follow
  rcases hrun : activity.run (.start (BodyChannel.start size feed)) with ⟨_ | handled, reader⟩
  all_goals rw [hrun] at hstarved hskipped
  · exact absurd hstop (Feed.stop_of_starved hinside (hstarved rfl))
  · rcases hfinish : reader.body.finish with _ | ⟨_ | _, channel⟩
    all_goals rw [hfinish] at hskipped
    · exact absurd hstop hskipped
    · exact absurd hstop hskipped
    · obtain ⟨-, -, -, hrest⟩ := hskipped
      simp only [hfinish]
      exact ⟨⟨handled, _, rfl⟩, hrest.symm⟩

namespace Turn

variable {config : ConnectionConfig} {handler : Handler β} {count : Nat} {before : Feed}
  {turn : Turn β}

def parsed (turn : Turn β) : Parsed := ⟨turn.head, turn.size, turn.arrived.unread⟩

theorem Arises.keepAlive_eq (h : turn.Arises config handler count before) :
    turn.keepAlive = (config.keepAlive && turn.head.keepAlive) :=
  congrArg Turn.keepAlive h.taken

theorem Arises.keeps (h : turn.Arises config handler count before)
    (hinside : turn.arrived.Inside (.ofSize turn.size))
    (hmet : ∀ value, turn.head.expectation ≠ .unsupported value)
    (hpersists : turn.parsed.persists config.keepAlive = true) :
    turn.next = .keepAlive ∧ turn.feed.unread = turn.parsed.body.rest := by
  obtain ⟨hkeep, hstop⟩ := Bool.and_eq_true_iff.mp hpersists
  rcases h.course_cases with ⟨value, hunmet, -⟩ | ⟨-, hcourse, hfeed⟩
  · exact absurd hunmet (hmet value)
  · obtain ⟨⟨handled, left, hhandled⟩, hrest⟩ :=
      follow_of_complete (handler count turn.head) hinside (beq_iff_eq.mp hstop)
    refine ⟨?_, ?_⟩
    · simp only [next, hcourse, hhandled]
      rw [h.keepAlive_eq]
      exact if_pos hkeep
    · rw [hfeed]
      exact hrest

end Turn

namespace Script

/-- What a script comes to behind so many turns that keep the connection. -/
inductive Behind : Nat → Script β → Script β → Prop
  | here (script : Script β) : Behind 0 script script
  | kept {turn : Turn β} (keeps : turn.next = .keepAlive) {later last : Script β} {count : Nat}
      (rest : Behind count later last) : Behind (count + 1) (.kept turn keeps later) last

theorem Behind.turns_eq {count : Nat} {script last : Script β} (h : Behind count script last) :
    script.turns = script.turns.take count ++ last.turns ∧
      (script.turns.take count).length = count := by
  induction h with
  | here => exact ⟨rfl, rfl⟩
  | kept keeps _ ih =>
      simp only [turns, List.take_succ_cons, List.cons_append, List.length_cons]
      exact ⟨congrArg _ ih.1, congrArg Nat.succ ih.2⟩

/-- The turns behind which it goes on are answered, one after another, if they can be. -/
theorem Behind.play {count : Nat} {script last : Script β} (h : Behind count script last)
    {outbox : Outbox} (hready : outbox.Ready) (hidle : outbox.Idle)
    (hencodable : ∀ turn ∈ script.turns.take count, ∀ response, turn.final? = some response →
      response.IsEncodable turn.head.method.isHead) :
    ∃ after : Outbox, after.Ready ∧ after.Idle ∧
      after.sink.written =
        outbox.sink.written ++ (script.turns.take count).flatMap Turn.block ∧
      (script.play outbox).written = (last.play after).written ∧
      (script.play outbox).outcome = (last.play after).outcome := by
  induction h generalizing outbox with
  | here script =>
      refine ⟨outbox, hready, hidle, ?_, rfl, rfl⟩
      rw [List.take_zero, List.flatMap_nil, List.append_nil]
  | @kept turn keeps later last count rest ih =>
      obtain ⟨middle, hwritten, ⟨hnone, -⟩ | ⟨-, hmiddle, hstill, hplay⟩⟩ :=
        turn.play_writes hready hidle (hencodable turn (by simp [turns]))
      · exact absurd hnone (Turn.final?_ne_none keeps)
      · obtain ⟨after, hafter, hlast, hblocks, hall, houtcome⟩ :=
          ih hmiddle hstill fun other hother => hencodable other (by simp [turns, hother])
        refine ⟨after, hafter, hlast, ?_, ?_, ?_⟩
        · rw [hblocks, hwritten, turns, List.take_succ_cons, List.flatMap_cons, List.append_assoc]
        · simp only [Script.play, hplay, goOn]
          exact hall
        · simp only [Script.play, hplay, goOn]
          exact houtcome

theorem behind_read (config : ConnectionConfig) (handler : Handler β) {input rest : Bytes}
    {passed : Nat} (hleaves : Leaves config.keepAlive input passed rest) {fuel : Nat} (count : Nat)
    {feed : Feed} (hsound : feed.Sound) (hstart : feed.reader = .start) (hinput : feed.unread = input)
    (hfuel : feed.unread.length < fuel) :
    ∃ (left : Nat) (after : Feed), after.Sound ∧ after.reader = .start ∧ after.unread = rest ∧
      after.ending = feed.ending ∧ rest.length < left ∧
      Behind passed (read config handler fuel count feed)
        (read config handler left (count + passed) after) := by
  induction hleaves generalizing fuel count feed with
  | here input => exact ⟨fuel, feed, hsound, hstart, hinput, rfl, hinput ▸ hfuel, .here _⟩
  | @behind input rest parsed passed hfirst hmet hpersists _ ih =>
      cases fuel with
      | zero => contradiction
      | succ fuel =>
          subst hinput
          rcases next_of_start hsound hstart with
            ⟨head, size, arrived, hnext, hparsed, hinside⟩ | ⟨-, hnone⟩
          · obtain rfl := Option.some.inj (hparsed.symm.trans hfirst)
            have hending := Feed.ending_next hsound
            rw [hnext] at hending
            have hturn : (Turn.take config (handler count) head size arrived).Arises config handler
                count feed := ⟨hstart, hnext, rfl⟩
            obtain ⟨hkeeps, hunread⟩ := hturn.keeps hinside hmet hpersists
            obtain ⟨hafter, hreader, hlength, hsame⟩ := hturn.received hinside hkeeps
            obtain ⟨_, _, -, -, hdispatched⟩ := Turn.dispatched_of_keepAlive hkeeps
            have hless : arrived.unread.length < feed.unread.length :=
              RequestHead.decode_some_length_lt (Parsed.ofInput?_eq_some hparsed)
            obtain ⟨left, last, hlast, hstill, hrest, hended, hleft, hbehind⟩ :=
              ih (count + 1) hafter hreader hunread
                (Nat.lt_of_lt_of_le (Nat.lt_of_le_of_lt hlength hless) (Nat.le_of_lt_succ hfuel))
            refine ⟨left, last, hlast, hstill, hrest, (hended.trans hsame).trans hending, hleft, ?_⟩
            have hread : read config handler (fuel + 1) count feed =
                .kept (Turn.take config (handler count) head size arrived) hkeeps
                  (read config handler fuel (count + 1)
                    (Turn.take config (handler count) head size arrived).feed) := by
              rw [read, hnext]
              simp only [hdispatched, List.length_singleton, andThen]
              split
              · next hclose =>
                rw [hkeeps] at hclose
                contradiction
              · rfl
            rw [hread, ← Nat.add_assoc, Nat.add_right_comm]
            exact .kept hkeeps hbehind
          · rw [hnone] at hfirst
            contradiction

end Script

/-! The request that breaks off. -/

/-- The sender comes upon the end of the input while it serves the handler. -/
def Notices (activity : Activity (Handled β)) (size : PayloadSize) (feed : Feed) : Prop :=
  ∃ sender, (activity.run (.start (BodyChannel.start size feed))).2.body.sender = some sender ∧
    sender.broken = true

theorem follow_of_cut (activity : Activity (Handled β)) {size : PayloadSize} {feed : Feed}
    (hinside : feed.Inside (.ofSize size))
    (hstop : ((PayloadDecoder.ofSize size).drain feed.unread).stop = .more)
    (hgone : feed.ending.IsGone) :
    ∃ handled fault left, (follow activity size feed).1 = .handled handled (.error fault) left ∧
      (Notices activity size feed ∨ fault.isDisconnect = true) := by
  obtain ⟨hreached, hstarved⟩ := Feed.reached_run hinside size activity
  obtain ⟨sender, hsender, hfound⟩ := Feed.finish_of_more hinside hreached hstop hgone
  have hskipped := Feed.skipped_finish hinside hreached
  have hwaits := (Feed.finish_ending hinside hreached).1
  unfold follow
  rcases hrun : activity.run (.start (BodyChannel.start size feed)) with ⟨_ | handled, reader⟩
  all_goals rw [hrun] at hstarved hsender hfound hskipped hwaits
  · exact absurd (Feed.silence_of_starved hinside (hstarved rfl)) hgone.ne_silence
  · rcases hfinish : reader.body.finish with _ | ⟨fault | _, channel⟩
    all_goals rw [hfinish] at hskipped
    · exact absurd (hwaits hfinish) hgone.ne_silence
    · refine ⟨handled, fault, unreadBody channel, by simp only [hfinish], ?_⟩
      rcases hfound with hbroken | ⟨found, next, hfound, hdisconnect⟩
      · exact .inl ⟨sender, by rw [hrun]; exact hsender, hbroken⟩
      · simp only [hfinish, Option.some.injEq, Prod.mk.injEq, Except.error.injEq] at hfound
        rw [hfound.1]
        exact .inr hdisconnect
    · obtain ⟨-, -, heof, -⟩ := hskipped
      rw [hstop] at heof
      contradiction

namespace Turn

variable {config : ConnectionConfig} {handler : Handler β} {count : Nat} {before : Feed}
  {turn : Turn β}

/-- What comes of a request that breaks off: it is refused unseen, or served until the input ends. -/
inductive Abandoned (handler : RequestHead → Activity (Handled β)) (turn : Turn β) : Prop where
  | refused {value : Bytes} (unmet : turn.head.expectation = .unsupported value)
      (course : turn.course = .refused value)
  | served {handled : Handled β} {fault : RequestFault} {left : ResponseBody}
      (met : ∀ value, turn.head.expectation ≠ .unsupported value)
      (course : turn.course = .handled handled (.error fault) left)
      (found : Notices (handler turn.head) turn.size turn.arrived ∨ fault.isDisconnect = true)

theorem Arises.abandoned (h : turn.Arises config handler count before)
    (hinside : turn.arrived.Inside (.ofSize turn.size)) (hstop : turn.parsed.body.stop = .more)
    (hgone : turn.arrived.ending.IsGone) : turn.Abandoned (handler count) := by
  rcases h.course_cases with ⟨value, hunmet, hcourse⟩ | ⟨hmet, hcourse, -⟩
  · exact .refused hunmet hcourse
  · obtain ⟨handled, fault, left, hhandled, hfound⟩ :=
      follow_of_cut (handler count turn.head) hinside hstop hgone
    exact .served hmet (hcourse.trans hhandled) hfound

theorem Abandoned.next_eq {handler : RequestHead → Activity (Handled β)}
    (h : turn.Abandoned handler) : turn.next = .close := by
  cases h with
  | refused _ course => simp only [next, course]
  | served _ course _ => simp only [next, course]

end Turn

namespace Script

variable (config : ConnectionConfig) (handler : Handler β) {feed : Feed}

theorem read_of_cut_head (hsound : feed.Sound) (hstart : feed.reader = .start)
    (hdecode : RequestHead.decode feed.unread = (.ok none, feed.unread)) (hsome : feed.unread ≠ [])
    (hgone : feed.ending.IsGone) (fuel count : Nat) :
    ∃ (last : Feed), (feed.ending = .eof ∧ read config handler (fuel + 1) count feed =
        .rejected .badRequest Feed.bytesRemaining last) ∨
      ∃ cause : IoFault, feed.ending = .fault cause ∧ cause.kind.isDisconnect = true ∧
        read config handler (fuel + 1) count feed =
          .stopped (.failed (.request (.io cause))) last := by
  have hmore : feed.reader.decode feed.unread = ⟨.ok none, .start, feed.unread⟩ := by
    rw [hstart]
    exact RequestReader.decode_head_more hdecode
  obtain ⟨last, hnext, hbuffer, hending⟩ := Feed.next_of_more hsound hmore
  have hfull : last.buffer.isEmpty = false := by simpa [hbuffer] using hsome
  refine ⟨last, ?_⟩
  cases hcase : feed.ending with
  | eof =>
      refine .inl ⟨rfl, ?_⟩
      have harrival : last.arrivalAtEnd = .fault Feed.bytesRemaining := by
        simp [Feed.arrivalAtEnd, hending, hcase, hfull]
      simp only [read, hnext, harrival]
      rfl
  | fault cause =>
      rw [hcase] at hgone
      refine .inr ⟨cause, rfl, hgone, ?_⟩
      have harrival : last.arrivalAtEnd = .fault (.io cause) := by
        simp only [Feed.arrivalAtEnd, hending, hcase]
      have hdisconnect : (RequestFault.io cause).isDisconnect = true := hgone
      simp only [read, hnext, harrival, hdisconnect, if_true]
  | silence =>
      rw [hcase] at hgone
      exact absurd rfl hgone.ne_silence

theorem read_of_cut_body (hsound : feed.Sound) (hstart : feed.reader = .start) {parsed : Parsed}
    (hparsed : Parsed.ofInput? feed.unread = some parsed) (hstop : parsed.body.stop = .more)
    (hgone : feed.ending.IsGone) (fuel count : Nat) :
    ∃ (turn : Turn β) (closes : turn.next = .close),
      read config handler (fuel + 1) count feed = .last turn closes ∧ turn.parsed = parsed ∧
        turn.Abandoned (handler count) := by
  rcases next_of_start hsound hstart with
    ⟨head, size, arrived, hnext, hfound, hinside⟩ | ⟨-, hnone⟩
  · obtain rfl := Option.some.inj (hfound.symm.trans hparsed)
    have hending := Feed.ending_next hsound
    rw [hnext] at hending
    have hturn : (Turn.take config (handler count) head size arrived).Arises config handler count
        feed := ⟨hstart, hnext, rfl⟩
    have habandoned := hturn.abandoned hinside hstop (hending ▸ hgone)
    have hcloses := habandoned.next_eq
    refine ⟨_, hcloses, ?_, rfl, habandoned⟩
    rw [read, hnext]
    simp only [andThen]
    split
    · rfl
    · next hkeeps =>
      rw [hcloses] at hkeeps
      contradiction
  · rw [hnone] at hparsed
    contradiction

end Script

theorem Script.Arises.isEncodable {config : ConnectionConfig} {handler : Handler β} {count : Nat}
    {feed : Feed} {script : Script β} (h : script.Arises config handler count feed)
    (hencodable : handler.IsEncodable) :
    ∀ turn ∈ script.turns, ∀ response, turn.final? = some response →
      response.IsEncodable turn.head.method.isHead := by
  intro turn hturn response hfinal
  obtain ⟨i, hi⟩ := List.mem_iff_getElem?.mp hturn
  obtain ⟨before, -, harises⟩ := h.turns i turn hi
  exact harises.isEncodable hencodable hfinal

/-- What becomes of a request that breaks off, behind what was written before it.  An unknown
expectation is refused without a look at the body.  Nobody is answered who was found gone behind the
handler's back; what is written when the sender found out while it served the handler is left open. -/
structure BreaksOff (handler : RequestHead → Activity (Handled β)) (turn : Turn β) (earlier : Bytes)
    (run : ConnectionRun β) : Prop where
  refused : ∀ value, turn.head.expectation = .unsupported value →
    ∃ response : Response, response.head.status = .expectationFailed ∧ run.outcome = .closed ∧
      run.written = earlier ++ response.octets turn.head.method.isHead
  unnoticed : (∀ value, turn.head.expectation ≠ .unsupported value) →
    ¬ Notices (handler turn.head) turn.size turn.arrived →
    ∃ fault, run.outcome = .failed (.request fault) ∧ fault.isDisconnect = true ∧
      run.written = earlier ++ turn.interim

theorem breaksOff_play {handler : RequestHead → Activity (Handled β)} {turn : Turn β}
    (h : turn.Abandoned handler) (closes : turn.next = .close) {outbox : Outbox}
    (hready : outbox.Ready) (hidle : outbox.Idle) :
    BreaksOff handler turn outbox.sink.written ((Script.last turn closes).play outbox) := by
  cases h with
  | @refused value hunmet hrefused =>
      have hfinal : turn.final? =
          some ((Response.unknownExpectation value).marked turn.next turn.head.version) := by
        simp only [Turn.final?, Turn.plain?, hrefused, Option.map_some]
      have hblock : turn.block = ((Response.unknownExpectation value).marked turn.next
          turn.head.version).octets turn.head.method.isHead := by
        simp [Turn.block, Turn.interim, Turn.isAwaited, hunmet, hfinal]
      obtain ⟨after, hwritten, hplay⟩ := turn.play_writes hready hidle fun response hsome => by
        obtain rfl := Option.some.inj (hfinal.symm.trans hsome)
        exact (Response.isEncodable_ofBytes rfl rfl _).marked _ _
      obtain ⟨-, -, -, hplay⟩ := hplay.resolve_left fun hnone => by simp [hfinal] at hnone
      refine ⟨fun _ _ => ?_, fun hmet => absurd hunmet (hmet value)⟩
      refine ⟨(Response.unknownExpectation value).marked turn.next turn.head.version, rfl, ?_, ?_⟩
      · simp only [Script.play, hplay, goOn]
      · simp only [Script.play, hplay, goOn]
        rw [← hblock, ← hwritten]
        rfl
  | @served handled fault left hmet hhandled hfound =>
      refine ⟨fun value hunmet => absurd hunmet (hmet value), fun _ hunnoticed => ?_⟩
      have hdisconnect := hfound.resolve_left hunnoticed
      have hfinal : turn.final? = none := by
        simp only [Turn.final?, Turn.plain?, hhandled, hdisconnect, if_true, Option.map_none]
      have hblock : turn.block = turn.interim := by
        simp [Turn.block, hfinal]
      obtain ⟨after, hwritten, hplay⟩ := turn.play_writes hready hidle fun response hsome => by
        rw [hfinal] at hsome
        contradiction
      obtain ⟨-, hplay⟩ := hplay.resolve_right fun hsome => hsome.1 hfinal
      refine ⟨fault, ?_, hdisconnect, ?_⟩
      · simp only [Script.play, hplay, Turn.unanswered, hhandled, goOn]
      · simp only [Script.play, hplay, Turn.unanswered, hhandled, goOn]
        rw [← hblock, ← hwritten]
        rfl

theorem outcome_of_rejected (status : Status) (fault : RequestFault) (feed : Feed) {outbox : Outbox}
    (hready : outbox.Ready) (hidle : outbox.Idle) :
    ((Script.rejected status fault feed : Script β).play outbox).outcome =
      .failed (.request fault) :=
  (Script.played_rejected status fault feed hready hidle).rejected status fault rfl

/-- An input that ends inside a request leads to it: the requests before are answered, and it is the
last.  Where a header section ends with a fault of the transport, or a body with the input, the
connection says that the peer has gone away and leaves the request without a final response. -/
theorem serve_cut_short (config : ConnectionConfig) (handler : Handler β) {segments : List Bytes}
    {ending : Ending} (hgone : ending.IsGone) {passed : Nat} {cut : Bytes}
    (hleaves : Leaves config.keepAlive segments.flatten passed cut) (hcut : IsCut cut)
    (hanswers : ∀ turn ∈ (Script.ofInput config handler segments ending).turns.take passed,
      ∀ response, turn.final? = some response → response.IsEncodable turn.head.method.isHead) :
    let run := serve config handler segments ending none
    let turns := (Script.ofInput config handler segments ending).turns
    let earlier := (turns.take passed).flatMap Turn.block
    (turns.length = passed ∧ Parsed.ofInput? cut = none ∧
      ∃ fault, run.outcome = .failed (.request fault) ∧
        (ending ≠ .eof → fault.isDisconnect = true ∧ run.written = earlier)) ∨
    ∃ turn, turns.length = passed + 1 ∧ turns[passed]? = some turn ∧
      Parsed.ofInput? cut = some turn.parsed ∧ BreaksOff (handler passed) turn earlier run := by
  intro run turns earlier
  have hrun : run = (Script.ofInput config handler segments ending).play (.start none) :=
    Script.serve_eq_play config handler segments ending none
  obtain ⟨left, feed, hsound, hstart, hunread, hending, hleft, hbehind⟩ :=
    Script.behind_read config handler hleaves 0
      (Feed.sound_start config.readBufferSize segments ending) rfl
      (Feed.unread_start config.readBufferSize segments ending) (Nat.lt_succ_self _)
  change Script.Behind passed (Script.ofInput config handler segments ending) _ at hbehind
  obtain ⟨fuel, rfl⟩ : ∃ fuel, left = fuel + 1 := ⟨left - 1, by omega⟩
  obtain ⟨hturns, hcount⟩ := hbehind.turns_eq
  obtain ⟨after, hready, hidle, hearlier, hwritten, houtcome⟩ :=
    hbehind.play Outbox.ready_start (Outbox.idle_start none) hanswers
  have hearlier : after.sink.written = earlier := hearlier
  rw [← hrun] at hwritten houtcome
  rw [Nat.zero_add] at hturns hwritten houtcome
  change turns = turns.take passed ++ _ at hturns
  have hgone : feed.ending.IsGone := hending ▸ hgone
  subst hunread
  rcases hcut.cases with hdecode | ⟨parsed, hparsed, hstop⟩
  · have hnone : Parsed.ofInput? feed.unread = none := by
      simp only [Parsed.ofInput?, hdecode]
    refine .inl ?_
    obtain ⟨last, ⟨heof, hread⟩ | ⟨cause, hfault, hdisconnect, hread⟩⟩ :=
      Script.read_of_cut_head config handler hsound hstart hdecode hcut.1 hgone fuel passed
    all_goals
      rw [hread] at hturns hwritten houtcome
      have hlength := congrArg List.length hturns
      simp only [Script.turns, List.append_nil] at hlength
    · refine ⟨hlength.trans hcount, hnone, Feed.bytesRemaining, ?_, ?_⟩
      · exact houtcome.trans (outcome_of_rejected _ _ _ hready hidle)
      · exact fun hnot => absurd (hending.symm.trans heof) hnot
    · refine ⟨hlength.trans hcount, hnone, .io cause, houtcome, fun _ => ⟨hdisconnect, ?_⟩⟩
      exact hwritten.trans hearlier
  · obtain ⟨turn, closes, hread, rfl, habandoned⟩ :=
      Script.read_of_cut_body config handler hsound hstart hparsed hstop hgone fuel passed
    rw [hread] at hturns hwritten houtcome
    simp only [Script.turns] at hturns
    have hlast : turns[passed]? = some turn := by
      rw [hturns, List.getElem?_append_right (Nat.le_of_eq hcount), hcount, Nat.sub_self]
      rfl
    have hbreaks := breaksOff_play habandoned closes hready hidle
    rw [hearlier] at hbreaks
    refine .inr ⟨turn, ?_, hlast, hparsed, ?_⟩
    · rw [hturns, List.length_append, hcount, List.length_singleton]
    · refine ⟨fun value hunmet => ?_, fun hmet hunnoticed => ?_⟩
      · obtain ⟨response, hstatus, hclosed, hblocks⟩ := hbreaks.refused value hunmet
        exact ⟨response, hstatus, houtcome.trans hclosed, hwritten.trans hblocks⟩
      · obtain ⟨fault, hfailed, hdisconnect, hblocks⟩ := hbreaks.unnoticed hmet hunnoticed
        exact ⟨fault, houtcome.trans hfailed, hdisconnect, hwritten.trans hblocks⟩

theorem serve_cut_short_second_of_two :
    let handler : Handler Unit := fun _ _ => .done ⟨(), .error "out of order"⟩
    let cut := Bytes.ofText "POST /b HTTP/1.1\r\nContent-Length: 5\r\n\r\nwor"
    let segments := [Bytes.ofText "POST /a HTTP/1.1\r\nContent-Length: 2\r\n\r\nhi", cut]
    let run := serve .standard handler segments .eof none
    let turns := (Script.ofInput .standard handler segments .eof).turns
    let earlier := (turns.take 1).flatMap Turn.block
    (∀ turn ∈ turns.take 1, ∀ response, turn.final? = some response →
        response.IsEncodable turn.head.method.isHead) ∧
      Ending.IsGone .eof ∧ Leaves true segments.flatten 1 cut ∧ IsCut cut ∧
      (∃ turn, turns[1]? = some turn ∧ BreaksOff (handler 1) turn earlier run) ∧
      run.outcome = .failed (.request .incompleteBody) ∧ run.written = earlier := by
  intro handler cut segments run turns earlier
  have hencodable : handler.IsEncodable := by
    intro count head size feed handled reader received channel hrun _
    have hhandled : handled = ⟨(), .error "out of order"⟩ :=
      (Option.some.inj (congrArg Prod.fst hrun)).symm
    subst hhandled
    exact ⟨.inr rfl, fun _ _ => nofun, fun _ _ => nofun⟩
  have hleaves : Leaves true segments.flatten 1 cut := by
    have hfirst : (Parsed.ofInput? segments.flatten).map (fun parsed =>
        (parsed.head.expectation, parsed.persists true, parsed.body.rest)) =
          some (.nothing, true, cut) := by decide +kernel
    obtain ⟨parsed, hparsed, hfacts⟩ := Option.map_eq_some_iff.mp hfirst
    obtain ⟨hnothing, hpersists, hrest⟩ := (by simpa only [Prod.mk.injEq] using hfacts :
      parsed.head.expectation = .nothing ∧ parsed.persists true = true ∧ parsed.body.rest = cut)
    refine .behind hparsed ?_ hpersists ?_
    · rw [hnothing]
      exact fun _ => nofun
    · rw [hrest]
      exact .here cut
  have hcut : IsCut cut := ⟨by decide, Bytes.ofText "ld", by decide, by decide +kernel⟩
  have hparsed : Parsed.ofInput? cut ≠ none := by decide +kernel
  have hanswers : ∀ turn ∈ turns.take 1, ∀ response, turn.final? = some response →
      response.IsEncodable turn.head.method.isHead := fun turn hturn =>
    (Script.arises_ofInput .standard handler segments .eof).isEncodable hencodable turn
      (List.mem_of_mem_take hturn)
  have hgone : Ending.IsGone .eof := trivial
  refine ⟨hanswers, hgone, hleaves, hcut, ?_, by decide +kernel, by decide +kernel⟩
  rcases serve_cut_short .standard handler hgone hleaves hcut hanswers with
    ⟨-, hnone, -⟩ | ⟨turn, -, hturn, -, hbreaks⟩
  · exact absurd hnone hparsed
  · exact ⟨turn, hturn, hbreaks⟩

/-- An expectation that nobody knows is refused before the body is looked at, and the connection is
closed as if all had come. -/
theorem serve_cut_short_refused :
    let handler : Handler Unit := fun _ _ => .done ⟨(), .ok (.ofStatus .ok .empty)⟩
    let cut := Bytes.ofText "POST / HTTP/1.1\r\nExpect: magic\r\nContent-Length: 10\r\n\r\nabc"
    let run := serve .standard handler [cut] .eof none
    IsCut cut ∧ run.outcome = .closed ∧
      run.written = Bytes.ofText "HTTP/1.1 417 Expectation Failed\r\n" ++
        Bytes.ofText "content-type: text/plain; charset=utf-8\r\nconnection: close\r\n" ++
        Bytes.ofText "content-length: 21\r\n\r\nUnknown Expect: magic" := by
  intro handler cut run
  exact ⟨⟨by decide, Bytes.ofText "defghij", by decide, by decide +kernel⟩, by decide +kernel,
    by decide +kernel⟩

end Connection

end Turnpike
