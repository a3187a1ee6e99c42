import Turnpike.Proofs.Connection.Departure
import Turnpike.Proofs.Wire.Limits

/-!
The limits on the head of a request, for a connection.  A request beyond them ends it, and its
answer says why; the requests before are answered as ever.
-/

namespace Turnpike

open RequestHead (IsSection Overrun maxSize maxFields)

variable {bytes later : Bytes} {count : Nat} {head : RequestHead} {size : PayloadSize}

namespace Feed

/-- However the reads fall, the section is refused as soon as it shows that it is beyond the limits. -/
theorem next_beyond (h : IsSection bytes count head size)
    (hbeyond : ¬ (bytes.length ≤ maxSize ∧ count ≤ maxFields)) {feed : Feed} (hsound : feed.Sound)
    (hstart : feed.reader = .start) (hunread : feed.unread = bytes ++ later) :
    ∃ fault last, feed.next = (.fault fault, last) ∧ Overrun bytes.length count fault := by
  revert hstart hunread
  refine next_induction (motive := fun feed result => feed.reader = .start →
    feed.unread = bytes ++ later → ∃ fault last, result = (.fault fault, last) ∧
      Overrun bytes.length count fault) ?message ?fault ?more ?ended hsound
  case message =>
    intro feed message next rest _ hdecode hstart hunread
    rw [hstart] at hdecode
    rcases RequestReader.decode_beyond h hbeyond ⟨_, hunread⟩ with ⟨-, hmore⟩ | ⟨_, hrefused, -⟩
    · simp [hdecode] at hmore
    · simp [hdecode] at hrefused
  case fault =>
    intro feed cause next rest _ hdecode hstart hunread
    rw [hstart] at hdecode
    rcases RequestReader.decode_beyond h hbeyond ⟨_, hunread⟩ with
      ⟨-, hmore⟩ | ⟨fault, hrefused, hoverrun⟩
    · simp [hdecode] at hmore
    · rw [hdecode] at hrefused
      obtain rfl := Except.error.inj (Decoded.mk.inj hrefused).1
      exact ⟨cause, _, rfl, hoverrun⟩
  case more =>
    intro feed next rest filled result _ hdecode hfill _ hreader ih hstart hunread
    rw [hstart] at hdecode
    rcases RequestReader.decode_beyond h hbeyond ⟨_, hunread⟩ with ⟨-, hmore⟩ | ⟨_, hrefused, -⟩
    · rw [hdecode] at hmore
      obtain ⟨-, rfl, rfl⟩ := Decoded.mk.inj hmore
      exact ih hreader ((unread_fill? hfill).trans hunread)
    · simp [hdecode] at hrefused
  case ended =>
    intro feed next rest _ hdecode hsegments hstart hunread
    rw [hstart] at hdecode
    rcases RequestReader.decode_beyond h hbeyond ⟨_, hunread⟩ with ⟨hshort, -⟩ | ⟨_, hrefused, -⟩
    · -- nothing more comes, and yet what has come is not all of the section
      rw [unread, hsegments, List.flatten_nil, List.append_nil] at hunread
      rw [hunread, List.length_append] at hshort
      omega
    · simp [hdecode] at hrefused

end Feed

namespace Connection

theorem statusOf_overrun {length : Nat} {fault : RequestFault} (h : Overrun length count fault) :
    statusOf fault = .fieldsTooLarge ∧ fault.isDisconnect = false := by
  cases h <;> exact ⟨rfl, rfl⟩

theorem Script.read_beyond (config : ConnectionConfig) (handler : Handler β)
    (h : IsSection bytes count head size)
    (hbeyond : ¬ (bytes.length ≤ maxSize ∧ count ≤ maxFields)) {feed : Feed} (hsound : feed.Sound)
    (hstart : feed.reader = .start) (hunread : feed.unread = bytes ++ later) (fuel number : Nat) :
    ∃ fault last, read config handler (fuel + 1) number feed = .rejected .fieldsTooLarge fault last ∧
      Overrun bytes.length count fault := by
  obtain ⟨fault, last, hnext, hoverrun⟩ :=
    Feed.next_beyond h hbeyond hsound hstart hunread
  obtain ⟨hstatus, hdisconnect⟩ := statusOf_overrun hoverrun
  refine ⟨fault, last, ?_, hoverrun⟩
  simp only [read, hnext, hdisconnect, Bool.false_eq_true, if_false, hstatus]

/-- What is written to a peer whose request is beyond the limits. -/
def tooLarge : Response := (Response.ofStatus .fieldsTooLarge .empty).marked .close .http11

theorem serve_beyond (config : ConnectionConfig) (handler : Handler β) {segments : List Bytes}
    {ending : Ending} {passed : Nat} (h : IsSection bytes count head size)
    (hbeyond : ¬ (bytes.length ≤ maxSize ∧ count ≤ maxFields))
    (hleaves : Leaves config.keepAlive segments.flatten passed (bytes ++ later))
    (hanswers : ∀ turn ∈ (Script.ofInput config handler segments ending).turns.take passed,
      ∀ response, turn.final? = some response → response.IsEncodable turn.head.method.isHead) :
    let run := serve config handler segments ending none
    let turns := (Script.ofInput config handler segments ending).turns
    turns.length = passed ∧
      run.written = turns.flatMap Turn.block ++ tooLarge.octets false ∧
      ∃ fault, run.outcome = .failed (.request fault) ∧ Overrun bytes.length count fault := by
  intro run turns
  have hrun : run = (Script.ofInput config handler segments ending).play (.start none) :=
    Script.serve_eq_play config handler segments ending none
  obtain ⟨left, feed, hsound, hstart, hunread, -, hleft, hbehind⟩ :=
    Script.behind_read config handler hleaves 0
      (Feed.sound_start config.readBufferSize segments ending) rfl
      (Feed.unread_start config.readBufferSize segments ending) (Nat.lt_succ_self _)
  change Script.Behind passed (Script.ofInput config handler segments ending) _ at hbehind
  obtain ⟨fuel, rfl⟩ : ∃ fuel, left = fuel + 1 := ⟨left - 1, by omega⟩
  obtain ⟨fault, last, hread, hoverrun⟩ :=
    Script.read_beyond config handler h hbeyond hsound hstart hunread fuel (0 + passed)
  rw [hread] at hbehind
  obtain ⟨hturns, hcount⟩ := hbehind.turns_eq
  obtain ⟨after, hready, hidle, hearlier, hwritten, houtcome⟩ :=
    hbehind.play Outbox.ready_start (Outbox.idle_start none) hanswers
  rw [← hrun] at hwritten houtcome
  have hall : turns = turns.take passed := hturns.trans (List.append_nil _)
  have hblocks : after.sink.written = turns.flatMap Turn.block :=
    hearlier.trans (congrArg (·.flatMap Turn.block) hall.symm)
  have hplayed : (Script.rejected .fieldsTooLarge fault last : Script β).Played after _ :=
    Script.played_rejected .fieldsTooLarge fault last hready hidle
  refine ⟨(congrArg List.length hall).trans hcount, ?_, fault, ?_, hoverrun⟩
  · rw [hwritten, hplayed.written, hblocks]
    exact congrArg (· ++ tooLarge.octets false) (List.append_nil _)
  · exact houtcome.trans (hplayed.rejected _ _ rfl)

/-- A request is read, whatever came before it and however it is cut, if its header section is
within the limits.  Otherwise it is refused, with nothing read but what came before it, and a
connection answers so.  And nobody waits for the end of a section that is too large already. -/
theorem head_limits (h : IsSection bytes count head size) :
    (∀ before messages later feeds,
      RequestReader.start.drain before = ⟨messages, none, .start, []⟩ →
      List.flatten feeds = before ++ (bytes ++ later) →
      let read := RequestReader.start.drainFeeds [] feeds
      (bytes.length ≤ maxSize ∧ count ≤ maxFields →
        ∃ more, Message.joined read.messages =
          Message.joined messages ++ .head head size :: more) ∧
      (¬ (bytes.length ≤ maxSize ∧ count ≤ maxFields) →
        Message.joined read.messages = Message.joined messages ∧
          ∃ fault, read.fault = some fault ∧ Overrun bytes.length count fault)) ∧
    (∀ reader next octets rest, RequestReader.body reader = none →
      reader.decode octets = ⟨.ok none, next, rest⟩ → octets.length ≤ maxSize) ∧
    (∀ feeds, let read := RequestReader.start.drainFeeds [] feeds
      read.fault = none → read.reader.body = none → read.rest.length ≤ maxSize) ∧
    ∀ (β : Type) (config : ConnectionConfig) (handler : Handler β) segments ending passed later,
      ¬ (bytes.length ≤ maxSize ∧ count ≤ maxFields) →
      Leaves config.keepAlive (List.flatten segments) passed (bytes ++ later) →
      let turns := (Script.ofInput config handler segments ending).turns
      (∀ turn ∈ turns.take passed, ∀ response, turn.final? = some response →
        response.IsEncodable turn.head.method.isHead) →
      let run := serve config handler segments ending none
      turns.length = passed ∧
        run.written = turns.flatMap Turn.block ++ tooLarge.octets false ∧
        ∃ fault, run.outcome = .failed (.request fault) ∧ Overrun bytes.length count fault := by
  refine ⟨?read, ?waits, ?rests, ?answers⟩
  case read =>
    intro before messages later feeds hbefore hfeeds
    refine ⟨fun hwithin => ?_, fun hbeyond => ?_⟩
    · exact RequestReader.drainFeeds_within h hwithin.1 hwithin.2 hbefore hfeeds
    · exact RequestReader.drainFeeds_beyond h hbeyond hbefore hfeeds
  case waits => exact fun _ _ _ _ hbody hmore => RequestReader.length_le_of_decode hbody hmore
  case rests =>
    intro feeds read hfault hbody
    exact RequestReader.length_le_of_decode hbody (RequestReader.decode_of_drainFeeds feeds hfault)
  case answers =>
    intro β config handler segments ending passed later hbeyond hleaves turns hanswers
    exact serve_beyond config handler h hbeyond hleaves hanswers

theorem head_limits_many_fields :
    let bytes := Bytes.ofText "GET / HTTP/1.1\r\n" ++
      (List.replicate 65 (Bytes.ofText "a:\r\n")).flatten ++ Bytes.ofText "\r\n"
    let handler : Handler Unit := fun _ _ => .done ⟨(), .ok (.ofStatus .ok .empty)⟩
    let feeds := [bytes.take 100, bytes.drop 100]
    let run := serve .standard handler feeds .eof none
    (∃ head size, IsSection bytes 65 head size) ∧ feeds.flatten = [] ++ (bytes ++ []) ∧
      Leaves true feeds.flatten 0 (bytes ++ []) ∧
      (∃ fault, (RequestReader.start.drainFeeds [] feeds).fault = some fault ∧
        Overrun bytes.length 65 fault) ∧
      run.written = Bytes.ofText "HTTP/1.1 431 Request Header Fields Too Large\r\n" ++
        Bytes.ofText "connection: close\r\ncontent-length: 0\r\n\r\n" := by
  intro bytes handler feeds run
  have hfeeds : feeds.flatten = [] ++ (bytes ++ []) := by decide +kernel
  have hsection : ∃ head size, IsSection bytes 65 head size := by decide +kernel
  have hbeyond : ¬ (bytes.length ≤ maxSize ∧ 65 ≤ maxFields) := fun h => absurd h.2 (by decide)
  have hleaves : Leaves true feeds.flatten 0 (bytes ++ []) := hfeeds ▸ .here (bytes ++ [])
  obtain ⟨head, size, h⟩ := hsection
  obtain ⟨hread, -, -, hanswers⟩ := head_limits h
  refine ⟨⟨head, size, h⟩, hfeeds, hleaves, ((hread [] [] [] feeds rfl hfeeds).2 hbeyond).2, ?_⟩
  obtain ⟨hcount, hwritten, -⟩ := hanswers Unit .standard handler feeds .eof 0 [] hbeyond hleaves
    (by simp)
  rw [List.length_eq_zero_iff] at hcount
  rw [hcount] at hwritten
  rw [hwritten]
  decide

end Connection

end Turnpike
