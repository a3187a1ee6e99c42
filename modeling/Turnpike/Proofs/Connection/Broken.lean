import Turnpike.Proofs.Connection.Ended
import Turnpike.Proofs.Connection.Hearing
import Turnpike.Proofs.Payload.Acceptance

/-!
A body that breaks off, to a handler that reads on.  All data that has come is heard first, then the
fault that stands behind it, once, and from then on the end.
-/

namespace Turnpike

open BodyChannel Octet

namespace Feed

theorem next_of_fault {feed : Feed} (hsound : feed.Sound) {fault : RequestFault}
    {after : RequestReader} {rest : Bytes}
    (hfault : feed.reader.decode feed.unread = ⟨.error fault, after, rest⟩)
    (hbody : after.body ≠ none) : ∃ last, feed.next = (.fault fault, last) := by
  revert hfault
  refine next_induction (motive := fun feed result =>
    feed.reader.decode feed.unread = ⟨.error fault, after, rest⟩ → ∃ last, result = (.fault fault, last))
    ?message ?fault ?more ?ended hsound
  case message =>
    intro feed message next left _ hdecode hfault
    rcases RequestReader.decode_append_of_message hdecode feed.segments.flatten with
      hsame | ⟨-, _, _, _, _, -, -, hboth⟩
    · rw [unread, hsame] at hfault
      simp at hfault
    · rw [unread, hboth] at hfault
      simp at hfault
  case fault =>
    intro feed cause next left _ hdecode hfault
    obtain ⟨other, beyond, hother, hsame⟩ :=
      RequestReader.decode_append_of_fault hdecode feed.segments.flatten
    rw [unread, hother] at hfault
    obtain ⟨hcause, rfl, -⟩ := Decoded.mk.inj hfault
    obtain rfl := Except.error.inj hcause
    obtain rfl := hsame hbody
    exact ⟨_, rfl⟩
  case more =>
    intro feed next left filled result _ hdecode hfill _ hreader ih hfault
    exact ih ((decode_unread_of_fill? hdecode hfill hreader).symm.trans hfault)
  case ended =>
    intro feed next left _ hdecode hsegments hfault
    rw [decode_unread_of_ended hdecode hsegments] at hfault
    simp at hfault

variable {feed state : Feed} {decoder after : PayloadDecoder} {cause : RequestFault}

theorem pull_of_fault (h : feed.Inside decoder) {rest : Bytes}
    (hfault : decoder.decode feed.unread = ⟨.error cause, after, rest⟩) :
    ∃ last, pull feed = some (.error cause, last) := by
  have hreader : feed.reader.decode feed.unread = ⟨.error cause, ⟨some after⟩, rest⟩ := by
    rw [h.reader, RequestReader.decode_body, hfault]
    rfl
  obtain ⟨last, hnext⟩ := next_of_fault h.sound hreader (by simp)
  refine ⟨last, ?_⟩
  change feed.pullItem = _
  rw [pullItem, hnext]

/-- What breaks a body off: its own framing, or an input that is at its end too soon. -/
def Breaks (feed : Feed) (decoder : PayloadDecoder) (cause : RequestFault) : Prop :=
  (decoder.drain feed.unread).stop = .fault cause ∨
    (decoder.drain feed.unread).stop = .more ∧ feed.ending = .eof ∧ cause = .incompleteBody

theorem Breaks.stop_ne_eof (h : feed.Breaks decoder cause) :
    (decoder.drain feed.unread).stop ≠ .eof := by
  rcases h with hfault | ⟨hmore, -⟩
  · simp [hfault]
  · simp [hmore]

theorem Breaks.of_between {pieces : List Delivery} (h : feed.Breaks decoder cause)
    (hbetween : feed.Between decoder pieces state after) (hending : state.ending = feed.ending) :
    state.Breaks after cause := by
  unfold Breaks
  rw [← hbetween.stop, hending]
  exact h

/-- Where no piece is pulled, there is no data left, and the cause comes to light. -/
theorem Breaks.pull_eq (h : feed.Breaks decoder cause) (hinside : feed.Inside decoder)
    (hpull : ∀ item next, pull feed ≠ some (.ok item, next)) :
    (decoder.drain feed.unread).chunks = [] ∧ ∃ next, pull feed = some (.error cause, next) := by
  unfold Breaks at h
  rcases hdecode : decoder.decode feed.unread with ⟨fault | _ | item, after, rest⟩
  · rw [PayloadDecoder.drain_of_fault hdecode] at h ⊢
    obtain rfl : fault = cause := by simpa using h
    exact ⟨rfl, pull_of_fault hinside hdecode⟩
  · rw [PayloadDecoder.drain_of_more hdecode] at h ⊢
    obtain ⟨-, hending, rfl⟩ := h.resolve_left nofun
    obtain ⟨last, hlast⟩ := pull_of_more hinside hdecode
    rw [hending] at hlast
    exact ⟨rfl, last, hlast⟩
  · exact absurd hdecode (decode_of_pull hinside hpull item after rest)

theorem Breaks.not_starved (h : feed.Breaks decoder cause) (hinside : feed.Inside decoder) :
    ¬ Starved feed := by
  rintro ⟨pieces, state, hpulls, hpieces, hpull⟩
  obtain ⟨after, hbetween⟩ := between_of_pulls hinside hpulls hpieces
  have hbreaks := h.of_between hbetween (ending_of_pulls hinside hpulls hpieces)
  obtain ⟨-, last, hlast⟩ := hbreaks.pull_eq hbetween.inside (by simp [hpull])
  rw [hpull] at hlast
  contradiction

/-- A fault that is pulled is the cause, and stands behind all of the data. -/
theorem Breaks.of_pulls {pieces : List Delivery} {fault : RequestFault}
    (h : feed.Breaks decoder cause) (hinside : feed.Inside decoder)
    (hpulls : Pulls feed (pieces ++ [.error fault]) state)
    (hpieces : ∀ piece ∈ pieces, isLast piece = false) :
    fault = cause ∧ (decoder.drain feed.unread).chunks.flatten = octets pieces := by
  obtain ⟨middle, hbefore, hpull⟩ := exists_pull_of_pulls_concat hpulls
  obtain ⟨after, hbetween⟩ := between_of_pulls hinside hbefore hpieces
  have hbreaks := h.of_between hbetween (ending_of_pulls hinside hbefore hpieces)
  obtain ⟨hchunks, last, hlast⟩ := hbreaks.pull_eq hbetween.inside (by simp [hpull])
  rw [hpull] at hlast
  refine ⟨by simpa using congrArg (Option.map Prod.fst) hlast, ?_⟩
  rw [hbetween.data, hchunks, List.flatten_nil, List.append_nil]

end Feed

namespace BodyReader

variable {size : PayloadSize} {feed : Feed} {taken : Bytes} {reader next : BodyReader (BodyChannel Feed)}
  {cause fault : RequestFault}

/-- What a fault tells: the cause, and that all of the data has been taken. -/
def TellsCause (size : PayloadSize) (feed : Feed) (taken : Bytes) (cause fault : RequestFault) : Prop :=
  fault = forwarded cause ∧ ((PayloadDecoder.ofSize size).drain feed.unread).chunks.flatten = taken

theorem Midway.tellsCause_of_poll (h : Midway size feed taken reader)
    (hinside : feed.Inside (.ofSize size)) (hbreaks : feed.Breaks (.ofSize size) cause)
    (hpoll : reader.poll = (.ready (some (.error fault)), next)) :
    TellsCause size feed taken cause fault := by
  obtain ⟨receiver, hreceiver, hopen⟩ := h.receiver
  obtain ⟨exchange, sender, hsound, hchannel, rfl⟩ := h.exchange
  rw [← hchannel] at hreceiver
  have hreader : ∀ {found body}, exchange.channel.poll = (found, body) →
      reader.poll = polled found body := by
    rw [hchannel]
    exact poll_of_body h.finished
  cases hasks : receiver.finished || receiver.size.isEmpty with
  | true =>
      have hclosed : ∀ other, exchange.channel.receiver = some other →
          (other.finished || other.size.isEmpty) = true := by
        intro other hother
        obtain rfl := Option.some.inj (hreceiver.symm.trans hother)
        exact hasks
      rw [hreader (poll_of_closed hclosed)] at hpoll
      simp [polled] at hpoll
  | false =>
      rcases poll_of_open hreceiver hasks hsound.present with
        ⟨-, -, hpending⟩ | ⟨-, hpending⟩ | ⟨delivery, items, hitems, hready⟩
      · rw [hreader hpending] at hpoll
        simp [polled] at hpoll
      · rw [hreader hpending] at hpoll
        simp [polled] at hpoll
      · rw [hreader hready] at hpoll
        obtain rfl : delivery = .error fault := by
          rcases delivery with _ | _ | _ <;> simp_all [polled, answer]
        obtain ⟨pieces, last, hpieces, hpulled, hlast, hyielded⟩ := hsound.last_of_items hitems rfl
        have hpulls := hsound.pulls
        rw [hpulled] at hpulls
        cases last with
        | ok item => cases hlast
        | error found =>
            obtain ⟨rfl, hdata⟩ := hbreaks.of_pulls hinside hpulls hpieces
            refine ⟨(Except.error.inj hlast).symm, ?_⟩
            rw [hyielded, Feed.octets_map_mapError, hdata]

theorem Midway.tellsCause_of_frame (h : Midway size feed taken reader)
    (hinside : feed.Inside (.ofSize size)) (hbreaks : feed.Breaks (.ofSize size) cause)
    (hframe : reader.frame = some (some (.error fault), next)) :
    TellsCause size feed taken cause fault := by
  unfold BodyReader.frame at hframe
  split at hframe
  · next hpoll =>
    obtain ⟨rfl, rfl⟩ := Prod.mk.inj (Option.some.inj hframe)
    exact h.tellsCause_of_poll hinside hbreaks hpoll
  · next waiting hpending =>
    split at hframe
    · next hpoll =>
      obtain ⟨rfl, rfl⟩ := Prod.mk.inj (Option.some.inj hframe)
      rcases h.poll hinside with ⟨other, hother, hwaiting⟩ | ⟨_, _, hother, -⟩
      · rw [hother] at hpending
        obtain rfl := (Prod.mk.inj hpending).2
        exact hwaiting.serve.tellsCause_of_poll hinside hbreaks hpoll
      · rw [hother] at hpending
        simp at hpending
    · contradiction

theorem Midway.tellsCause_of_readWithin (h : Midway size feed taken reader)
    (hinside : feed.Inside (.ofSize size)) (hbreaks : feed.Breaks (.ofSize size) cause) {fuel : Nat}
    (hread : reader.readWithin fuel = some (some (.error fault), next)) :
    TellsCause size feed taken cause fault := by
  induction fuel generalizing reader with
  | zero => exact h.tellsCause_of_frame hinside hbreaks hread
  | succ fuel ih =>
      unfold BodyReader.readWithin at hread
      split at hread
      · next middle hframe =>
        rcases h.frame hinside with ⟨hnone, -⟩ | ⟨answer, other, hother, htells⟩
        · rw [hframe] at hnone
          contradiction
        · rw [hframe] at hother
          obtain ⟨rfl, rfl⟩ := Prod.mk.inj (Option.some.inj hother)
          have hsame : Midway size feed taken middle := List.append_nil taken ▸ htells
          exact ih hsame hread
      · exact h.tellsCause_of_frame hinside hbreaks hread

/-- A reader of a body that breaks off is handed data, or all of the data is taken and it is told the
cause. -/
theorem Midway.read_of_breaks (h : Midway size feed taken reader)
    (hinside : feed.Inside (.ofSize size)) (hbreaks : feed.Breaks (.ofSize size) cause) :
    (∃ data next, reader.read = some (some (.ok data), next) ∧
      Midway size feed (taken ++ data) next ∧ potential next.body < potential reader.body) ∨
    (∃ next, reader.read = some (some (.error (forwarded cause)), next) ∧ next.finished = true ∧
      ((PayloadDecoder.ofSize size).drain feed.unread).chunks.flatten = taken) := by
  rcases hread : reader.read with _ | ⟨_ | fault | data, next⟩
  · have hstarved := (reached_readWithin (Incoming.bound reader.body) h.reached).2 hread
    exact absurd hstarved (hbreaks.not_starved hinside)
  · rcases h.readWithin hinside (Incoming.bound reader.body) with
      ⟨hnone, -⟩ | ⟨answer, other, hother, htells⟩
    · rw [show reader.readWithin _ = _ from hread] at hnone
      contradiction
    · rw [show reader.readWithin _ = _ from hread] at hother
      obtain ⟨rfl, rfl⟩ := Prod.mk.inj (Option.some.inj hother)
      exact absurd htells.1 hbreaks.stop_ne_eof
  · obtain ⟨rfl, hdata⟩ := h.tellsCause_of_readWithin hinside hbreaks hread
    exact .inr ⟨next, rfl, finished_of_readWithin hread nofun, hdata⟩
  · rcases h.readWithin hinside (Incoming.bound reader.body) with
      ⟨hnone, -⟩ | ⟨answer, other, hother, htells⟩
    · rw [show reader.readWithin _ = _ from hread] at hnone
      contradiction
    · rw [show reader.readWithin _ = _ from hread] at hother
      obtain ⟨rfl, rfl⟩ := Prod.mk.inj (Option.some.inj hother)
      exact .inl ⟨data, next, rfl, htells,
        potential_readWithin (Feed.bounded hinside) h.reached hread⟩

end BodyReader

namespace Activity

/-- Reads so many times, whatever the answers are, and tells them. -/
def readTimes : Nat → Activity (List Answer)
  | 0 => .done []
  | times + 1 => .read fun answer => (readTimes times).map (answer :: ·)

/-- What so many reads are answered with where a fault stands behind some pieces. -/
def answersUpTo (fault : RequestFault) : List Bytes → Nat → List Answer
  | _, 0 => []
  | [], times + 1 => some (.error fault) :: List.replicate times none
  | piece :: pieces, times + 1 => some (.ok piece) :: answersUpTo fault pieces times

theorem run_readTimes_of_finished [Incoming ι] {reader : BodyReader ι}
    (h : reader.finished = true) (times : Nat) :
    ((readTimes times).run reader).1 = some (List.replicate times none) := by
  induction times with
  | zero => rfl
  | succ times ih =>
      have hread : reader.read = some (none, reader) := BodyReader.readWithin_of_finished h _
      simp only [readTimes, run, hread, run_map, ih, Option.map_some, List.replicate_succ]

variable {size : PayloadSize} {feed : Feed} {taken : Bytes} {reader : BodyReader (BodyChannel Feed)}
  {cause : RequestFault}

/-- By induction on the pieces that are still to come. -/
theorem run_readTimes_of_midway (hinside : feed.Inside (.ofSize size))
    (hbreaks : feed.Breaks (.ofSize size) cause) (h : BodyReader.Midway size feed taken reader) :
    ∃ pieces : List Bytes,
      ((PayloadDecoder.ofSize size).drain feed.unread).chunks.flatten = taken ++ pieces.flatten ∧
      ∀ times, ((readTimes times).run reader).1 =
        some (answersUpTo (forwarded cause) pieces times) := by
  induction hpotential : potential reader.body using Nat.strongRecOn generalizing taken reader with
  | ind _ ih =>
      subst hpotential
      rcases h.read_of_breaks hinside hbreaks with
        ⟨data, next, hread, hnext, hless⟩ | ⟨next, hread, hfinished, hdata⟩
      · obtain ⟨pieces, hpieces, hanswers⟩ := ih _ hless hnext rfl
        refine ⟨data :: pieces, by rw [hpieces, List.flatten_cons, List.append_assoc], ?_⟩
        intro times
        cases times with
        | zero => rfl
        | succ times =>
            simp only [readTimes, run, hread, run_map, hanswers times, Option.map_some, answersUpTo]
      · refine ⟨[], by rw [hdata, List.flatten_nil, List.append_nil], ?_⟩
        intro times
        cases times with
        | zero => rfl
        | succ times =>
            simp only [readTimes, run, hread, run_map, run_readTimes_of_finished hfinished,
              Option.map_some, answersUpTo]

theorem run_readTimes (hinside : feed.Inside (.ofSize size))
    (hbreaks : feed.Breaks (.ofSize size) cause) :
    ∃ pieces : List Bytes,
      pieces.flatten = ((PayloadDecoder.ofSize size).drain feed.unread).chunks.flatten ∧
      ∀ times, ((readTimes times).run (.start (BodyChannel.start size feed))).1 =
        some (answersUpTo (forwarded cause) pieces times) := by
  obtain ⟨pieces, hpieces, hanswers⟩ :=
    run_readTimes_of_midway hinside hbreaks (BodyReader.midway_start size feed)
  exact ⟨pieces, hpieces.symm, hanswers⟩

/-- A handler that keeps reading a body of which the input holds only a front hears the data of the
front, then once that the body is incomplete, then the end.  Where an octet spoils the framing of a
chunked body, it hears the data in front of the octet, then once that the body is invalid, then the
end. -/
theorem run_readTimes_cut (hinside : feed.Inside (.ofSize size)) {front missing : List Octet}
    (hbody : PayloadDecoder.IsBody size (front ++ missing)) (hmissing : missing ≠ []) :
    (feed.unread = wire front → feed.ending = .eof →
      ∃ pieces : List Bytes, pieces.flatten = content front ∧
        ∀ times, ((readTimes times).run (.start (BodyChannel.start size feed))).1 =
          some (answersUpTo .incompleteBody pieces times)) ∧
    ∀ b rest, size = .chunked → feed.unread = wire front ++ b :: rest →
      ¬ IsChunkedFront (wire front ++ [b]) →
      ∃ (pieces : List Bytes) (reason : String), pieces.flatten = content front ∧
        ∀ times, ((readTimes times).run (.start (BodyChannel.start size feed))).1 =
          some (answersUpTo (.invalidBody reason) pieces times) := by
  constructor
  · intro hunread hending
    obtain ⟨hstop, hdata⟩ := PayloadDecoder.drain_of_cut hbody hmissing
    rw [← hunread] at hstop hdata
    have hbreaks : feed.Breaks (.ofSize size) .incompleteBody := .inr ⟨hstop, hending, rfl⟩
    obtain ⟨pieces, hpieces, hanswers⟩ := run_readTimes hinside hbreaks
    exact ⟨pieces, hpieces.trans hdata, hanswers⟩
  · rintro b rest rfl hunread hspoiled
    obtain ⟨⟨flaw, hstop⟩, hdata⟩ := PayloadDecoder.drain_of_spoiled hbody hmissing hspoiled rest
    rw [← hunread] at hstop hdata
    have hbreaks : feed.Breaks (.ofSize .chunked) flaw.fault := .inl hstop
    obtain ⟨pieces, hpieces, hanswers⟩ := run_readTimes hinside hbreaks
    exact ⟨pieces, _, hpieces.trans hdata, hanswers⟩

/-- The input ends in the data of a chunk; an octet is wrong where that chunk should end. -/
theorem run_readTimes_cut_in_chunk :
    let front := framed (Bytes.ofText "5\r\n") ++ contained (Bytes.ofText "hel")
    let behind := framed (Bytes.ofText "\r\n0\r\n\r\n")
    let whole := front ++ contained (Bytes.ofText "lo")
    let cut : Feed := ⟨⟨some (.ofSize .chunked)⟩, Bytes.ofText "5\r", 7, 16,
      [Bytes.ofText "\nh", Bytes.ofText "el"], .eof⟩
    let spoiled : Feed := ⟨⟨some (.ofSize .chunked)⟩, Bytes.ofText "5\r\nhel", 7, 16,
      [Bytes.ofText "loX0\r\n"], .silence⟩
    cut.Inside (.ofSize .chunked) ∧ spoiled.Inside (.ofSize .chunked) ∧
    ChunkedBody (whole ++ behind) ∧
    cut.unread = wire front ∧ spoiled.unread = wire whole ++ Bytes.ofText "X0\r\n" ∧
    (∃ pieces : List Bytes, pieces.flatten = Bytes.ofText "hel" ∧
      ∀ times, ((readTimes times).run (.start (BodyChannel.start .chunked cut))).1 =
        some (answersUpTo .incompleteBody pieces times)) ∧
    ∃ (pieces : List Bytes) (reason : String), pieces.flatten = Bytes.ofText "hello" ∧
      ∀ times, ((readTimes times).run (.start (BodyChannel.start .chunked spoiled))).1 =
        some (answersUpTo (.invalidBody reason) pieces times) := by
  intro front behind whole cut spoiled
  have hinside : ∀ feed : Feed, feed.reader = ⟨some (.ofSize .chunked)⟩ →
      (∀ segment ∈ feed.segments, segment ≠ []) → feed.Inside (.ofSize .chunked) := by
    intro feed hreader hsegments
    refine ⟨⟨?_, hsegments⟩, hreader⟩
    rw [hreader]
    rintro decoder ⟨⟩
    exact PayloadDecoder.isProper_ofSize .chunked
  have hcut : cut.Inside (.ofSize .chunked) := hinside cut rfl (by decide)
  have hspoiled : spoiled.Inside (.ofSize .chunked) := hinside spoiled rfl (by decide)
  have hend : SizeEnd PayloadEncoder.lineEnd := .plain [] nofun
  have hfive : SizeLine 5 (Bytes.ofText "5\r\n") :=
    .digits (Bytes.ofText "5") _ nofun (.cons rfl .nil) (by decide) hend
  have hzero : SizeLine 0 (Bytes.ofText "0\r\n") :=
    .digits (Bytes.ofText "0") _ nofun (.cons rfl .nil) (by decide) hend
  have hchunk : ChunkedBody (framed (Bytes.ofText "5\r\n") ++ contained (Bytes.ofText "hello") ++
      framed PayloadEncoder.lineEnd ++ framed (Bytes.ofText "0\r\n" ++ PayloadEncoder.lineEnd)) :=
    .chunk nofun hfive (.last hzero .closed)
  have hbody : ChunkedBody (whole ++ behind) := hchunk
  have hreads : ChunkedDecoder.Reads .sizeStart whole .dataCr :=
    .framing rfl (.framing rfl (.framing rfl
      (.datum (.datum (.datum (.datum (.datum .nil)))))))
  have hwrong : ¬ IsChunkedFront (wire whole ++ Bytes.ofText "X") :=
    hreads.not_isChunkedFront rfl nofun
  have hfront : ChunkedBody (front ++ (contained (Bytes.ofText "lo") ++ behind)) := hchunk
  have hunread : cut.unread = wire front := by decide
  have hleft : spoiled.unread = wire whole ++ Bytes.ofText "X0\r\n" := by decide
  obtain ⟨hincomplete, -⟩ := run_readTimes_cut hcut hfront nofun
  obtain ⟨-, hinvalid⟩ := run_readTimes_cut hspoiled hbody nofun
  exact ⟨hcut, hspoiled, hbody, hunread, hleft, hincomplete hunread rfl,
    hinvalid _ _ rfl hleft hwrong⟩

end Activity

end Turnpike
