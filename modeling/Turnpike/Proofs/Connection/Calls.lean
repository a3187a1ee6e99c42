import Turnpike.Proofs.Body.Calls

/-!
Calls on a body that is on its way through a connection.  No piece of it is empty, so that what is
proved of all calls holds for it, whatever the feed and the sender make of it.
-/

namespace Turnpike

open BodyChannel

namespace RequestReader

theorem chunk_ne_nil {reader next : RequestReader} (hproper : reader.IsProper)
    {bytes data rest : Bytes}
    (h : reader.decode bytes = ⟨.ok (some (.item (.chunk data))), next, rest⟩) : data ≠ [] := by
  rcases decode_eq_message h with
    ⟨_, _, _, hhead, _⟩ | ⟨decoder, item, after, rfl, hitem, -, hdecode⟩
  · contradiction
  · obtain rfl := Message.item.inj hitem
    exact ((PayloadDecoder.streaming_decode decoder).chunk_length (hproper decoder rfl) hdecode).1

end RequestReader

namespace Feed

theorem chunk_ne_nil_of_next {feed next : Feed} (hsound : feed.Sound) {data : Bytes}
    (h : feed.next = (.message (.item (.chunk data)), next)) : data ≠ [] := by
  revert h
  refine next_induction (motive := fun _ result =>
    result = (.message (.item (.chunk data)), next) → data ≠ []) ?message ?fault ?more ?ended hsound
  case message =>
    intro feed message after left hsound hdecode h
    obtain ⟨hmessage, -⟩ := Prod.mk.inj h
    obtain rfl := Arrival.message.inj hmessage
    exact RequestReader.chunk_ne_nil hsound.reader hdecode
  case fault => simp
  case more => exact fun _ _ _ _ _ ih => ih
  case ended =>
    intro feed after left _ _ _ h
    obtain ⟨harrival, -⟩ := Prod.mk.inj h
    unfold arrivalAtEnd at harrival
    split at harrival
    · split at harrival <;> simp at harrival
    · simp at harrival
    · simp at harrival

variable {feed state next : Feed} {decoder : PayloadDecoder} {pieces : List Delivery} {data : Bytes}

theorem chunk_ne_nil_of_pull (hsound : feed.Sound)
    (hpull : pull feed = some (.ok (.chunk data), next)) : data ≠ [] := by
  change feed.pullItem = _ at hpull
  unfold pullItem at hpull
  split at hpull
  · next item rest hnext =>
    obtain ⟨hitem, -⟩ := Prod.mk.inj (Option.some.inj hpull)
    obtain rfl := Except.ok.inj hitem
    exact chunk_ne_nil_of_next hsound hnext
  · simp at hpull
  · simp at hpull
  · simp at hpull
  · simp at hpull

theorem chunk_ne_nil_of_pulls (h : feed.Inside decoder) (hpulls : Pulls feed pieces state)
    (hpieces : ∀ piece ∈ pieces, isLast piece = false) (hmem : .ok (.chunk data) ∈ pieces) :
    data ≠ [] := by
  induction hpulls with
  | start => contradiction
  | @pull pieces middle rest delivery hbefore hpull ih =>
      have hnot : ∀ piece ∈ pieces, isLast piece = false := by
        intro piece hpiece
        exact hpieces piece (List.mem_append_left _ hpiece)
      rcases List.mem_append.mp hmem with hmem | hmem
      · exact ih hnot hmem
      · obtain rfl := List.mem_singleton.mp hmem
        obtain ⟨after, hbetween⟩ := between_of_pulls h hbefore hnot
        exact chunk_ne_nil_of_pull hbetween.inside.sound hpull

theorem chunk_ne_nil_of_items (h : feed.Inside decoder) {size : PayloadSize}
    {exchange : Exchange Feed} {sender : BodySender}
    (hsound : Exchange.Sound size feed exchange sender)
    (hmem : .ok (.chunk data) ∈ exchange.channel.items) : data ≠ [] := by
  obtain ⟨lost, hflow, -⟩ := hsound.flow
  have hforwarded : Except.ok (.chunk data) ∈
      exchange.pulled.map (Except.mapError forwarded) := by
    simp [hflow, hmem]
  obtain ⟨delivery, hpulled, hdelivery⟩ := List.mem_map.mp hforwarded
  obtain rfl : delivery = .ok (.chunk data) := by
    cases delivery with
    | error cause => cases hdelivery
    | ok item => exact hdelivery
  have hpulls := hsound.pulls
  obtain ⟨pieces, hpieces, hall | ⟨last, hall⟩⟩ := hsound.knows.exists_pieces
  · rw [hall] at hpulls hpulled
    exact chunk_ne_nil_of_pulls h hpulls hpieces hpulled
  · rw [hall] at hpulls hpulled
    obtain ⟨middle, hbefore, hpull⟩ := exists_pull_of_pulls_concat hpulls
    rcases List.mem_append.mp hpulled with hpulled | hpulled
    · exact chunk_ne_nil_of_pulls h hbefore hpieces hpulled
    · obtain rfl := List.mem_singleton.mp hpulled
      obtain ⟨after, hbetween⟩ := between_of_pulls h hbefore hpieces
      exact chunk_ne_nil_of_pull hbetween.inside.sound hpull

end Feed

namespace BodyReader

variable {size : PayloadSize} {feed : Feed} {taken data rest : Bytes}
  {reader next : BodyReader (BodyChannel Feed)}

theorem Midway.chunk_ne_nil (h : Midway size feed taken reader)
    (hinside : feed.Inside (.ofSize size))
    (hpoll : reader.poll = (.ready (some (.ok data)), next)) : data ≠ [] := by
  have hreader : ∀ {found body}, reader.body.poll = (found, body) → reader.poll = polled found body :=
    poll_of_body h.finished
  obtain ⟨exchange, sender, hsound, hchannel, -⟩ := h.exchange
  rw [← hchannel] at hreader
  by_cases hclosed : ∀ receiver, exchange.channel.receiver = some receiver →
      (receiver.finished || receiver.size.isEmpty) = true
  · rw [hreader (poll_of_closed hclosed)] at hpoll
    simp [polled] at hpoll
  · obtain ⟨receiver, hreceiver⟩ := Classical.not_forall.mp hclosed
    obtain ⟨hreceiver, hopen⟩ := Classical.not_imp.mp hreceiver
    rcases poll_of_open hreceiver (by simpa using hopen) hsound.present with
      ⟨-, -, hpending⟩ | ⟨-, hpending⟩ | ⟨delivery, items, hitems, hready⟩
    · rw [hreader hpending] at hpoll
      simp [polled] at hpoll
    · rw [hreader hpending] at hpoll
      simp [polled] at hpoll
    · rw [hreader hready] at hpoll
      have hanswer : answer delivery = some (.ok data) := by simpa [polled] using congrArg Prod.fst hpoll
      obtain rfl : delivery = .ok (.chunk data) := by
        rcases delivery with _ | _ | _ <;> simp_all [answer]
      exact Feed.chunk_ne_nil_of_items hinside hsound (by simp [hitems])

/-- The reader that has taken all data but these, and not come to the end. -/
def Awaits (size : PayloadSize) (feed : Feed) (rest : Bytes)
    (reader : BodyReader (BodyChannel Feed)) : Prop :=
  ∃ taken, Midway size feed taken reader ∧
    ((PayloadDecoder.ofSize size).drain feed.unread).chunks.flatten = taken ++ rest

theorem supplies_awaits (hinside : feed.Inside (.ofSize size)) :
    Supplies (((PayloadDecoder.ofSize size).drain feed.unread).stop = .eof) (Awaits size feed) where
  poll_pending := by
    rintro rest reader next ⟨taken, hmidway, hdata⟩ hpoll
    rcases hmidway.poll hinside with ⟨waiting, hpending, hwaiting⟩ | ⟨answer, last, hready, -⟩
    · obtain rfl : waiting = next := congrArg Prod.snd (hpending.symm.trans hpoll)
      exact ⟨taken, hwaiting, hdata⟩
    · rw [hready] at hpoll
      simp at hpoll
  poll_ready := by
    rintro rest reader next answer ⟨taken, hmidway, hdata⟩ hpoll
    rcases hmidway.poll hinside with ⟨waiting, hpending, -⟩ | ⟨found, last, hready, htells⟩
    · rw [hpending] at hpoll
      simp at hpoll
    · obtain ⟨hfound, rfl⟩ := Prod.mk.inj (hready.symm.trans hpoll)
      obtain rfl := Polled.ready.inj hfound
      match found with
      | none =>
          obtain ⟨hstop, htaken⟩ := htells
          rw [hdata] at htaken
          exact ⟨finished_of_poll hpoll nofun, List.append_right_eq_self.mp htaken, hstop⟩
      | some (.error cause) => exact finished_of_poll hpoll nofun
      | some (.ok data) =>
          obtain ⟨later, hlater⟩ := Midway.front htells hinside
          refine ⟨hmidway.chunk_ne_nil hinside hpoll, later, ?_, taken ++ data, htells, hlater.symm⟩
          rw [hdata, List.append_assoc] at hlater
          exact (List.append_cancel_left hlater).symm
  serve := by
    rintro rest reader ⟨taken, hmidway, hdata⟩
    exact ⟨taken, hmidway.serve, hdata⟩
  advance := by
    rintro rest reader steps ⟨taken, hmidway, hdata⟩
    exact ⟨taken, hmidway.advance steps, hdata⟩
  answers := by
    rintro rest reader call ⟨taken, hmidway, -⟩ hcomplete hnone
    have hstarved := (Activity.reached_run (Feed.bounded hinside) call.activity hmidway.reached).2
    exact Feed.stop_of_starved hinside (hstarved hnone) hcomplete

/-- Whatever is called on a body, on its way or in memory: no piece is empty, what is returned comes
from the front of its data, all of it once the end is told, a fault is told once at most, and behind
the end or a fault there is nothing more. -/
theorem session_orderly (calls : List Call) :
    (∀ (size : PayloadSize) (feed : Feed), feed.Inside (.ofSize size) →
      let body := (PayloadDecoder.ofSize size).drain feed.unread
      let run := session calls (.start (BodyChannel.start size feed))
      Orderly body.chunks.flatten (body.stop = .eof) calls run.1 run.2) ∧
    ∀ data : Bytes,
      let run := session calls (.start (StoredBody.ofBytes data))
      Orderly data True calls run.1 run.2 := by
  constructor
  · intro size feed hinside body run
    have hstart : Awaits size feed body.chunks.flatten (.start (BodyChannel.start size feed)) :=
      ⟨[], midway_start size feed, rfl⟩
    exact (supplies_awaits hinside).orderly_session calls hstart
  · intro data run
    exact StoredBody.supplies_holds.orderly_session calls rfl

/-- Two polls come too early, and an octet is wrong behind the last chunk. -/
theorem session_orderly_spoiled :
    let feed : Feed := ⟨⟨some (.ofSize .chunked)⟩, Bytes.ofText "3\r\nab", 0, 16,
      [Bytes.ofText "c\r\n2\r\nde\r", Bytes.ofText "\n1\r\nfX"], .silence⟩
    let calls := [Call.poll, .wait 4, .poll, .poll, .read, .drain, .read, .readToEnd, .drain]
    let run := session calls (.start (BodyChannel.start .chunked feed))
    let spoiled : RequestFault := .invalidBody
      "invalid body: unexpected byte 0x58 in chunked body while in DataCr"
    feed.Inside (.ofSize .chunked) ∧
      run.1 = [.nothing, .nothing, .piece (some (.ok (Bytes.ofText "ab"))), .nothing,
        .piece (some (.ok (Bytes.ofText "c"))), .drained (Bytes.ofText "def") (.fault spoiled),
        .piece none, .whole (.ok []), .drained [] .ended] ∧
      Orderly (Bytes.ofText "abcdef")
        (((PayloadDecoder.ofSize .chunked).drain feed.unread).stop = .eof) calls run.1 run.2 := by
  intro feed calls run spoiled
  have hinside : feed.Inside (.ofSize .chunked) := by
    refine ⟨⟨?_, by decide⟩, rfl⟩
    rintro decoder ⟨⟩
    exact PayloadDecoder.isProper_ofSize .chunked
  have hdata : ((PayloadDecoder.ofSize .chunked).drain feed.unread).chunks.flatten =
      Bytes.ofText "abcdef" := by decide
  have horderly := (session_orderly calls).1 .chunked feed hinside
  simp only [hdata] at horderly
  exact ⟨hinside, by decide, horderly⟩

end BodyReader

end Turnpike
