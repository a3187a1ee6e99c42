import Turnpike.Proofs.Connection.Body

/-!
Reading a body as a whole.  Piece by piece the reader comes to the end of the data, or to why there
is none, whatever the pieces are.
-/

namespace Turnpike

open BodyChannel

namespace BodyChannel.Exchange

/-- The end or a fault is the last thing the receiver is handed. -/
theorem Sound.last_of_items [PayloadSource σ] {size : PayloadSize} {origin : σ}
    {exchange : Exchange σ} {sender : BodySender} (h : Sound size origin exchange sender)
    {delivery : Delivery} {items : List Delivery} (hitems : exchange.channel.items = delivery :: items)
    (hlast : isLast delivery = true) :
    ∃ pieces last, (∀ piece ∈ pieces, isLast piece = false) ∧ exchange.pulled = pieces ++ [last] ∧
      last.mapError forwarded = delivery ∧
      exchange.yielded = pieces.map (Except.mapError forwarded) := by
  obtain ⟨pieces, hpieces, hpulled⟩ := h.knows.exists_pieces
  obtain ⟨lost, hflow, -⟩ := h.flow
  have hnot : delivery ∉ pieces.map (Except.mapError forwarded) := by
    intro hmem
    obtain ⟨piece, hpiece, rfl⟩ := List.mem_map.mp hmem
    rw [isLast_mapError, hpieces piece hpiece] at hlast
    contradiction
  rw [hitems] at hflow
  rcases hpulled with hall | ⟨last, hall⟩
  · rw [hall] at hflow
    exact absurd (by simp [hflow]) hnot
  · rw [hall, List.map_append, List.append_assoc, List.append_assoc, List.cons_append] at hflow
    rcases List.eq_nil_or_concat (items ++ (held sender.phase ++ lost)) with hnil | ⟨front, back, hback⟩
    · rw [hnil] at hflow
      obtain ⟨hyielded, hdelivery⟩ := List.append_inj' hflow rfl
      exact ⟨pieces, last, hpieces, hall, List.singleton_inj.mp hdelivery, hyielded.symm⟩
    · rw [hback, List.concat_eq_append, ← List.cons_append, ← List.append_assoc] at hflow
      obtain ⟨hfront, -⟩ := List.append_inj' hflow rfl
      exact absurd (by simp [hfront]) hnot

end BodyChannel.Exchange

namespace Feed

variable {feed : Feed} {decoder : PayloadDecoder}

theorem chunks_of_pull_eof {next : Feed} (h : feed.Inside decoder)
    (hpull : pull feed = some (.ok .eof, next)) : (decoder.drain feed.unread).chunks = [] := by
  obtain ⟨hsound, hanswers⟩ := next_answers h.sound
  change feed.pullItem = some (.ok .eof, next) at hpull
  unfold pullItem at hpull
  split at hpull
  · next item rest hnext =>
    obtain ⟨hitem, rfl⟩ := Prod.mk.inj (Option.some.inj hpull)
    obtain rfl := Except.ok.inj hitem
    rw [hnext] at hanswers
    rcases hanswers with hmessage | ⟨-, data, _, _, _, hchunk, -⟩
    · rw [h.reader] at hmessage
      obtain ⟨item, after, hitem, -, hdecode⟩ := RequestReader.decode_body_eq_message hmessage
      obtain rfl := Message.item.inj hitem
      rw [PayloadDecoder.drain_of_eof hdecode]
    · cases hchunk
  · simp at hpull
  · simp at hpull
  · simp at hpull
  · simp at hpull

theorem octets_of_eof {pieces : List Delivery} {source : Feed} (h : feed.Inside decoder)
    (hpulls : Pulls feed (pieces ++ [.ok .eof]) source)
    (hpieces : ∀ piece ∈ pieces, isLast piece = false) :
    (decoder.drain feed.unread).stop = .eof ∧
      (decoder.drain feed.unread).chunks.flatten = octets pieces := by
  obtain ⟨middle, hbefore, hpull⟩ := exists_pull_of_pulls_concat hpulls
  obtain ⟨after, hbetween⟩ := between_of_pulls h hbefore hpieces
  have hpulled := pulled_pull hbetween.inside
  rw [hpull] at hpulled
  refine ⟨hbetween.stop.trans hpulled.2.2.1, ?_⟩
  rw [hbetween.data, chunks_of_pull_eof hbetween.inside hpull, List.flatten_nil, List.append_nil]

theorem stop_of_error {pieces : List Delivery} {fault : RequestFault} {source : Feed}
    (h : feed.Inside decoder) (hpulls : Pulls feed (pieces ++ [.error fault]) source)
    (hpieces : ∀ piece ∈ pieces, isLast piece = false) :
    (decoder.drain feed.unread).stop ≠ .eof := by
  obtain ⟨middle, hbefore, hpull⟩ := exists_pull_of_pulls_concat hpulls
  obtain ⟨after, hbetween⟩ := between_of_pulls h hbefore hpieces
  have hpulled := pulled_pull hbetween.inside
  rw [hpull] at hpulled
  rw [hbetween.stop]
  exact hpulled

end Feed

namespace BodyReader

/-- A reader that has taken these octets of a body and not come to its end. -/
structure Midway (size : PayloadSize) (feed : Feed) (taken : Bytes)
    (reader : BodyReader (BodyChannel Feed)) : Prop where
  reached : Reached size feed reader.body
  exchange : ∃ (exchange : Exchange Feed) (sender : BodySender),
    Exchange.Sound size feed exchange sender ∧ exchange.channel = reader.body ∧
      Feed.octets exchange.yielded = taken
  receiver : ∃ receiver : Receiver, reader.body.receiver = some receiver ∧ receiver.finished = false
  finished : reader.finished = false

variable {size : PayloadSize} {feed : Feed} {taken : Bytes} {reader : BodyReader (BodyChannel Feed)}

theorem midway_start (size : PayloadSize) (feed : Feed) :
    Midway size feed [] (.start (BodyChannel.start size feed)) where
  reached := reached_start size feed
  exchange := ⟨_, _, Exchange.sound_start size feed, rfl, rfl⟩
  receiver := ⟨_, rfl, rfl⟩
  finished := rfl

/-- What an answer says of the body. -/
def Tells (size : PayloadSize) (feed : Feed) (taken : Bytes) (next : BodyReader (BodyChannel Feed)) :
    Answer → Prop
  | some (.ok data) => Midway size feed (taken ++ data) next
  | some (.error _) => ((PayloadDecoder.ofSize size).drain feed.unread).stop ≠ .eof
  | none => ((PayloadDecoder.ofSize size).drain feed.unread).stop = .eof ∧
      ((PayloadDecoder.ofSize size).drain feed.unread).chunks.flatten = taken

def polled (answer : Polled) (body : BodyChannel Feed) : Polled × BodyReader (BodyChannel Feed) :=
  (answer, ⟨body, match answer with
    | .ready none | .ready (some (.error _)) => true
    | .ready (some (.ok _)) | .pending => false⟩)

theorem poll_of_body (hfinished : reader.finished = false) {found : Polled}
    {body : BodyChannel Feed} (h : reader.body.poll = (found, body)) :
    reader.poll = polled found body := by
  have hpoll : Incoming.poll reader.body = (found, body) := h
  unfold BodyReader.poll polled
  rw [hfinished, hpoll]
  rcases found with _ | _ | fault | data <;> rfl

theorem tells_of_empty (hinside : feed.Inside (.ofSize .empty)) {exchange : Exchange Feed}
    {sender : BodySender} (hsound : Exchange.Sound .empty feed exchange sender)
    (next : BodyReader (BodyChannel Feed)) :
    Tells .empty feed (Feed.octets exchange.yielded) next none := by
  have hdrain : ((PayloadDecoder.ofSize .empty).drain feed.unread).stop = .eof ∧
      ((PayloadDecoder.ofSize .empty).drain feed.unread).chunks = [] := by
    have hdecode : (PayloadDecoder.ofSize .empty).decode feed.unread =
        ⟨.ok (some .eof), .empty, feed.unread⟩ := rfl
    rw [PayloadDecoder.drain_of_eof hdecode]
    exact ⟨rfl, rfl⟩
  have hyielded := Feed.octets_yielded hinside hsound
  rw [hdrain.2, List.flatten_nil, List.prefix_nil] at hyielded
  exact ⟨hdrain.1, by rw [hdrain.2, hyielded, List.flatten_nil]⟩

theorem tells_of_items (hinside : feed.Inside (.ofSize size)) {exchange : Exchange Feed}
    {sender : BodySender} (hsound : Exchange.Sound size feed exchange sender)
    {delivery : Delivery} {items : List Delivery}
    (hitems : exchange.channel.items = delivery :: items)
    {next : BodyReader (BodyChannel Feed)}
    (hnext : ∀ data, delivery = .ok (.chunk data) →
      Midway size feed (Feed.octets exchange.yielded ++ data) next) :
    Tells size feed (Feed.octets exchange.yielded) next (answer delivery) := by
  have hpulls := hsound.pulls
  match delivery with
  | .ok (.chunk data) => exact hnext data rfl
  | .ok .eof =>
      obtain ⟨pieces, last, hpieces, hpulled, hlast, hyielded⟩ := hsound.last_of_items hitems rfl
      obtain rfl : last = .ok .eof := by
        cases last with
        | error fault => cases hlast
        | ok item => exact hlast
      rw [hpulled] at hpulls
      rw [hyielded, Feed.octets_map_mapError]
      exact Feed.octets_of_eof hinside hpulls hpieces
  | .error fault =>
      obtain ⟨pieces, last, hpieces, hpulled, hlast, -⟩ := hsound.last_of_items hitems rfl
      rw [hpulled] at hpulls
      cases last with
      | ok item => cases hlast
      | error cause => exact Feed.stop_of_error hinside hpulls hpieces

theorem Midway.poll (h : Midway size feed taken reader) (hinside : feed.Inside (.ofSize size)) :
    (∃ next, reader.poll = (.pending, next) ∧ Midway size feed taken next) ∨
      ∃ answer next, reader.poll = (.ready answer, next) ∧ Tells size feed taken next answer := by
  have hreached := h.reached.poll
  have hreader : ∀ {found body}, reader.body.poll = (found, body) → reader.poll = polled found body :=
    poll_of_body h.finished
  obtain ⟨receiver, hreceiver, hopen⟩ := h.receiver
  obtain ⟨exchange, sender, hsound, hchannel, rfl⟩ := h.exchange
  have hpolled := Exchange.sound_poll hsound
  rw [← hchannel] at hreached hreader hreceiver
  have hsize := hsound.sized receiver hreceiver
  cases hempty : size.isEmpty with
  | true =>
      obtain rfl := PayloadSize.isEmpty_iff.mp hempty
      have hclosed : ∀ other, exchange.channel.receiver = some other →
          (other.finished || other.size.isEmpty) = true := by
        intro other hother
        rw [hsound.sized other hother]
        exact Bool.or_true _
      exact .inr ⟨none, _, hreader (poll_of_closed hclosed), tells_of_empty hinside hsound _⟩
  | false =>
      have hasks : (receiver.finished || receiver.size.isEmpty) = false := by
        rw [hopen, hsize, hempty]
        rfl
      rcases poll_of_open hreceiver hasks hsound.present with
        ⟨-, -, hpoll⟩ | ⟨hitems, hpoll⟩ | ⟨delivery, items, hitems, hpoll⟩
      · refine .inl ⟨_, hreader hpoll, ?_⟩
        exact ⟨by rwa [hpoll] at hreached, ⟨exchange, sender, hsound, rfl, rfl⟩,
          ⟨receiver, hreceiver, hopen⟩, rfl⟩
      · refine .inl ⟨_, hreader hpoll, ?_⟩
        rw [hpoll] at hreached
        refine ⟨hreached, ⟨exchange.poll, sender, hpolled, ?_, ?_⟩, ⟨_, rfl, hopen⟩, rfl⟩
        · simp only [Exchange.poll, hpoll]
        · simp [Exchange.poll, hpoll, hitems]
      · refine .inr ⟨answer delivery, _, hreader hpoll, tells_of_items hinside hsound hitems ?_⟩
        rintro data rfl
        rw [hpoll] at hreached
        refine ⟨hreached, ⟨exchange.poll, sender, hpolled, ?_, ?_⟩, ⟨_, rfl, rfl⟩, rfl⟩
        · simp only [Exchange.poll, hpoll]
        · simp [Exchange.poll, hpoll, hitems, Feed.octets, PayloadItem.data]

theorem exists_exchange_serveWithin {exchange : Exchange Feed} {sender : BodySender}
    (h : Exchange.Sound size feed exchange sender) (steps : Nat) :
    ∃ (next : Exchange Feed) (after : BodySender), Exchange.Sound size feed next after ∧
      next.channel = exchange.channel.serveWithin steps ∧ next.yielded = exchange.yielded := by
  induction steps generalizing exchange sender with
  | zero => exact ⟨exchange, sender, h, rfl, rfl⟩
  | succ steps ih =>
      unfold serveWithin
      cases hstep : exchange.channel.step? with
      | none => exact ⟨exchange, sender, h, rfl, rfl⟩
      | some next =>
          obtain ⟨after, hafter⟩ := Exchange.sound_step h
          simp only [Exchange.step, hstep] at hafter
          exact ih hafter

theorem Midway.advance (h : Midway size feed taken reader) (steps : Nat) :
    Midway size feed taken (reader.advance steps) := by
  obtain ⟨exchange, sender, hsound, hchannel, htaken⟩ := h.exchange
  obtain ⟨receiver, hreceiver, hopen⟩ := h.receiver
  obtain ⟨next, after, hnext, hserved, hyielded⟩ := exists_exchange_serveWithin hsound steps
  refine ⟨h.reached.serveWithin _, ⟨next, after, hnext, ?_, ?_⟩, ⟨receiver, ?_, hopen⟩, h.finished⟩
  · rw [hserved, hchannel]
    rfl
  · rw [hyielded, htaken]
  · exact (items_serveWithin h.reached _).2.trans hreceiver

theorem Midway.serve (h : Midway size feed taken reader) : Midway size feed taken reader.serve :=
  h.advance (3 * reader.body.demands + 4)

theorem Midway.frame (h : Midway size feed taken reader) (hinside : feed.Inside (.ofSize size)) :
    (reader.frame = none ∧ ((PayloadDecoder.ofSize size).drain feed.unread).stop ≠ .eof) ∨
      ∃ answer next, reader.frame = some (answer, next) ∧ Tells size feed taken next answer := by
  cases hframe : reader.frame with
  | none => exact .inl ⟨rfl, Feed.stop_of_starved hinside (starved_of_frame h.reached hframe)⟩
  | some found =>
      obtain ⟨answer, next⟩ := found
      refine .inr ⟨answer, next, rfl, ?_⟩
      unfold BodyReader.frame at hframe
      rcases h.poll hinside with ⟨waiting, hpoll, hwaiting⟩ | ⟨first, after, hpoll, htells⟩
      · rw [hpoll] at hframe
        rcases hwaiting.serve.poll hinside with ⟨_, hagain, -⟩ | ⟨second, last, hagain, htells⟩
        · simp [hagain] at hframe
        · simp only [hagain, Option.some.injEq, Prod.mk.injEq] at hframe
          obtain ⟨rfl, rfl⟩ := hframe
          exact htells
      · simp only [hpoll, Option.some.injEq, Prod.mk.injEq] at hframe
        obtain ⟨rfl, rfl⟩ := hframe
        exact htells

/-! All of a body. -/

/-- What gathering a body comes to within a limit. -/
def Gathers (size : PayloadSize) (feed : Feed) (limit : Nat) :
    Option (Bytes × Stop × BodyReader (BodyChannel Feed)) → Prop
  | some (data, .ended, _) =>
    let body := (PayloadDecoder.ofSize size).drain feed.unread
    body.stop = .eof ∧ data = body.chunks.flatten ∧ data.length ≤ limit
  | some (_, .tooLong, _) =>
    limit < ((PayloadDecoder.ofSize size).drain feed.unread).chunks.flatten.length
  | some (_, .fault _, _) | none => ((PayloadDecoder.ofSize size).drain feed.unread).stop ≠ .eof

theorem Midway.front (h : Midway size feed taken reader) (hinside : feed.Inside (.ofSize size)) :
    taken <+: ((PayloadDecoder.ofSize size).drain feed.unread).chunks.flatten := by
  obtain ⟨exchange, sender, hsound, -, rfl⟩ := h.exchange
  exact Feed.octets_yielded hinside hsound

end BodyReader

end Turnpike
