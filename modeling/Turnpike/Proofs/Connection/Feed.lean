import Turnpike.Connection.Feed
import Turnpike.Proofs.Wire.Feeds

/-!
The reading half of a connection against the whole of what the peer sends.  Reads move octets from
the one to the other side of the buffer and decide only into which pieces data is cut.
-/

namespace Turnpike

namespace Feed

structure Sound (feed : Feed) : Prop where
  reader : feed.reader.IsProper
  segments : ∀ segment ∈ feed.segments, segment ≠ []

theorem sound_start (capacity : Nat) (segments : List Bytes) (ending : Ending) :
    (start capacity segments ending).Sound where
  reader := RequestReader.isProper_start
  segments segment hsegment := by
    have hkept := (List.mem_filter.mp hsegment).2
    simpa using hkept

theorem unread_start (capacity : Nat) (segments : List Bytes) (ending : Ending) :
    (start capacity segments ending).unread = segments.flatten := by
  simp only [unread, start, List.nil_append]
  induction segments with
  | nil => rfl
  | cons segment segments ih =>
      cases segment with
      | nil => simpa using ih
      | cons b rest => simpa using ih

/-! One read. -/

theorem room_makeRoom_pos (feed : Feed) : 0 < feed.makeRoom.room := by
  unfold makeRoom
  split
  · assumption
  · split
    · simp only [room]
      omega
    · simp only [room]
      omega

theorem segments_of_fill?_eq_none {feed : Feed} (h : feed.fill? = none) : feed.segments = [] := by
  unfold fill? at h
  simp only [segments_makeRoom] at h
  split at h
  · assumption
  · contradiction

theorem reader_makeRoom (feed : Feed) : feed.makeRoom.reader = feed.reader := by
  unfold makeRoom
  split
  · rfl
  · split <;> rfl

theorem fill?_eq_some {feed filled : Feed} (hsound : feed.Sound) (h : feed.fill? = some filled) :
    filled.Sound ∧ filled.reader = feed.reader ∧
      filled.segments.flatten.length < feed.segments.flatten.length := by
  have hroom := room_makeRoom_pos feed
  have hreader := reader_makeRoom feed
  unfold fill? at h
  simp only [segments_makeRoom] at h
  split at h
  · contradiction
  · next segment segments hsegments =>
    have hsegment := hsound.segments segment (by simp [hsegments])
    have hlater : ∀ other ∈ segments, other ≠ [] := fun other hother =>
      hsound.segments other (by simp [hsegments, hother])
    have hlength : (segment.drop feed.makeRoom.room).length < segment.length := by
      have hpos := List.length_pos_iff.mpr hsegment
      rw [List.length_drop]
      omega
    obtain rfl := Option.some.inj h
    rw [hsegments, List.flatten_cons, List.length_append]
    refine ⟨⟨hreader ▸ hsound.reader, ?_⟩, hreader, ?_⟩
    · intro other hother
      simp only at hother
      split at hother
      · exact hlater other hother
      · next hrest =>
        rcases List.mem_cons.mp hother with rfl | hother
        · simpa using hrest
        · exact hlater other hother
    · simp only
      split
      · omega
      · rw [List.flatten_cons, List.length_append]
        omega

/-! The next message. -/

/-- A feed behind what was decoded from its buffer. -/
def decoded (feed : Feed) (reader : RequestReader) (rest : Bytes) : Feed :=
  { feed with
    reader
    buffer := rest
    consumed := feed.consumed + (feed.buffer.length - rest.length) }

theorem Sound.decoded {feed : Feed} (hsound : feed.Sound) {next : RequestReader} {rest : Bytes}
    {outcome : Except RequestFault (Option (Message RequestHead))}
    (h : feed.reader.decode feed.buffer = ⟨outcome, next, rest⟩) : (feed.decoded next rest).Sound :=
  ⟨RequestReader.isProper_next hsound.reader h, hsound.segments⟩

/-- The next arrival, by the reads that it takes: a buffer that asks for more is filled, as long as
there is something to fill it with. -/
theorem next_induction {motive : Feed → Arrival × Feed → Prop}
    (message : ∀ {feed message next rest}, feed.Sound →
      feed.reader.decode feed.buffer = ⟨.ok (some message), next, rest⟩ →
      motive feed (.message message, feed.decoded next rest))
    (fault : ∀ {feed fault next rest}, feed.Sound →
      feed.reader.decode feed.buffer = ⟨.error fault, next, rest⟩ →
      motive feed (.fault fault, feed.decoded next rest))
    (more : ∀ {feed next rest filled result}, feed.Sound →
      feed.reader.decode feed.buffer = ⟨.ok none, next, rest⟩ →
      (feed.decoded next rest).fill? = some filled → filled.Sound → filled.reader = next →
      motive filled result → motive feed result)
    (ended : ∀ {feed next rest}, feed.Sound →
      feed.reader.decode feed.buffer = ⟨.ok none, next, rest⟩ → feed.segments = [] →
      motive feed ((feed.decoded next rest).arrivalAtEnd, feed.decoded next rest))
    {feed : Feed} (hsound : feed.Sound) : motive feed feed.next := by
  have hwithin : ∀ fuel feed, Sound feed → feed.segments.flatten.length < fuel →
      motive feed (nextWithin fuel feed) := by
    intro fuel
    induction fuel with
    | zero => exact fun _ _ hfuel => absurd hfuel (Nat.not_lt_zero _)
    | succ fuel ih =>
        intro feed hsound hfuel
        rcases hdecode : feed.reader.decode feed.buffer with ⟨cause | _ | found, next, rest⟩
        all_goals simp only [nextWithin, decode, hdecode]
        · exact fault hsound hdecode
        · split
          · next filled hfill =>
            obtain ⟨hfilled, hreader, hlength⟩ := fill?_eq_some (hsound.decoded hdecode) hfill
            have hless : filled.segments.flatten.length < feed.segments.flatten.length := hlength
            exact more hsound hdecode hfill hfilled hreader (ih filled hfilled (by omega))
          · next hfill =>
            have hsegments : (feed.decoded next rest).segments = [] := segments_of_fill?_eq_none hfill
            exact ended hsound hdecode hsegments
        · exact message hsound hdecode
  exact hwithin _ feed hsound (Nat.lt_succ_self _)

/-- A read changes nothing about what all that is unread comes to. -/
theorem decode_unread_of_fill? {feed filled : Feed} {next : RequestReader} {rest : Bytes}
    (hdecode : feed.reader.decode feed.buffer = ⟨.ok none, next, rest⟩)
    (hfill : (feed.decoded next rest).fill? = some filled) (hreader : filled.reader = next) :
    feed.reader.decode feed.unread = filled.reader.decode filled.unread := by
  rw [hreader, unread_fill? hfill]
  exact RequestReader.decode_append_of_more hdecode feed.segments.flatten

theorem decode_unread_of_ended {feed : Feed}
    {outcome : Decoded RequestReader (Message RequestHead)}
    (hdecode : feed.reader.decode feed.buffer = outcome) (hsegments : feed.segments = []) :
    feed.reader.decode feed.unread = outcome := by
  rw [unread, hsegments, List.flatten_nil, List.append_nil, hdecode]

/-- What arrives is what all that is unread begins with, but for where a piece of data ends. -/
def Answers (feed : Feed) (arrival : Arrival) (next : Feed) : Prop :=
  match arrival with
  | .message message =>
    feed.reader.decode feed.unread = ⟨.ok (some message), next.reader, next.unread⟩ ∨
      next.unread.length < feed.unread.length ∧
        ∃ data more after left, message = .item (.chunk data) ∧
          next.reader.decode next.unread = ⟨.ok (some (.item (.chunk more))), after, left⟩ ∧
          feed.reader.decode feed.unread =
            ⟨.ok (some (.item (.chunk (data ++ more)))), after, left⟩
  | .fault _ | .ended | .silence =>
    ∀ message after left, feed.reader.decode feed.unread ≠ ⟨.ok (some message), after, left⟩

theorem Answers.congr {feed other next : Feed} {arrival : Arrival} (h : feed.Answers arrival next)
    (hsame : feed.reader.decode feed.unread = other.reader.decode other.unread)
    (hlength : feed.unread.length ≤ other.unread.length) : other.Answers arrival next := by
  cases arrival with
  | message message =>
      simp only [Answers, hsame] at h
      exact h.imp_right (And.imp_left (Nat.lt_of_lt_of_le · hlength))
  | fault fault => simpa only [Answers, hsame] using h
  | ended => simpa only [Answers, hsame] using h
  | silence => simpa only [Answers, hsame] using h

theorem next_answers {feed : Feed} (hsound : feed.Sound) :
    (feed.next).2.Sound ∧ feed.Answers feed.next.1 feed.next.2 := by
  refine next_induction (motive := fun feed result => result.2.Sound ∧ feed.Answers result.1 result.2)
    ?message ?fault ?more ?ended hsound
  case message =>
    intro feed message next rest hsound hdecode
    refine ⟨hsound.decoded hdecode, ?_⟩
    rcases RequestReader.decode_append_of_message hdecode feed.segments.flatten with
      hsame | ⟨rfl, hsplit⟩
    · exact .inl hsame
    · obtain ⟨data, more, after, left, rfl, -, -⟩ := id hsplit
      have hbuffer := RequestReader.length_of_chunk hsound.reader hdecode
      refine .inr ⟨?_, hsplit⟩
      simp only [unread, decoded, List.nil_append, List.length_append]
      omega
  case fault =>
    intro feed fault next rest hsound hdecode
    refine ⟨hsound.decoded hdecode, fun message after left => ?_⟩
    obtain ⟨other, _, hother, -⟩ :=
      RequestReader.decode_append_of_fault hdecode feed.segments.flatten
    rw [unread, hother]
    simp
  case more =>
    intro feed next rest filled result _ hdecode hfill _ hreader hlater
    obtain ⟨hlast, hanswers⟩ := hlater
    refine ⟨hlast, hanswers.congr (decode_unread_of_fill? hdecode hfill hreader).symm ?_⟩
    have hrest := RequestReader.length_of_more hdecode
    rw [unread_fill? hfill]
    simp only [unread, decoded, List.length_append]
    omega
  case ended =>
    intro feed next rest hsound hdecode hsegments
    have hnone : ∀ message after left,
        feed.reader.decode feed.unread ≠ ⟨.ok (some message), after, left⟩ := by
      intro message after left
      rw [decode_unread_of_ended hdecode hsegments]
      simp
    refine ⟨hsound.decoded hdecode, ?_⟩
    unfold arrivalAtEnd
    split
    · split
      · exact hnone
      · exact hnone
    · exact hnone
    · exact hnone

/-! The pieces of a body. -/

structure Inside (feed : Feed) (decoder : PayloadDecoder) : Prop where
  sound : feed.Sound
  reader : feed.reader = ⟨some decoder⟩

theorem Inside.isProper {feed : Feed} {decoder : PayloadDecoder} (h : feed.Inside decoder) :
    decoder.IsProper :=
  h.sound.reader decoder (by rw [h.reader])

/-- What is pulled is what the body goes on with in all that is unread. -/
def Pulled (feed : Feed) (decoder : PayloadDecoder) : Option (Delivery × Feed) → Prop
  | some (.ok (.chunk data), next) => ∃ after, next.Inside after ∧
      next.unread.length < feed.unread.length ∧
      (decoder.drain feed.unread).stop = (after.drain next.unread).stop ∧
      (decoder.drain feed.unread).rest = (after.drain next.unread).rest ∧
      (decoder.drain feed.unread).chunks.flatten = data ++ (after.drain next.unread).chunks.flatten
  | some (.ok .eof, next) => next.Sound ∧ next.reader = .start ∧
      (decoder.drain feed.unread).stop = .eof ∧ (decoder.drain feed.unread).rest = next.unread
  | some (.error _, _) | none => (decoder.drain feed.unread).stop ≠ .eof

theorem stop_ne_eof {feed : Feed} {decoder : PayloadDecoder} (h : feed.Inside decoder)
    (hnone : ∀ message after left,
      feed.reader.decode feed.unread ≠ ⟨.ok (some message), after, left⟩) :
    (decoder.drain feed.unread).stop ≠ .eof := by
  rw [h.reader] at hnone
  rcases hdecode : decoder.decode feed.unread with ⟨fault | _ | item, after, left⟩
  · rw [PayloadDecoder.drain_of_fault hdecode]
    exact nofun
  · rw [PayloadDecoder.drain_of_more hdecode]
    exact nofun
  · refine absurd ?_ (hnone (.item item) (RequestReader.afterItem after (.ok (some item))) left)
    rw [RequestReader.decode_body, hdecode]
    rfl

theorem pulled_item {feed next : Feed} {decoder after : PayloadDecoder} {item : PayloadItem}
    (h : feed.Inside decoder) (hnext : next.Sound)
    (hreader : next.reader = RequestReader.afterItem after (.ok (some item)))
    (hdecode : decoder.decode feed.unread = ⟨.ok (some item), after, next.unread⟩) :
    feed.Pulled decoder (some (.ok item, next)) := by
  cases item with
  | chunk data =>
      refine ⟨after, ⟨hnext, hreader⟩, PayloadDecoder.chunk_rest_length_lt h.isProper hdecode, ?_⟩
      rw [PayloadDecoder.drain_of_chunk h.isProper hdecode]
      exact ⟨rfl, rfl, rfl⟩
  | eof =>
      rw [Pulled, PayloadDecoder.drain_of_eof hdecode]
      exact ⟨hnext, hreader, rfl, rfl⟩

theorem pulled_split {feed next : Feed} {decoder later after : PayloadDecoder} {left : Bytes}
    {data more : Bytes} (h : feed.Inside decoder) (hnext : next.Inside later)
    (hlength : next.unread.length < feed.unread.length)
    (hmore : later.decode next.unread = ⟨.ok (some (.chunk more)), after, left⟩)
    (hboth : decoder.decode feed.unread = ⟨.ok (some (.chunk (data ++ more))), after, left⟩) :
    feed.Pulled decoder (some (.ok (.chunk data), next)) := by
  refine ⟨later, hnext, hlength, ?_⟩
  rw [PayloadDecoder.drain_of_chunk h.isProper hboth,
    PayloadDecoder.drain_of_chunk hnext.isProper hmore]
  refine ⟨rfl, rfl, ?_⟩
  simp only [List.flatten_cons, List.append_assoc]

theorem pulled_pull {feed : Feed} {decoder : PayloadDecoder} (h : feed.Inside decoder) :
    feed.Pulled decoder (pull feed) := by
  obtain ⟨hsound, hanswers⟩ := next_answers h.sound
  change feed.Pulled decoder feed.pullItem
  unfold pullItem
  rcases hnext : feed.next with ⟨arrival, next⟩
  rw [hnext] at hsound hanswers
  cases arrival with
  | fault fault => exact stop_ne_eof h hanswers
  | ended => exact stop_ne_eof h hanswers
  | silence => exact stop_ne_eof h hanswers
  | message message =>
      rcases hanswers with hmessage | ⟨hlength, data, more, after, left, rfl, hmore, hboth⟩
      · rw [h.reader] at hmessage
        obtain ⟨item, after, rfl, hreader, hdecode⟩ :=
          RequestReader.decode_body_eq_message hmessage
        exact pulled_item h hsound hreader hdecode
      · rw [h.reader] at hboth
        obtain ⟨_, beyond, hitem, hafter, hdecode⟩ := RequestReader.decode_body_eq_message hboth
        obtain rfl := Message.item.inj hitem
        rcases RequestReader.decode_eq_message hmore with
          ⟨_, _, _, hhead, _⟩ | ⟨later, _, other, hlater, hitem, hother, hdecodeMore⟩
        · contradiction
        · obtain rfl := Message.item.inj hitem
          obtain rfl : beyond = other := by
            simpa [RequestReader.afterItem] using hafter.symm.trans hother
          exact pulled_split h ⟨hsound, hlater⟩ hlength hdecodeMore hdecode

end Feed

end Turnpike
