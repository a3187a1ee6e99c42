import Turnpike.Proofs.Connection.Silence

/-!
An input that ends where more would have to come.  A body that breaks off so ends in a fault that
tells of a peer who has gone away, for the sender and for what skips the body behind it.
-/

namespace Turnpike

/-- Nobody is left at the other side. -/
def Ending.IsGone : Ending → Prop
  | .eof => True
  | .fault cause => cause.kind.isDisconnect = true
  | .silence => False

theorem Ending.IsGone.ne_silence {ending : Ending} (h : ending.IsGone) : ending ≠ .silence := by
  rintro rfl
  exact h

namespace Feed

open BodyChannel

/-- The reads are over when what is unread asks for more. -/
theorem next_of_more {feed : Feed} (hsound : feed.Sound) {after : RequestReader} {rest : Bytes}
    (hmore : feed.reader.decode feed.unread = ⟨.ok none, after, rest⟩) :
    ∃ last : Feed, feed.next = (last.arrivalAtEnd, last) ∧ last.buffer = rest ∧
      last.ending = feed.ending := by
  revert hmore
  refine next_induction (motive := fun feed result =>
    feed.reader.decode feed.unread = ⟨.ok none, after, rest⟩ → ∃ last : Feed,
      result = (last.arrivalAtEnd, last) ∧ last.buffer = rest ∧ last.ending = feed.ending)
    ?message ?fault ?more ?ended hsound
  case message =>
    intro feed message next left _ hdecode hmore
    rcases RequestReader.decode_append_of_message hdecode feed.segments.flatten with
      hsame | ⟨-, _, _, _, _, -, -, hboth⟩
    · rw [unread, hsame] at hmore
      simp at hmore
    · rw [unread, hboth] at hmore
      simp at hmore
  case fault =>
    intro feed fault next left _ hdecode hmore
    obtain ⟨_, _, hother, -⟩ := RequestReader.decode_append_of_fault hdecode feed.segments.flatten
    rw [unread, hother] at hmore
    simp at hmore
  case more =>
    intro feed next left filled result _ hdecode hfill _ hreader ih hmore
    obtain ⟨last, hlast, hbuffer, hending⟩ :=
      ih ((decode_unread_of_fill? hdecode hfill hreader).symm.trans hmore)
    have hsame : filled.ending = (feed.decoded next left).ending := ending_fill? hfill
    exact ⟨last, hlast, hbuffer, hending.trans hsame⟩
  case ended =>
    intro feed next left _ hdecode hsegments hmore
    have hsame := (decode_unread_of_ended hdecode hsegments).symm.trans hmore
    exact ⟨_, rfl, (Decoded.mk.inj hsame).2.2, rfl⟩

variable {feed : Feed} {decoder : PayloadDecoder}

theorem decode_of_pull (h : feed.Inside decoder)
    (hpull : ∀ item next, pull feed ≠ some (.ok item, next)) (item : PayloadItem)
    (after : PayloadDecoder) (rest : Bytes) :
    decoder.decode feed.unread ≠ ⟨.ok (some item), after, rest⟩ := by
  intro hdecode
  have hmessage : feed.reader.decode feed.unread =
      ⟨.ok (some (.item item)), RequestReader.afterItem after (.ok (some item)), rest⟩ := by
    rw [h.reader, RequestReader.decode_body, hdecode]
    rfl
  have hanswers := (next_answers h.sound).2
  change ∀ item next, feed.pullItem ≠ some (.ok item, next) at hpull
  unfold pullItem at hpull
  rcases hnext : feed.next with ⟨(⟨head, size⟩ | item) | _ | _ | _, last⟩
  all_goals rw [hnext] at hanswers hpull
  · rcases hanswers with hhead | ⟨-, _, _, _, _, hitem, -⟩
    · rw [hmessage] at hhead
      simp at hhead
    · contradiction
  · exact hpull item last rfl
  · exact hanswers _ _ _ hmessage
  · exact hanswers _ _ _ hmessage
  · exact hanswers _ _ _ hmessage

/-- What a body that asks for more is told where nothing more comes. -/
theorem pull_of_more (h : feed.Inside decoder) {after : PayloadDecoder} {rest : Bytes}
    (hmore : decoder.decode feed.unread = ⟨.ok none, after, rest⟩) :
    ∃ last, pull feed = match feed.ending with
      | .eof => some (.error .incompleteBody, last)
      | .fault cause => some (.error (.io cause), last)
      | .silence => none := by
  obtain ⟨rfl, -⟩ := (PayloadDecoder.streaming_decode decoder).more hmore
  have hreader : feed.reader.decode feed.unread =
      ⟨.ok none, RequestReader.afterItem after (.ok none), []⟩ := by
    rw [h.reader, RequestReader.decode_body, hmore]
    rfl
  obtain ⟨last, hnext, hbuffer, hending⟩ := next_of_more h.sound hreader
  refine ⟨last, ?_⟩
  change feed.pullItem = _
  rw [← hending]
  cases hlast : last.ending <;>
    simp only [pullItem, hnext, arrivalAtEnd, hlast, hbuffer, List.isEmpty_nil, if_true]

/-- The fault that a body without an end comes to. -/
theorem isDisconnect_of_pull (h : feed.Inside decoder)
    (hstop : (decoder.drain feed.unread).stop = .more) (hgone : feed.ending.IsGone)
    {fault : RequestFault} {next : Feed} (hpull : pull feed = some (.error fault, next)) :
    fault.isDisconnect = true := by
  rcases hdecode : decoder.decode feed.unread with ⟨cause | _ | item, after, rest⟩
  · rw [PayloadDecoder.drain_of_fault hdecode] at hstop
    contradiction
  · obtain ⟨last, hlast⟩ := pull_of_more h hdecode
    rw [hpull] at hlast
    cases hending : feed.ending with
    | eof =>
        simp only [hending, Option.some.injEq, Prod.mk.injEq, Except.error.injEq] at hlast
        rw [hlast.1]
        rfl
    | fault cause =>
        rw [hending] at hgone
        simp only [hending, Option.some.injEq, Prod.mk.injEq, Except.error.injEq] at hlast
        rw [hlast.1]
        exact hgone
    | silence => exact absurd hending hgone.ne_silence
  · exact absurd hdecode (decode_of_pull h (by simp [hpull]) item after rest)

theorem skipWithin_of_more {fuel : Nat} (h : feed.Inside decoder) (hfuel : feed.unread.length < fuel)
    (hstop : (decoder.drain feed.unread).stop = .more) (hgone : feed.ending.IsGone) :
    ∃ fault next, skipWithin fuel feed = some (.error fault, next) ∧ fault.isDisconnect = true := by
  induction fuel generalizing feed decoder with
  | zero => contradiction
  | succ fuel ih =>
      have hpulled := pulled_pull h
      unfold skipWithin
      rcases hpull : pull feed with _ | ⟨fault | data | _, next⟩
      · exact absurd (silence_of_pull h.sound hpull) hgone.ne_silence
      · exact ⟨fault, next, rfl, isDisconnect_of_pull h hstop hgone hpull⟩
      · rw [hpull] at hpulled
        obtain ⟨after, hinside, hlength, hsame, -⟩ := hpulled
        refine ih hinside (by omega) (hsame.symm.trans hstop) ?_
        rwa [ending_pull h.sound hpull]
      · rw [hpull] at hpulled
        obtain ⟨-, -, heof, -⟩ := hpulled
        rw [hstop] at heof
        contradiction

/-- The sender has come upon the end of the input while it served the handler, or it is come upon
when what the handler has left of the body is skipped. -/
theorem finish_of_more (h : feed.Inside decoder) {size : PayloadSize} {channel : BodyChannel Feed}
    (hreached : Reached size feed channel) (hstop : (decoder.drain feed.unread).stop = .more)
    (hgone : feed.ending.IsGone) :
    ∃ sender, channel.sender = some sender ∧
      (sender.broken = true ∨ ∃ fault next, channel.finish = some (.error fault, next) ∧
        fault.isDisconnect = true) := by
  obtain ⟨exchange, sender, hsound, -, rfl⟩ := hreached.sound
  refine ⟨sender, hsound.present, ?_⟩
  obtain ⟨pieces, hpieces, ⟨heof, hbroken, hpulled⟩ |
    ⟨-, -, ⟨heof, hbroken, hpulled⟩ | ⟨hbroken, -⟩⟩⟩ := hsound.knows
  · have hpulls := hsound.pulls
    rw [hpulled] at hpulls
    obtain ⟨after, hbetween⟩ := between_of_pulls h hpulls hpieces
    have hending := ending_of_pulls h hpulls hpieces
    rw [← hending] at hgone
    obtain ⟨fault, next, hskip, hfault⟩ := skipWithin_of_more hbetween.inside
      (Nat.lt_succ_of_lt (Nat.lt_succ_self _)) (hbetween.stop.symm.trans hstop) hgone
    have hbound : skipWithin (PayloadSource.bound exchange.channel.source + 1)
        exchange.channel.source = some (.error fault, next) := hskip
    refine .inr ⟨fault, { exchange.channel with source := next }, ?_, hfault⟩
    simp only [finish, hsound.present, hbroken, heof, Bool.false_eq_true, if_false, hbound]
  · have hpulls := hsound.pulls
    rw [hpulled] at hpulls
    obtain ⟨middle, hbefore, hpull⟩ := exists_pull_of_pulls_concat hpulls
    obtain ⟨after, hbetween⟩ := between_of_pulls h hbefore hpieces
    have hlast := pulled_pull hbetween.inside
    rw [hpull] at hlast
    obtain ⟨-, -, hend, -⟩ := hlast
    rw [← hbetween.stop, hstop] at hend
    contradiction
  · exact .inl hbroken

end Feed

end Turnpike
