import Turnpike.Proofs.Body.Reading
import Turnpike.Proofs.Connection.Feed

/-!
The body of a request on its way from the feed to the handler.  However much of it the handler has
taken, finishing it leads to the octet behind it, and succeeds only if there is one.
-/

namespace Turnpike

namespace Feed

open BodyChannel

def octets (pieces : List Delivery) : Bytes :=
  pieces.flatMap fun piece => match piece with
    | .ok item => item.data
    | .error _ => []

/-- Some pieces of a body have been pulled, the others are to come. -/
structure Between (feed : Feed) (decoder : PayloadDecoder) (pieces : List Delivery) (state : Feed)
    (after : PayloadDecoder) : Prop where
  inside : state.Inside after
  stop : (decoder.drain feed.unread).stop = (after.drain state.unread).stop
  rest : (decoder.drain feed.unread).rest = (after.drain state.unread).rest
  data : (decoder.drain feed.unread).chunks.flatten =
    octets pieces ++ (after.drain state.unread).chunks.flatten

variable {feed state : Feed} {decoder : PayloadDecoder} {pieces : List Delivery}

theorem between_of_pulls (h : feed.Inside decoder) (hpulls : Pulls feed pieces state)
    (hpieces : ∀ piece ∈ pieces, isLast piece = false) :
    ∃ after, feed.Between decoder pieces state after := by
  induction hpulls with
  | start => exact ⟨decoder, h, rfl, rfl, rfl⟩
  | @pull pieces middle rest delivery _ hpull ih =>
      obtain ⟨after, hbetween⟩ := ih fun piece hpiece => hpieces piece (by simp [hpiece])
      have hpulled := pulled_pull hbetween.inside
      rw [hpull] at hpulled
      match delivery, hpieces delivery (by simp) with
      | .ok (.chunk data), _ =>
          obtain ⟨later, hinside, -, hstop, hrest, hdata⟩ := hpulled
          refine ⟨later, hinside, hbetween.stop.trans hstop, hbetween.rest.trans hrest, ?_⟩
          rw [hbetween.data, hdata]
          simp [octets, PayloadItem.data]

theorem bounded (h : feed.Inside decoder) : Bounded feed := by
  intro pieces state delivery rest hpulls hpieces hpull
  obtain ⟨after, hbetween⟩ := between_of_pulls h hpulls hpieces
  have hpulled := pulled_pull hbetween.inside
  rw [hpull] at hpulled
  refine ⟨Nat.succ_pos _, fun hpiece => ?_⟩
  match delivery with
  | .ok (.chunk data) =>
      obtain ⟨-, -, hlength, -⟩ := hpulled
      exact Nat.succ_lt_succ hlength

/-- What an activity leaves of the body it is handed. -/
theorem reached_run (h : feed.Inside decoder) (size : PayloadSize) (activity : Activity α) :
    Reached size feed (activity.run (.start (BodyChannel.start size feed))).2.body ∧
      ((activity.run (.start (BodyChannel.start size feed))).1 = none → Starved feed) := by
  have hstart : Reached size feed (BodyReader.start (BodyChannel.start size feed)).body :=
    reached_start size feed
  exact Activity.reached_run (bounded h) activity hstart

theorem stop_of_starved (h : feed.Inside decoder) (hstarved : Starved feed) :
    (decoder.drain feed.unread).stop ≠ .eof := by
  obtain ⟨pieces, state, hpulls, hpieces, hpull⟩ := hstarved
  obtain ⟨after, hbetween⟩ := between_of_pulls h hpulls hpieces
  have hpulled := pulled_pull hbetween.inside
  rw [hpull] at hpulled
  rw [hbetween.stop]
  exact hpulled

/-! Finishing. -/

/-- What is left of a body is skipped up to its end, if it has one. -/
def Skipped (feed : Feed) (decoder : PayloadDecoder) : Option (Except RequestFault Unit × Feed) → Prop
  | some (.ok (), next) => next.Sound ∧ next.reader = .start ∧
      (decoder.drain feed.unread).stop = .eof ∧ (decoder.drain feed.unread).rest = next.unread
  | some (.error _, _) | none => (decoder.drain feed.unread).stop ≠ .eof

theorem Skipped.of_between {after : PayloadDecoder} (hbetween : feed.Between decoder pieces state after)
    {outcome : Option (Except RequestFault Unit × Feed)} (h : state.Skipped after outcome) :
    feed.Skipped decoder outcome := by
  match outcome with
  | some (.ok (), next) =>
      obtain ⟨hsound, hreader, hstop, hrest⟩ := h
      exact ⟨hsound, hreader, hbetween.stop.trans hstop, hbetween.rest.trans hrest⟩
  | some (.error _, _) => exact fun hstop => h (hbetween.stop.symm.trans hstop)
  | none => exact fun hstop => h (hbetween.stop.symm.trans hstop)

theorem skipped_skipWithin {fuel : Nat} (h : feed.Inside decoder)
    (hfuel : feed.unread.length < fuel) : feed.Skipped decoder (skipWithin fuel feed) := by
  induction fuel generalizing feed decoder with
  | zero => contradiction
  | succ fuel ih =>
      have hpulled := pulled_pull h
      unfold skipWithin
      rcases hpull : pull feed with _ | ⟨fault | data | _, next⟩
      all_goals rw [hpull] at hpulled
      · exact hpulled
      · exact hpulled
      · obtain ⟨after, hinside, hlength, hstop, hrest, hdata⟩ := hpulled
        have hbetween : feed.Between decoder [.ok (.chunk data)] next after :=
          ⟨hinside, hstop, hrest, by simpa [octets, PayloadItem.data] using hdata⟩
        exact .of_between hbetween (ih hinside (by omega))
      · exact hpulled

theorem exists_pull_of_pulls_concat {delivery : Delivery}
    (h : Pulls feed (pieces ++ [delivery]) state) :
    ∃ middle, Pulls feed pieces middle ∧ pull middle = some (delivery, state) := by
  generalize hall : pieces ++ [delivery] = all at h
  cases h with
  | start => simp at hall
  | @pull before middle _ last hbefore hpull =>
      obtain ⟨rfl, hlast⟩ := List.append_inj' hall rfl
      obtain rfl := List.singleton_inj.mp hlast
      exact ⟨middle, hbefore, hpull⟩

/-- Finishing a body leads to its end from wherever the sender was left standing. -/
theorem skipped_finish (h : feed.Inside decoder) {size : PayloadSize} {channel : BodyChannel Feed}
    (hreached : Reached size feed channel) :
    feed.Skipped decoder (channel.finish.map fun finished => (finished.1, finished.2.source)) := by
  obtain ⟨exchange, sender, hsound, -, rfl⟩ := hreached.sound
  obtain ⟨pieces, hpieces, ⟨heof, hbroken, hpulled⟩ |
    ⟨-, -, ⟨heof, hbroken, hpulled⟩ | ⟨hbroken, fault, hpulled⟩⟩⟩ := hsound.knows
  all_goals
    have hpulls := hsound.pulls
    rw [hpulled] at hpulls
    simp only [finish, hsound.present, hbroken, Bool.false_eq_true, if_false, if_true]
  · obtain ⟨after, hbetween⟩ := between_of_pulls h hpulls hpieces
    have hskipped : exchange.channel.source.Skipped after
        (skipWithin (PayloadSource.bound exchange.channel.source + 1) exchange.channel.source) :=
      skipped_skipWithin hbetween.inside (Nat.lt_succ_of_lt (Nat.lt_succ_self _))
    rw [heof]
    simp only [Bool.false_eq_true, if_false]
    cases hskip : skipWithin (PayloadSource.bound exchange.channel.source + 1)
        exchange.channel.source with
    | none =>
        rw [hskip] at hskipped
        exact .of_between hbetween hskipped
    | some skipped =>
        rw [hskip] at hskipped
        exact .of_between hbetween hskipped
  · obtain ⟨middle, hbefore, hpull⟩ := exists_pull_of_pulls_concat hpulls
    obtain ⟨after, hbetween⟩ := between_of_pulls h hbefore hpieces
    have hlast := pulled_pull hbetween.inside
    rw [hpull] at hlast
    rw [heof]
    exact .of_between hbetween hlast
  · obtain ⟨middle, hbefore, hpull⟩ := exists_pull_of_pulls_concat hpulls
    obtain ⟨after, hbetween⟩ := between_of_pulls h hbefore hpieces
    have hlast := pulled_pull hbetween.inside
    rw [hpull] at hlast
    exact fun hstop => hlast (hbetween.stop.symm.trans hstop)

/-! What the handler is given. -/

theorem octets_append (before after : List Delivery) :
    octets (before ++ after) = octets before ++ octets after :=
  List.flatMap_append

theorem octets_map_mapError (f : RequestFault → RequestFault) (pieces : List Delivery) :
    octets (pieces.map (Except.mapError f)) = octets pieces := by
  induction pieces with
  | nil => rfl
  | cons piece pieces ih =>
      have hpiece : octets [piece.mapError f] = octets [piece] := by
        cases piece <;> rfl
      rw [List.map_cons, ← List.singleton_append, octets_append, hpiece, ih, ← octets_append,
        List.singleton_append]

theorem octets_pulled (h : feed.Inside decoder) {size : PayloadSize} {exchange : Exchange Feed}
    {sender : BodySender} (hsound : Exchange.Sound size feed exchange sender) :
    octets exchange.pulled <+: (decoder.drain feed.unread).chunks.flatten := by
  have hpulls := hsound.pulls
  obtain ⟨pieces, hpieces, hpulled⟩ := hsound.knows
  have hlast : exchange.pulled = pieces ∨
      ∃ last, octets [last] = [] ∧ exchange.pulled = pieces ++ [last] := by
    rcases hpulled with ⟨-, -, hpulled⟩ | ⟨-, -, ⟨-, -, hpulled⟩ | ⟨-, fault, hpulled⟩⟩
    · exact .inl hpulled
    · exact .inr ⟨_, rfl, hpulled⟩
    · exact .inr ⟨_, rfl, hpulled⟩
  rcases hlast with hall | ⟨last, hempty, hall⟩
  · rw [hall] at hpulls ⊢
    obtain ⟨after, hbetween⟩ := between_of_pulls h hpulls hpieces
    exact ⟨_, hbetween.data.symm⟩
  · rw [hall] at hpulls ⊢
    obtain ⟨middle, hbefore, -⟩ := exists_pull_of_pulls_concat hpulls
    obtain ⟨after, hbetween⟩ := between_of_pulls h hbefore hpieces
    rw [octets_append, hempty, List.append_nil]
    exact ⟨_, hbetween.data.symm⟩

/-- The data handed to the receiver is the front of the data of the body. -/
theorem octets_yielded (h : feed.Inside decoder) {size : PayloadSize} {exchange : Exchange Feed}
    {sender : BodySender} (hsound : Exchange.Sound size feed exchange sender) :
    octets exchange.yielded <+: (decoder.drain feed.unread).chunks.flatten := by
  obtain ⟨lost, hflow, -⟩ := hsound.flow
  have hpulled := octets_pulled h hsound
  rw [← octets_map_mapError forwarded, hflow, List.append_assoc, List.append_assoc,
    octets_append] at hpulled
  exact (List.prefix_append _ _).trans hpulled

end Feed

end Turnpike
