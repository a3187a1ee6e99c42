import Turnpike.Proofs.Connection.Body

/-!
How the input of a connection ends.  Reading never changes it, and a connection is kept waiting only
by a peer that sends nothing and stays.
-/

namespace Turnpike

namespace Feed

open BodyChannel

theorem ending_fill? {feed filled : Feed} (h : feed.fill? = some filled) :
    filled.ending = feed.ending := by
  have hending : feed.makeRoom.ending = feed.ending := by
    unfold makeRoom
    split
    · rfl
    · split <;> rfl
  unfold fill? at h
  simp only at h
  split at h
  · contradiction
  · obtain rfl := Option.some.inj h
    exact hending

theorem next_ending {feed : Feed} (hsound : feed.Sound) :
    (feed.next).2.ending = feed.ending ∧ (feed.next.1 = .silence → feed.ending = .silence) := by
  refine next_induction (motive := fun feed result =>
    result.2.ending = feed.ending ∧ (result.1 = .silence → feed.ending = .silence))
    ?message ?fault ?more ?ended hsound
  case message => exact fun _ _ => ⟨rfl, by simp⟩
  case fault => exact fun _ _ => ⟨rfl, by simp⟩
  case more =>
    intro feed next rest filled result _ _ hfill _ _ hlater
    obtain ⟨hlast, hsilent⟩ := hlater
    have hending : filled.ending = (feed.decoded next rest).ending := ending_fill? hfill
    exact ⟨hlast.trans hending, fun hsilence => hending.symm.trans (hsilent hsilence)⟩
  case ended =>
    intro feed next rest _ _ _
    refine ⟨rfl, fun hsilence => ?_⟩
    unfold arrivalAtEnd at hsilence
    split at hsilence
    · split at hsilence <;> contradiction
    · contradiction
    · assumption

theorem ending_next {feed : Feed} (hsound : feed.Sound) : (feed.next).2.ending = feed.ending :=
  (next_ending hsound).1

theorem silence_of_next {feed next : Feed} (hsound : feed.Sound) (h : feed.next = (.silence, next)) :
    feed.ending = .silence :=
  (next_ending hsound).2 (congrArg Prod.fst h)

/-! The pieces of a body. -/

theorem ending_pull {feed next : Feed} {delivery : Delivery} (hsound : feed.Sound)
    (h : pull feed = some (delivery, next)) : next.ending = feed.ending := by
  have hending := ending_next hsound
  change feed.pullItem = some (delivery, next) at h
  unfold pullItem at h
  split at h
  all_goals
    next hnext =>
    rw [hnext] at hending
    first
    | contradiction
    | obtain ⟨-, rfl⟩ := Prod.mk.inj (Option.some.inj h)
      exact hending

theorem silence_of_pull {feed : Feed} (hsound : feed.Sound) (h : pull feed = none) :
    feed.ending = .silence := by
  change feed.pullItem = none at h
  unfold pullItem at h
  split at h
  · contradiction
  · contradiction
  · contradiction
  · contradiction
  · next hnext => exact silence_of_next hsound hnext

variable {feed state : Feed} {decoder : PayloadDecoder} {pieces : List Delivery}

theorem ending_of_pulls (h : feed.Inside decoder) (hpulls : Pulls feed pieces state)
    (hpieces : ∀ piece ∈ pieces, isLast piece = false) : state.ending = feed.ending := by
  induction hpulls with
  | start => rfl
  | @pull pieces middle rest delivery hbefore hpull ih =>
      have hnot : ∀ piece ∈ pieces, isLast piece = false := by
        intro piece hpiece
        exact hpieces piece (List.mem_append_left _ hpiece)
      obtain ⟨after, hbetween⟩ := between_of_pulls h hbefore hnot
      exact (ending_pull hbetween.inside.sound hpull).trans (ih hnot)

theorem silence_of_starved (h : feed.Inside decoder) (hstarved : Starved feed) :
    feed.ending = .silence := by
  obtain ⟨pieces, state, hpulls, hpieces, hpull⟩ := hstarved
  obtain ⟨after, hbetween⟩ := between_of_pulls h hpulls hpieces
  rw [← ending_of_pulls h hpulls hpieces]
  exact silence_of_pull hbetween.inside.sound hpull

theorem skipWithin_ending {fuel : Nat} (h : feed.Inside decoder)
    (hfuel : feed.unread.length < fuel) :
    (skipWithin fuel feed = none → feed.ending = .silence) ∧
      ∀ {outcome next}, skipWithin fuel feed = some (outcome, next) →
        next.ending = feed.ending := by
  induction fuel generalizing feed decoder with
  | zero => contradiction
  | succ fuel ih =>
      have hpulled := pulled_pull h
      unfold skipWithin
      rcases hpull : pull feed with _ | ⟨fault | data | _, next⟩
      · exact ⟨fun _ => silence_of_pull h.sound hpull, by simp⟩
      · refine ⟨by simp, ?_⟩
        rintro _ _ ⟨⟩
        exact ending_pull h.sound hpull
      · rw [hpull] at hpulled
        obtain ⟨after, hinside, hlength, -⟩ := hpulled
        have hending := ending_pull h.sound hpull
        obtain ⟨hnone, hsome⟩ := ih hinside (by omega)
        exact ⟨fun hskip => hending.symm.trans (hnone hskip), fun hskip => (hsome hskip).trans hending⟩
      · refine ⟨by simp, ?_⟩
        rintro _ _ ⟨⟩
        exact ending_pull h.sound hpull

theorem ending_source (h : feed.Inside decoder) {size : PayloadSize} {exchange : Exchange Feed}
    {sender : BodySender} (hsound : Exchange.Sound size feed exchange sender) :
    exchange.channel.source.ending = feed.ending := by
  obtain ⟨pieces, hpieces, hpulled⟩ := hsound.knows.exists_pieces
  have hpulls := hsound.pulls
  rcases hpulled with hall | ⟨last, hall⟩
  · rw [hall] at hpulls
    exact ending_of_pulls h hpulls hpieces
  · rw [hall] at hpulls
    obtain ⟨middle, hbefore, hpull⟩ := exists_pull_of_pulls_concat hpulls
    obtain ⟨after, hbetween⟩ := between_of_pulls h hbefore hpieces
    exact (ending_pull hbetween.inside.sound hpull).trans (ending_of_pulls h hbefore hpieces)

/-- Finishing a body waits only for a peer that is silent. -/
theorem finish_ending (h : feed.Inside decoder) {size : PayloadSize} {channel : BodyChannel Feed}
    (hreached : Reached size feed channel) :
    (channel.finish = none → feed.ending = .silence) ∧
      ∀ {outcome next}, channel.finish = some (outcome, next) →
        next.source.ending = feed.ending := by
  obtain ⟨exchange, sender, hsound, -, rfl⟩ := hreached.sound
  have hsource := ending_source h hsound
  obtain ⟨pieces, hpieces, hpulled⟩ := hsound.knows
  simp only [finish, hsound.present]
  cases hbroken : sender.broken with
  | true =>
      refine ⟨by simp, ?_⟩
      rintro _ _ ⟨⟩
      exact hsource
  | false =>
      cases heof : sender.eof with
      | true =>
          refine ⟨by simp, ?_⟩
          rintro _ _ ⟨⟩
          exact hsource
      | false =>
          obtain rfl : exchange.pulled = pieces := by simpa [heof, hbroken] using hpulled
          obtain ⟨after, hbetween⟩ := between_of_pulls h hsound.pulls hpieces
          have hfuel : exchange.channel.source.unread.length <
              PayloadSource.bound exchange.channel.source + 1 :=
            Nat.lt_succ_of_lt (Nat.lt_succ_self _)
          obtain ⟨hnone, hsome⟩ := skipWithin_ending hbetween.inside hfuel
          cases hskip : skipWithin (PayloadSource.bound exchange.channel.source + 1)
              exchange.channel.source with
          | none => exact ⟨fun _ => hsource.symm.trans (hnone hskip), by simp⟩
          | some skipped =>
              refine ⟨by simp, ?_⟩
              rintro _ _ ⟨⟩
              exact (hsome hskip).trans hsource

end Feed

end Turnpike
