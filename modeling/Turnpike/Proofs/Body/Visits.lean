import Turnpike.Proofs.Body.Reading

/-!
The visits to the source of a channel: the states in which it is asked for a piece, whether one
comes or not.  However a handler goes on and wherever it leaves the sender, each visit finds the
source inside the body, and none comes after a fault.
-/

namespace Turnpike

/-- Each visit is made where the one before has left what is visited. -/
def Trail (place left : ν → σ) : σ → List ν → σ → Prop
  | first, [], last => first = last
  | first, visit :: visits, last => place visit = first ∧ Trail place left (left visit) visits last

namespace Trail

variable {place left : ν → σ} {first middle last : σ} {before after : List ν}

theorem append (hbefore : Trail place left first before middle)
    (hafter : Trail place left middle after last) :
    Trail place left first (before ++ after) last := by
  induction before generalizing first with
  | nil =>
      obtain rfl : first = middle := hbefore
      exact hafter
  | cons visit before ih => exact ⟨hbefore.1, ih hbefore.2⟩

theorem map {visits : List μ} (f : μ → ν)
    (h : Trail (place ∘ f) (left ∘ f) first visits last) :
    Trail place left first (visits.map f) last := by
  induction visits generalizing first with
  | nil => exact h
  | cons visit visits ih => exact ⟨h.1, ih h.2⟩

end Trail

namespace BodyChannel

variable [PayloadSource σ]

/-! What is visited, by the recursion of what visits. -/

/-- The visit that the next step of the sender makes. -/
def visits (channel : BodyChannel σ) : List σ :=
  match channel.sender with
  | some ⟨.pulling, _, _⟩ => [channel.source]
  | _ => []

def visitsWithin : Nat → BodyChannel σ → List σ
  | 0, _ => []
  | fuel + 1, channel =>
    channel.visits ++ match channel.step? with
      | none => []
      | some next => visitsWithin fuel next

def serveVisits (channel : BodyChannel σ) : List σ := visitsWithin (3 * channel.demands + 4) channel

def skipVisits : Nat → σ → List σ
  | 0, _ => []
  | fuel + 1, state =>
    state :: match pull state with
      | some (.ok (.chunk _), rest) => skipVisits fuel rest
      | _ => []

def finishVisits (channel : BodyChannel σ) : List σ :=
  match channel.sender with
  | none => []
  | some sender =>
    if sender.broken || sender.eof then []
    else skipVisits (PayloadSource.bound channel.source + 1) channel.source

end BodyChannel

namespace BodyReader

variable [PayloadSource σ]

def frameVisits (reader : BodyReader (BodyChannel σ)) : List σ :=
  match reader.poll with
  | (.ready _, _) => []
  | (.pending, next) => next.body.serveVisits

def readVisits : Nat → BodyReader (BodyChannel σ) → List σ
  | 0, reader => reader.frameVisits
  | fuel + 1, reader =>
    reader.frameVisits ++ match reader.frame with
      | some (some (.ok []), next) => readVisits fuel next
      | _ => []

def gatherVisits : Nat → Option Nat → BodyReader (BodyChannel σ) → List σ
  | 0, _, _ => []
  | fuel + 1, room, reader =>
    reader.frameVisits ++ match reader.frame with
      | some (some (.ok data), next) =>
        if room.any (· < data.length) then []
        else gatherVisits fuel (room.map (· - data.length)) next
      | _ => []

end BodyReader

namespace Activity

def visits [PayloadSource σ] : Activity α → BodyReader (BodyChannel σ) → List σ
  | .done _, _ => []
  | .frame next, reader =>
    reader.frameVisits ++ match reader.frame with
      | none => []
      | some (answer, rest) => (next answer).visits rest
  | .read next, reader =>
    reader.readVisits (Incoming.bound reader.body) ++ match reader.read with
      | none => []
      | some (answer, rest) => (next answer).visits rest
  | .poll next, reader =>
    let polled := reader.pollData
    (next polled.1.answer?).visits polled.2
  | .gather limit next, reader =>
    reader.gatherVisits (Incoming.bound reader.body + 2) limit ++ match reader.gather limit with
      | none => []
      | some (data, stop, rest) => (next data stop).visits rest
  | .inspect next, reader => (next reader.view).visits reader
  | .pause next, reader => reader.body.serveVisits ++ next.visits reader.serve
  | .wait steps next, reader => reader.body.visitsWithin steps ++ next.visits (reader.advance steps)
  | .release next, reader => next.visits reader.release

end Activity

/-! What holds of all visits so far. -/

namespace BodyChannel

variable [PayloadSource σ] {size : PayloadSize} {origin state : σ} {seen : List σ}
  {channel : BodyChannel σ} {sender : BodySender}

/-- Where a visit leaves the source; it stays as it was while nothing has arrived. -/
def beyond (state : σ) : σ := ((pull state).map Prod.snd).getD state

def Fails (state : σ) : Prop := ∃ fault rest, pull state = some (.error fault, rest)

/-- Only pieces that are not the last are pulled. -/
def Underway (origin state : σ) : Prop :=
  ∃ pieces, Pulls origin pieces state ∧ ∀ piece ∈ pieces, isLast piece = false

structure InOrder (origin : σ) (visits : List σ) : Prop where
  underway : ∀ state ∈ visits, Underway origin state
  unbroken : visits.Pairwise fun earlier _ => ¬ Fails earlier

theorem InOrder.append {before after : List σ} (hbefore : InOrder origin before)
    (hafter : InOrder origin after) (hkept : after ≠ [] → ∀ state ∈ before, ¬ Fails state) :
    InOrder origin (before ++ after) where
  underway state hstate :=
    (List.mem_append.mp hstate).elim (hbefore.underway state) (hafter.underway state)
  unbroken := by
    refine List.pairwise_append.mpr ⟨hbefore.unbroken, hafter.unbroken, ?_⟩
    exact fun state hstate _ hlater => hkept (List.ne_nil_of_mem hlater) state hstate

/-- What a channel and its source have come to through these visits. -/
structure Visited (size : PayloadSize) (origin : σ) (visits : List σ) (channel : BodyChannel σ) :
    Prop where
  reached : Reached size origin channel
  trail : Trail id beyond origin visits channel.source
  inOrder : InOrder origin visits
  broken : ∀ state ∈ visits, Fails state →
    ∃ sender, channel.sender = some sender ∧ sender.broken = true

theorem visited_start (size : PayloadSize) (origin : σ) :
    Visited size origin [] (start size origin) where
  reached := reached_start size origin
  trail := rfl
  inOrder := ⟨nofun, .nil⟩
  broken := nofun

theorem Visited.not_fails (h : Visited size origin seen channel)
    (hsender : channel.sender = some sender) (hbroken : sender.broken = false) :
    ∀ state ∈ seen, ¬ Fails state := by
  intro state hstate hfails
  obtain ⟨other, hother, hbreaks⟩ := h.broken state hstate hfails
  obtain rfl := Option.some.inj (hsender.symm.trans hother)
  rw [hbroken] at hbreaks
  contradiction

theorem Visited.underway (h : Visited size origin seen channel)
    (hsender : channel.sender = some sender) (heof : sender.eof = false)
    (hbroken : sender.broken = false) : Underway origin channel.source := by
  obtain ⟨exchange, other, hsound, -, rfl⟩ := h.reached.sound
  obtain rfl := Option.some.inj (hsender.symm.trans hsound.present)
  obtain ⟨pieces, hpieces, ⟨-, -, hpulled⟩ | ⟨-, -, ⟨hlast, -⟩ | ⟨hlast, -⟩⟩⟩ := hsound.knows
  · exact ⟨pieces, hpulled ▸ hsound.pulls, hpieces⟩
  · rw [heof] at hlast
    contradiction
  · rw [hbroken] at hlast
    contradiction

/-- Neither the source nor the sender takes part in a poll. -/
theorem Visited.poll (h : Visited size origin seen channel) :
    Visited size origin seen channel.poll.2 := by
  have hreached := h.reached.poll
  obtain ⟨exchange, sender, hsound, -, rfl⟩ := h.reached.sound
  by_cases hclosed : ∀ receiver, exchange.channel.receiver = some receiver →
      (receiver.finished || receiver.size.isEmpty) = true
  · rw [poll_of_closed hclosed] at hreached ⊢
    exact ⟨hreached, h.trail, h.inOrder, h.broken⟩
  · obtain ⟨receiver, hreceiver⟩ := Classical.not_forall.mp hclosed
    obtain ⟨hreceiver, hopen⟩ := Classical.not_imp.mp hreceiver
    rcases poll_of_open hreceiver (by simpa using hopen) hsound.present with
      ⟨-, -, hpoll⟩ | ⟨-, hpoll⟩ | ⟨delivery, items, -, hpoll⟩
    all_goals
      rw [hpoll] at hreached ⊢
      exact ⟨hreached, h.trail, h.inOrder, h.broken⟩

theorem Visited.dropReceiver (h : Visited size origin seen channel) :
    Visited size origin seen channel.dropReceiver :=
  ⟨h.reached.dropReceiver, h.trail, h.inOrder, h.broken⟩

omit [PayloadSource σ] in
theorem visits_of_phase_ne (hsender : channel.sender = some sender)
    (hphase : sender.phase ≠ .pulling) : channel.visits = [] := by
  obtain ⟨phase, eof, broken⟩ := sender
  cases phase with
  | pulling => exact absurd rfl hphase
  | waiting => simp only [visits, hsender]
  | offering delivery => simp only [visits, hsender]
  | stopped => simp only [visits, hsender]

/-- A sender that pulls makes its visit, also where it has to wait for a piece. -/
theorem Visited.step_of_pulling (h : Visited size origin seen channel)
    (hsender : channel.sender = some sender) (hphase : sender.phase = .pulling) :
    Visited size origin (seen ++ [channel.source]) (channel.step?.getD channel) := by
  obtain ⟨exchange, other, hsound, -, rfl⟩ := h.reached.sound
  obtain rfl := Option.some.inj (hsender.symm.trans hsound.present)
  obtain ⟨heof, hbroken, -⟩ := hsound.knows.of_active (.inr hphase)
  have hsource : InOrder origin [exchange.channel.source] :=
    ⟨by simpa using h.underway hsender heof hbroken, List.pairwise_singleton _ _⟩
  -- a sender that has met a fault knows it and pulls no more, so that no visit so far has failed
  have hseen := h.not_fails hsender hbroken
  have hinOrder := h.inOrder.append hsource fun _ => hseen
  have htrail : Trail id beyond origin (seen ++ [exchange.channel.source])
      (beyond exchange.channel.source) := h.trail.append ⟨rfl, rfl⟩
  cases hpull : PayloadSource.pull exchange.channel.source with
  | none =>
      have hstep : exchange.channel.step? = none := by
        simp only [step?, hsender, hphase, hpull]
      have hbeyond : beyond exchange.channel.source = exchange.channel.source := by
        simp only [beyond, hpull, Option.map_none, Option.getD_none]
      rw [hstep, Option.getD_none]
      rw [hbeyond] at htrail
      refine ⟨h.reached, htrail, hinOrder, fun state hstate hfails => ?_⟩
      rcases List.mem_append.mp hstate with hstate | hstate
      · exact absurd hfails (hseen state hstate)
      · obtain rfl := List.mem_singleton.mp hstate
        obtain ⟨fault, rest, hfault⟩ := hfails
        rw [hpull] at hfault
        contradiction
  | some found =>
      obtain ⟨delivery, rest⟩ := found
      have hstep : exchange.channel.step? = some { exchange.channel with
          sender := some (BodySender.pulled sender delivery), source := rest } := by
        simp only [step?, hsender, hphase, hpull]
      have hbeyond : beyond exchange.channel.source = rest := by
        simp only [beyond, hpull, Option.map_some, Option.getD_some]
      rw [hstep, Option.getD_some]
      rw [hbeyond] at htrail
      refine ⟨h.reached.step hstep, htrail, hinOrder, fun state hstate hfails => ⟨_, rfl, ?_⟩⟩
      rcases List.mem_append.mp hstate with hstate | hstate
      · exact absurd hfails (hseen state hstate)
      · obtain rfl := List.mem_singleton.mp hstate
        obtain ⟨fault, after, hfault⟩ := hfails
        obtain ⟨rfl, -⟩ := Prod.mk.inj (Option.some.inj (hpull.symm.trans hfault))
        rfl

theorem Visited.step (h : Visited size origin seen channel) :
    Visited size origin (seen ++ channel.visits) (channel.step?.getD channel) := by
  obtain ⟨exchange, sender, hsound, -, rfl⟩ := h.reached.sound
  have hsender := hsound.present
  by_cases hphase : sender.phase = .pulling
  · have hvisits : exchange.channel.visits = [exchange.channel.source] := by
      obtain ⟨phase, eof, broken⟩ := sender
      obtain rfl : phase = .pulling := hphase
      simp only [visits, hsender]
    rw [hvisits]
    exact h.step_of_pulling hsender hphase
  · rw [visits_of_phase_ne hsender hphase, List.append_nil]
    cases hstep : exchange.channel.step? with
    | none => exact h
    | some next =>
        have hreached := h.reached.step hstep
        have hbroken : ∀ state ∈ seen, Fails state → sender.broken = true := by
          intro state hstate hfails
          obtain ⟨other, hother, hbreaks⟩ := h.broken state hstate hfails
          obtain rfl := Option.some.inj (hsender.symm.trans hother)
          exact hbreaks
        rcases step?_eq_some hsender hstep with
          ⟨-, -, rfl⟩ | ⟨_, _, hpulling, -, rfl⟩ | ⟨delivery, -, rfl⟩ | ⟨-, -, rfl⟩
        · exact ⟨hreached, h.trail, h.inOrder, fun state hstate hfails =>
            ⟨_, rfl, hbroken state hstate hfails⟩⟩
        · exact absurd hpulling hphase
        · exact ⟨hreached, h.trail, h.inOrder, fun state hstate hfails =>
            ⟨_, rfl, hbroken state hstate hfails⟩⟩
        · exact ⟨hreached, h.trail, h.inOrder, fun state hstate hfails =>
            ⟨_, rfl, hbroken state hstate hfails⟩⟩

theorem Visited.serveWithin (h : Visited size origin seen channel) (steps : Nat) :
    Visited size origin (seen ++ channel.visitsWithin steps) (channel.serveWithin steps) := by
  induction steps generalizing seen channel with
  | zero =>
      rw [visitsWithin, List.append_nil]
      exact h
  | succ steps ih =>
      have hstepped := h.step
      unfold visitsWithin BodyChannel.serveWithin
      cases hstep : channel.step? with
      | none =>
          rw [hstep, Option.getD_none] at hstepped
          rw [List.append_nil]
          exact hstepped
      | some next =>
          rw [hstep, Option.getD_some] at hstepped
          rw [← List.append_assoc]
          exact ih hstepped

theorem Visited.serve (h : Visited size origin seen channel) :
    Visited size origin (seen ++ channel.serveVisits) channel.serve :=
  h.serveWithin _

/-! The end of a body. -/

theorem Underway.chunk (h : Underway origin state) {data : Bytes} {rest : σ}
    (hpull : pull state = some (.ok (.chunk data), rest)) : Underway origin rest := by
  obtain ⟨pieces, hpulls, hpieces⟩ := h
  refine ⟨pieces ++ [.ok (.chunk data)], hpulls.pull hpull, fun piece hpiece => ?_⟩
  rcases List.mem_append.mp hpiece with hpiece | hpiece
  · exact hpieces piece hpiece
  · rw [List.mem_singleton.mp hpiece]
    rfl

theorem not_fails_of_ok {item : PayloadItem} {rest : σ}
    (hpull : pull state = some (.ok item, rest)) : ¬ Fails state := by
  rintro ⟨fault, after, hfault⟩
  rw [hpull] at hfault
  simp at hfault

/-- Visits lead here.  Where they bring a body to its end, none of them has failed. -/
structure Gone (origin first last : σ) (visits : List σ) (isWhole : Prop) : Prop where
  trail : Trail id beyond first visits last
  inOrder : InOrder origin visits
  whole : isWhole → ∀ state ∈ visits, ¬ Fails state

theorem gone_skipWithin (h : Underway origin state) (fuel : Nat) :
    ∃ last, Gone origin state last (skipVisits fuel state)
        (∃ rest, skipWithin fuel state = some (.ok (), rest)) ∧
      ∀ outcome rest, skipWithin fuel state = some (outcome, rest) → rest = last := by
  induction fuel generalizing state with
  | zero =>
      refine ⟨state, ⟨rfl, ⟨?_, .nil⟩, ?_⟩, ?_⟩
      all_goals simp [skipVisits, skipWithin]
  | succ fuel ih =>
      have hstate : InOrder origin [state] := ⟨by simpa using h, List.pairwise_singleton _ _⟩
      unfold skipVisits skipWithin
      rcases hpull : pull state with _ | ⟨fault | data | _, rest⟩
      · refine ⟨beyond state, ⟨⟨rfl, rfl⟩, hstate, ?_⟩, ?_⟩
        all_goals simp
      · refine ⟨beyond state, ⟨⟨rfl, rfl⟩, hstate, ?_⟩, ?_⟩
        all_goals simp [beyond, hpull]
      · obtain ⟨last, hlater, hlast⟩ := ih (h.chunk hpull)
        have hbeyond : beyond state = rest := by simp [beyond, hpull]
        have hnot := not_fails_of_ok hpull
        refine ⟨last, ⟨⟨rfl, hbeyond ▸ hlater.trail⟩, ?_, ?_⟩, hlast⟩
        · exact hstate.append hlater.inOrder fun _ => by simpa using hnot
        · exact fun hwhole => by simpa [hnot] using hlater.whole hwhole
      · refine ⟨beyond state, ⟨⟨rfl, rfl⟩, hstate, fun _ => ?_⟩, ?_⟩
        · simpa using not_fails_of_ok hpull
        · simp [beyond, hpull]

/-- Finishing goes on from where the sender was left standing, unless the body was at its end. -/
theorem Visited.finish (h : Visited size origin seen channel) :
    ∃ last, Gone origin origin last (seen ++ channel.finishVisits)
        (∃ next, channel.finish = some (.ok (), next)) ∧
      ∀ received next, channel.finish = some (received, next) → next.source = last := by
  obtain ⟨exchange, sender, hsound, -, hchannel⟩ := h.reached.sound
  have hsender := hchannel ▸ hsound.present
  simp only [finishVisits, BodyChannel.finish, hsender]
  cases hbroken : sender.broken with
  | true =>
      simp only [Bool.true_or, if_true, List.append_nil]
      exact ⟨channel.source, ⟨h.trail, h.inOrder, by simp⟩, by rintro _ _ ⟨⟩; rfl⟩
  | false =>
      have hseen := h.not_fails hsender hbroken
      cases heof : sender.eof with
      | true =>
          simp only [Bool.false_or, Bool.false_eq_true, if_true, if_false, List.append_nil]
          exact ⟨channel.source, ⟨h.trail, h.inOrder, fun _ => hseen⟩, by rintro _ _ ⟨⟩; rfl⟩
      | false =>
          obtain ⟨last, hskipped, hlast⟩ := gone_skipWithin (h.underway hsender heof hbroken)
            (PayloadSource.bound channel.source + 1)
          simp only [Bool.or_self, Bool.false_eq_true, if_false]
          refine ⟨last, ⟨h.trail.append hskipped.trail,
            h.inOrder.append hskipped.inOrder fun _ => hseen, ?_⟩, ?_⟩
          · rintro ⟨next, hfinish⟩ state hstate
            split at hfinish
            · contradiction
            · next outcome rest hskip =>
              obtain ⟨rfl, -⟩ := Prod.mk.inj (Option.some.inj hfinish)
              have hwhole := hskipped.whole ⟨rest, hskip⟩
              exact (List.mem_append.mp hstate).elim (hseen state) (hwhole state)
          · intro received next hfinish
            split at hfinish
            · contradiction
            · next outcome rest hskip =>
              obtain ⟨-, rfl⟩ := Prod.mk.inj (Option.some.inj hfinish)
              exact hlast outcome rest hskip

end BodyChannel

/-! Readers and activities. -/

namespace BodyReader

open BodyChannel

variable [PayloadSource σ] {size : PayloadSize} {origin : σ} {seen : List σ}
  {reader : BodyReader (BodyChannel σ)}

theorem visited_poll (h : Visited size origin seen reader.body) :
    Visited size origin seen reader.poll.2.body := by
  rcases body_poll reader with hbody | hbody
  · rw [hbody]
    exact h
  · rw [hbody]
    exact h.poll

theorem visited_pollData (h : Visited size origin seen reader.body) :
    Visited size origin seen reader.pollData.2.body := by
  unfold pollData
  split
  · next next hpoll => exact visited_poll (by simpa only [hpoll] using visited_poll h)
  · exact visited_poll h

theorem visited_serve (h : Visited size origin seen reader.body) :
    Visited size origin (seen ++ reader.body.serveVisits) reader.serve.body :=
  h.serve

theorem visited_frame (h : Visited size origin seen reader.body) :
    ∃ body, Visited size origin (seen ++ reader.frameVisits) body ∧
      ∀ answer next, reader.frame = some (answer, next) → next.body = body := by
  have hpolled := visited_poll h
  unfold frameVisits frame
  rcases hpoll : reader.poll with ⟨_ | answer, next⟩
  all_goals rw [hpoll] at hpolled
  · refine ⟨_, visited_poll (visited_serve hpolled), fun answer last hframe => ?_⟩
    simp only at hframe
    split at hframe
    · next hlast =>
      obtain ⟨-, rfl⟩ := Prod.mk.inj (Option.some.inj hframe)
      rw [hlast]
    · contradiction
  · refine ⟨next.body, by rwa [List.append_nil], ?_⟩
    rintro _ _ ⟨⟩
    rfl

theorem visited_readWithin (fuel : Nat) (h : Visited size origin seen reader.body) :
    ∃ body, Visited size origin (seen ++ reader.readVisits fuel) body ∧
      ∀ answer next, reader.readWithin fuel = some (answer, next) → next.body = body := by
  induction fuel generalizing seen reader with
  | zero => exact visited_frame h
  | succ fuel ih =>
      obtain ⟨body, hframe, hbody⟩ := visited_frame h
      simp only [readVisits, readWithin]
      split
      · next next hempty =>
        obtain rfl := hbody _ _ hempty
        rw [hempty, ← List.append_assoc]
        exact ih hframe
      · next hnot =>
        refine ⟨body, by rwa [List.append_nil], fun answer last hread => ?_⟩
        split at hread
        · next next hempty => exact absurd hempty (hnot next)
        · exact hbody _ _ hread

theorem visited_gatherWithin (fuel : Nat) (room : Option Nat) (taken : List Bytes)
    (h : Visited size origin seen reader.body) :
    ∃ body, Visited size origin (seen ++ reader.gatherVisits fuel room) body ∧
      ∀ data stop next, reader.gatherWithin fuel room taken = some (data, stop, next) →
        next.body = body := by
  induction fuel generalizing seen reader room taken with
  | zero =>
      rw [gatherVisits, List.append_nil]
      exact ⟨reader.body, h, by simp [gatherWithin]⟩
  | succ fuel ih =>
      obtain ⟨body, hvisited, hbody⟩ := visited_frame h
      simp only [gatherVisits, gatherWithin]
      rcases hframe : reader.frame with _ | ⟨_ | fault | data, next⟩
      · exact ⟨body, by rwa [List.append_nil], by simp⟩
      · refine ⟨body, by rwa [List.append_nil], fun data stop last hgather => ?_⟩
        obtain ⟨-, -, rfl⟩ := by simpa using hgather
        exact hbody _ _ hframe
      · refine ⟨body, by rwa [List.append_nil], fun data stop last hgather => ?_⟩
        obtain ⟨-, -, rfl⟩ := by simpa using hgather
        exact hbody _ _ hframe
      · obtain rfl := hbody _ _ hframe
        simp only
        split
        · refine ⟨next.body, by rwa [List.append_nil], fun data stop last hgather => ?_⟩
          obtain ⟨-, -, rfl⟩ := by simpa using hgather
          rfl
        · rw [← List.append_assoc]
          exact ih _ _ hvisited

theorem visited_gather (limit : Option Nat) (h : Visited size origin seen reader.body) :
    ∃ body, Visited size origin
        (seen ++ reader.gatherVisits (Incoming.bound reader.body + 2) limit) body ∧
      ∀ data stop next, reader.gather limit = some (data, stop, next) → next.body = body := by
  obtain ⟨body, hvisited, hbody⟩ := visited_gatherWithin (Incoming.bound reader.body + 2) limit [] h
  refine ⟨body, hvisited, fun data stop next hgather => ?_⟩
  obtain ⟨⟨seen, stop, next⟩, hwithin, heq⟩ := Option.map_eq_some_iff.mp hgather
  obtain ⟨-, -, rfl⟩ := by simpa using heq
  exact hbody _ _ _ hwithin

end BodyReader

namespace Activity

open BodyChannel

variable [PayloadSource σ] {size : PayloadSize} {origin : σ} {seen : List σ}

theorem visited_run (activity : Activity α) {reader : BodyReader (BodyChannel σ)}
    (h : Visited size origin seen reader.body) :
    ∃ body, Visited size origin (seen ++ activity.visits reader) body ∧
      ∀ result last, activity.run reader = (some result, last) → last.body = body := by
  induction activity generalizing reader seen with
  | done result =>
      refine ⟨reader.body, by rwa [visits, List.append_nil], fun result last hrun => ?_⟩
      rw [← (Prod.mk.inj hrun).2]
  | frame next ih =>
      obtain ⟨body, hvisited, hbody⟩ := BodyReader.visited_frame h
      simp only [visits, run]
      cases hframe : reader.frame with
      | none => exact ⟨body, by rwa [List.append_nil], by simp⟩
      | some found =>
          obtain rfl := hbody _ _ hframe
          rw [← List.append_assoc]
          exact ih _ hvisited
  | read next ih =>
      obtain ⟨body, hvisited, hbody⟩ := BodyReader.visited_readWithin (Incoming.bound reader.body) h
      simp only [visits, run]
      cases hread : reader.read with
      | none => exact ⟨body, by rwa [List.append_nil], by simp⟩
      | some found =>
          obtain rfl := hbody _ _ hread
          rw [← List.append_assoc]
          exact ih _ hvisited
  | poll next ih => exact ih _ (BodyReader.visited_pollData h)
  | gather limit next ih =>
      obtain ⟨body, hvisited, hbody⟩ := BodyReader.visited_gather limit h
      simp only [visits, run]
      cases hgather : reader.gather limit with
      | none => exact ⟨body, by rwa [List.append_nil], by simp⟩
      | some found =>
          obtain rfl := hbody _ _ _ hgather
          rw [← List.append_assoc]
          exact ih _ _ hvisited
  | inspect next ih => exact ih _ h
  | pause next ih =>
      rw [visits, run, ← List.append_assoc]
      exact ih (BodyReader.visited_serve h)
  | wait steps next ih =>
      rw [visits, run, ← List.append_assoc]
      exact ih (h.serveWithin steps)
  | release next ih => exact ih h.dropReceiver

end Activity

end Turnpike
