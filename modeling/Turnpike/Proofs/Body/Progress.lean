import Turnpike.Proofs.Body.Exchange

/-!
A body channel whose sender is left to itself.  A receiver that has to wait is answered as soon as
the source has something to give.
-/

namespace Turnpike

namespace BodyChannel

variable [PayloadSource σ] {size : PayloadSize} {origin : σ} {channel : BodyChannel σ}

/-- Polls, steps and dropping the receiver lead here; the sender is not interrupted. -/
def Reached (size : PayloadSize) (origin : σ) (channel : BodyChannel σ) : Prop :=
  ∃ events, Event.interrupt ∉ events ∧
    channel = ((Exchange.start size origin).run events).channel

/-- After some pieces the source has nothing to give. -/
def Starved (origin : σ) : Prop :=
  ∃ pieces state, Pulls origin pieces state ∧ (∀ delivery ∈ pieces, isLast delivery = false) ∧
    pull state = none

theorem reached_start (size : PayloadSize) (origin : σ) : Reached size origin (start size origin) :=
  ⟨[], nofun, rfl⟩

theorem Reached.apply (h : Reached size origin channel) (event : Event)
    (hevent : event ≠ .interrupt) {next : BodyChannel σ}
    (hnext : ∀ exchange : Exchange σ, exchange.channel = channel →
      (exchange.apply event).channel = next) : Reached size origin next := by
  obtain ⟨events, hevents, rfl⟩ := h
  refine ⟨events ++ [event], by simp [hevents, hevent.symm], ?_⟩
  rw [Exchange.run_append]
  exact (hnext _ rfl).symm

theorem Reached.poll (h : Reached size origin channel) : Reached size origin channel.poll.2 := by
  refine h.apply Event.poll nofun fun exchange hchannel => ?_
  subst hchannel
  rfl

theorem Reached.step (h : Reached size origin channel) {next : BodyChannel σ}
    (hstep : channel.step? = some next) : Reached size origin next := by
  refine h.apply Event.step nofun fun exchange hchannel => ?_
  subst hchannel
  simp only [Exchange.apply, Exchange.step, hstep]

theorem Reached.dropReceiver (h : Reached size origin channel) :
    Reached size origin channel.dropReceiver := by
  refine h.apply Event.dropReceiver nofun fun exchange hchannel => ?_
  subst hchannel
  rfl

theorem Reached.serveWithin (h : Reached size origin channel) (steps : Nat) :
    Reached size origin (channel.serveWithin steps) := by
  induction steps generalizing channel with
  | zero => exact h
  | succ steps ih =>
      unfold BodyChannel.serveWithin
      cases hstep : channel.step? with
      | none => exact h
      | some next => exact ih (h.step hstep)

theorem Reached.sound (h : Reached size origin channel) :
    ∃ exchange sender, Exchange.Sound size origin exchange sender ∧
      exchange.interrupted = false ∧ exchange.channel = channel := by
  obtain ⟨events, hevents, rfl⟩ := h
  obtain ⟨sender, hsound⟩ := Exchange.sound_run (Exchange.sound_start size origin) events
  exact ⟨_, sender, hsound, Exchange.interrupted_run rfl hevents, rfl⟩

/-! A receiver that waits. -/

/-- It has asked and not been answered, and nothing is on its way to it. -/
structure Waiting (size : PayloadSize) (origin : σ) (channel : BodyChannel σ)
    (receiver : Receiver) : Prop where
  reached : Reached size origin channel
  present : channel.receiver = some receiver
  isOpen : (receiver.finished || receiver.size.isEmpty) = false
  inFlight : receiver.inFlight = true
  items : channel.items = []

theorem Reached.waiting (h : Reached size origin channel) {next : BodyChannel σ}
    (hpoll : channel.poll = (.pending, next)) :
    channel.items = [] ∧ ∃ receiver, Waiting size origin next receiver := by
  have hnext : Reached size origin next := by
    simpa only [hpoll] using h.poll
  obtain ⟨exchange, sender, hsound, hinterrupted, rfl⟩ := h.sound
  cases hreceiver : exchange.channel.receiver with
  | none =>
      rw [poll_of_closed (by simp [hreceiver])] at hpoll
      simp at hpoll
  | some receiver =>
      cases hopen : receiver.finished || receiver.size.isEmpty with
      | true =>
          have hclosed : ∀ other, exchange.channel.receiver = some other →
              (other.finished || other.size.isEmpty) = true := by
            intro other hother
            obtain rfl := Option.some.inj (hreceiver.symm.trans hother)
            exact hopen
          rw [poll_of_closed hclosed] at hpoll
          simp at hpoll
      | false =>
          rcases poll_of_open hreceiver hopen hsound.present with
            ⟨hidle, hfull, -⟩ | ⟨hitems, hasked⟩ | ⟨delivery, items, -, hready⟩
          · -- every demand that was sent is answered, so the channel has room for another
            have hdemanded := hsound.inFlight receiver hreceiver
            obtain ⟨spent, htotal, -⟩ := hsound.demanded
            obtain ⟨lost, hflow, -⟩ := hsound.flow
            have hlength := congrArg List.length hflow
            simp only [List.length_map, List.length_append] at hlength
            simp only [hidle, Bool.false_eq_true, if_false, slots] at hdemanded hfull
            omega
          · rw [hpoll] at hasked
            obtain rfl := (Prod.mk.inj hasked).2
            exact ⟨hitems, _, hnext, rfl, hopen, rfl, hitems⟩
          · rw [hpoll] at hready
            simp at hready

theorem items_serveWithin (h : Reached size origin channel) (steps : Nat) :
    channel.items <+: (channel.serveWithin steps).items ∧
      (channel.serveWithin steps).receiver = channel.receiver := by
  induction steps generalizing channel with
  | zero => exact ⟨List.prefix_rfl, rfl⟩
  | succ steps ih =>
      unfold BodyChannel.serveWithin
      cases hstep : channel.step? with
      | none => exact ⟨List.prefix_rfl, rfl⟩
      | some next =>
          obtain ⟨hitems, hreceiver⟩ := ih (h.step hstep)
          obtain ⟨exchange, sender, hsound, -, rfl⟩ := h.sound
          rcases step?_eq_some hsound.present hstep with
            ⟨-, -, rfl⟩ | ⟨_, _, -, -, rfl⟩ | ⟨delivery, -, rfl⟩ | ⟨-, -, rfl⟩
          · exact ⟨hitems, hreceiver⟩
          · exact ⟨hitems, hreceiver⟩
          · exact ⟨(List.prefix_append _ _).trans hitems, hreceiver⟩
          · exact ⟨hitems, hreceiver⟩

theorem serveWithin_of_offering (h : Reached size origin channel) {sender : BodySender}
    (hsender : channel.sender = some sender) {delivery : Delivery}
    (hphase : sender.phase = .offering delivery) {receiver : Receiver}
    (hreceiver : channel.receiver = some receiver) (hitems : channel.items = []) (steps : Nat) :
    (channel.serveWithin (steps + 1)).items ≠ [] := by
  have hstep : channel.step? =
      some ({ channel with items := [delivery] }.withPhase sender
        (if sender.eof || sender.broken then .stopped else .waiting)) := by
    simp only [step?, hsender, hphase, hreceiver, hitems]
    rfl
  have hserve := (items_serveWithin (h.step hstep) steps).1
  unfold BodyChannel.serveWithin
  rw [hstep]
  intro hnone
  rw [hnone] at hserve
  simp [withPhase] at hserve

theorem serveWithin_of_pulling (h : Reached size origin channel) {sender : BodySender}
    (hsender : channel.sender = some sender) (hphase : sender.phase = .pulling)
    {receiver : Receiver} (hreceiver : channel.receiver = some receiver)
    (hitems : channel.items = []) (steps : Nat) :
    (channel.serveWithin (steps + 2)).items ≠ [] ∨ Starved origin := by
  cases hpull : pull channel.source with
  | none =>
      obtain ⟨exchange, other, hsound, -, rfl⟩ := h.sound
      obtain rfl := Option.some.inj (hsender.symm.trans hsound.present)
      exact .inr ⟨exchange.pulled, exchange.channel.source, hsound.pulls,
        (hsound.knows.of_active (.inr hphase)).2.2, hpull⟩
  | some found =>
      obtain ⟨delivery, rest⟩ := found
      have hstep : channel.step? =
          some { channel with
            sender := some (BodySender.pulled sender delivery), source := rest } := by
        simp only [step?, hsender, hphase, hpull]
      unfold BodyChannel.serveWithin
      rw [hstep]
      exact .inl (serveWithin_of_offering (h.step hstep) rfl
        (Exchange.phase_pulled sender delivery) hreceiver hitems steps)

theorem serveWithin_of_waiting (h : Reached size origin channel) {sender : BodySender}
    (hsender : channel.sender = some sender) (hphase : sender.phase = .waiting)
    (hdemand : 0 < channel.demands) {receiver : Receiver}
    (hreceiver : channel.receiver = some receiver) (hitems : channel.items = []) (steps : Nat) :
    (channel.serveWithin (steps + 3)).items ≠ [] ∨ Starved origin := by
  have hstep : channel.step? =
      some ({ channel with demands := channel.demands - 1 }.withPhase sender .pulling) := by
    simp only [step?, hsender, hphase, if_pos hdemand]
  unfold BodyChannel.serveWithin
  rw [hstep]
  exact serveWithin_of_pulling (h.step hstep) rfl rfl hreceiver hitems steps

/-- The sender answers a receiver that waits, unless the source has nothing to give. -/
theorem Waiting.serve {receiver : Receiver} (h : Waiting size origin channel receiver) :
    channel.serve.items ≠ [] ∨ Starved origin := by
  have hreached := h.reached
  obtain ⟨exchange, sender, hsound, hinterrupted, rfl⟩ := h.reached.sound
  have hnot : ¬ exchange.GivenUp := by
    intro hgiven
    rw [hgiven.interrupted h.present] at hinterrupted
    contradiction
  obtain ⟨lost, hflow, hlost⟩ := hsound.flow
  obtain ⟨spent, htotal, hspent⟩ := hsound.demanded
  have hdemanded := hsound.inFlight receiver h.present
  have hfinished := (Bool.or_eq_false_iff.mp h.isOpen).1
  obtain rfl : lost = [] := hlost.resolve_right fun hgiven => hnot hgiven.2
  obtain rfl : spent = 0 := hspent.resolve_right (by simp [hinterrupted])
  have hlength := congrArg List.length hflow
  rw [h.items] at hflow
  simp only [h.items, h.inFlight, if_true, List.length_map, List.length_append, List.append_nil]
    at hlength hdemanded hflow
  unfold BodyChannel.serve
  cases hphase : sender.phase with
  | offering delivery =>
      exact .inl (serveWithin_of_offering hreached hsound.present hphase h.present h.items _)
  | pulling => exact serveWithin_of_pulling hreached hsound.present hphase h.present h.items _
  | waiting =>
      have hdemand : 0 < exchange.channel.demands := by
        simp only [hphase, Exchange.owed, Exchange.held, List.length_nil] at htotal hlength
        omega
      exact serveWithin_of_waiting hreached hsound.present hphase hdemand h.present h.items _
  | stopped =>
      -- it has stopped at the last piece, and the receiver has got that
      have hdone := (hsound.stopped hphase).resolve_right hnot
      obtain ⟨last, hpulled, hlast⟩ := hsound.knows.exists_last hdone
      have hyielded : last.mapError forwarded ∈ exchange.yielded := by
        simp only [hphase, Exchange.held, List.append_nil] at hflow
        exact hflow ▸ List.mem_map_of_mem hpulled
      have hpiece := (hsound.unfinished receiver h.present hfinished).2 _ hyielded
      rw [isLast_mapError, hlast] at hpiece
      contradiction

end BodyChannel

end Turnpike
