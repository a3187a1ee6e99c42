import Turnpike.Connection.Feed
import Turnpike.Proofs.Body.Exchange

/-!
What is under way between the two ends of a body channel while both are alive: one token at most,
which is a demand in the channel, a demand that the sender has taken, or an item on its way back.
The receiver's flag stands for that token, and so neither end waits for the other in vain.
-/

namespace Turnpike

namespace BodyChannel

/-- The demands that are taken and not answered. -/
def answering : SenderPhase → Nat
  | .pulling | .offering _ => 1
  | .waiting | .stopped => 0

def tokens (channel : BodyChannel σ) : Nat :=
  channel.demands + (channel.sender.map fun sender => answering sender.phase).getD 0 +
    channel.items.length

/-- The receiver has asked, and there is no answer. -/
def Pends (channel : BodyChannel σ) : Prop :=
  channel.items = [] ∧ ∃ receiver, channel.receiver = some receiver ∧ receiver.inFlight = true

/-- The sender knows that it is asked, and only the source can keep it from answering. -/
def IsServed [PayloadSource σ] (channel : BodyChannel σ) : Prop :=
  ∃ sender, channel.sender = some sender ∧
    ((sender.phase = .waiting ∧ channel.demands = 1) ∨ sender.phase = .pulling ∨
      ∃ delivery, sender.phase = .offering delivery) ∧
    (channel.step? = none → sender.phase = .pulling ∧ pull channel.source = none)

namespace Exchange

variable [PayloadSource σ] {size : PayloadSize} {origin : σ} {exchange : Exchange σ}
  {receiver : Receiver} {sender : BodySender}

/-- The sender has stopped at a last piece, which is on its way to the receiver or there. -/
def HasTold (exchange : Exchange σ) (sender : BodySender) : Prop :=
  ∃ pieces last, exchange.pulled = pieces ++ [last] ∧
    (∀ delivery ∈ pieces, isLast delivery = false) ∧
    (sender.eof = true ∧ last = .ok .eof ∨ sender.broken = true ∧ ∃ fault, last = .error fault) ∧
    (exchange.channel.items = [last.mapError forwarded] ∨
      exchange.channel.items = [] ∧ exchange.yielded.getLast? = some (last.mapError forwarded))

/-- Neither end has given up, and a receiver that asks no more does not wait either. -/
structure Alive (size : PayloadSize) (origin : σ) (exchange : Exchange σ) (receiver : Receiver)
    (sender : BodySender) : Prop where
  sound : Sound size origin exchange sender
  undisturbed : exchange.interrupted = false
  present : exchange.channel.receiver = some receiver
  settled : (receiver.finished || receiver.size.isEmpty) = true → receiver.inFlight = false

theorem alive_start (size : PayloadSize) (origin : σ) :
    Alive size origin (start size origin) ⟨size, false, false⟩ ⟨.waiting, false, false⟩ :=
  ⟨sound_start size origin, rfl, rfl, fun _ => rfl⟩

theorem Alive.closed (h : Alive size origin exchange receiver sender)
    (hended : (receiver.finished || receiver.size.isEmpty) = true) :
    ∀ other, exchange.channel.receiver = some other →
      (other.finished || other.size.isEmpty) = true := by
  intro other hother
  obtain rfl := Option.some.inj (h.present.symm.trans hother)
  exact hended

theorem alive_poll (h : Alive size origin exchange receiver sender) :
    ∃ next, Alive size origin exchange.poll next sender := by
  have hsound := sound_poll h.sound
  cases hopen : receiver.finished || receiver.size.isEmpty with
  | true =>
      have hclosed := h.closed hopen
      refine ⟨{ receiver with finished := true }, hsound, h.undisturbed, ?_,
        fun _ => h.settled hopen⟩
      simp only [poll, poll_of_closed hclosed, h.present, Option.map_some]
  | false =>
      rcases poll_of_open h.present hopen h.sound.present with
        ⟨-, -, hpoll⟩ | ⟨-, hpoll⟩ | ⟨delivery, items, -, hpoll⟩
      · refine ⟨receiver, hsound, h.undisturbed, ?_, h.settled⟩
        simp only [poll, hpoll, h.present]
      · refine ⟨{ receiver with inFlight := true }, hsound, h.undisturbed, ?_, ?_⟩
        · simp only [poll, hpoll]
        · intro hended
          rw [hopen] at hended
          contradiction
      · refine ⟨{ receiver with inFlight := false, finished := isLast delivery }, hsound,
          h.undisturbed, ?_, fun _ => rfl⟩
        simp only [poll, hpoll]

theorem alive_step (h : Alive size origin exchange receiver sender) :
    ∃ next, Alive size origin exchange.step receiver next := by
  obtain ⟨next, hsound⟩ := sound_step h.sound
  refine ⟨next, hsound, interrupted_apply h.undisturbed (nofun : Event.step ≠ .interrupt), ?_, h.settled⟩
  cases hstep : exchange.channel.step? with
  | none =>
      simp only [step, hstep]
      exact h.present
  | some channel =>
      simp only [step, hstep]
      rcases step?_eq_some h.sound.present hstep with
        ⟨-, -, rfl⟩ | ⟨_, _, -, -, rfl⟩ | ⟨_, -, rfl⟩ | ⟨-, -, rfl⟩
      all_goals exact h.present

theorem alive_run (h : Alive size origin exchange receiver sender) {events : List Event}
    (hevents : ∀ event ∈ events, event = .poll ∨ event = .step) :
    ∃ receiver sender, Alive size origin (exchange.run events) receiver sender := by
  induction events generalizing exchange receiver sender with
  | nil => exact ⟨receiver, sender, h⟩
  | cons event events ih =>
      have hlater := fun other hother => hevents other (List.mem_cons_of_mem event hother)
      rcases hevents event List.mem_cons_self with rfl | rfl
      · obtain ⟨next, hnext⟩ := alive_poll h
        exact ih hnext hlater
      · obtain ⟨next, hnext⟩ := alive_step h
        exact ih hnext hlater

theorem Alive.not_givenUp (h : Alive size origin exchange receiver sender) :
    ¬ exchange.GivenUp := by
  intro hgiven
  have hinterrupted := hgiven.interrupted h.present
  rw [h.undisturbed] at hinterrupted
  contradiction

/-- Nothing is lost as long as nobody gives up. -/
theorem Alive.flow (h : Alive size origin exchange receiver sender) :
    exchange.pulled.map (Except.mapError forwarded) =
      exchange.yielded ++ exchange.channel.items ++ held sender.phase := by
  obtain ⟨lost, hflow, hlost⟩ := h.sound.flow
  obtain rfl : lost = [] := hlost.resolve_right fun hgiven => h.not_givenUp hgiven.2
  rw [hflow, List.append_nil]

/-- The receiver's flag counts what is under way. -/
theorem Alive.tokens_eq (h : Alive size origin exchange receiver sender) :
    exchange.channel.tokens = if receiver.inFlight then 1 else 0 := by
  obtain ⟨spent, hdemanded, hspent⟩ := h.sound.demanded
  obtain rfl : spent = 0 := hspent.resolve_right (by simp [h.undisturbed])
  have hinFlight := h.sound.inFlight receiver h.present
  have hpulled := congrArg List.length h.flow
  simp only [List.length_map, List.length_append] at hpulled
  have hsender : exchange.channel.tokens =
      exchange.channel.demands + answering sender.phase + exchange.channel.items.length := by
    simp only [tokens, h.sound.present, Option.map_some, Option.getD_some]
  have hanswering : answering sender.phase = owed sender.phase + (held sender.phase).length := by
    cases sender.phase <;> rfl
  omega

theorem Alive.hasTold (h : Alive size origin exchange receiver sender)
    (hphase : sender.phase = .stopped) : HasTold exchange sender := by
  have hdone := (h.sound.stopped hphase).resolve_right h.not_givenUp
  have hflow := h.flow
  have htokens := h.tokens_eq
  rw [hphase] at hflow
  simp only [held, List.append_nil] at hflow
  obtain ⟨pieces, hpieces, ⟨heof, hbroken, -⟩ | ⟨-, -, hended⟩⟩ := h.sound.knows
  · rw [heof, hbroken] at hdone
    contradiction
  · obtain ⟨last, hpulled, hkind⟩ : ∃ last, exchange.pulled = pieces ++ [last] ∧
        (sender.eof = true ∧ last = .ok .eof ∨
          sender.broken = true ∧ ∃ fault, last = .error fault) := by
      rcases hended with ⟨heof, -, hpulled⟩ | ⟨hbroken, fault, hpulled⟩
      · exact ⟨_, hpulled, .inl ⟨heof, rfl⟩⟩
      · exact ⟨_, hpulled, .inr ⟨hbroken, fault, rfl⟩⟩
    refine ⟨pieces, last, hpulled, hpieces, hkind, ?_⟩
    rw [hpulled, List.map_append, List.map_singleton] at hflow
    rcases hitems : exchange.channel.items with _ | ⟨item, items⟩
    · rw [hitems, List.append_nil] at hflow
      exact .inr ⟨rfl, by rw [← hflow, List.getLast?_concat]⟩
    · -- one token is all there is, so that the item is the last piece
      have hlength : exchange.channel.items.length ≤ 1 := by
        unfold tokens at htokens
        split at htokens <;> omega
      rw [hitems] at hlength hflow
      obtain rfl : items = [] := List.length_eq_zero_iff.mp (by simpa using hlength)
      obtain ⟨-, hsame⟩ := List.append_inj' hflow rfl
      exact .inl hsame.symm

theorem Alive.isServed (h : Alive size origin exchange receiver sender)
    (hpends : exchange.channel.Pends) : exchange.channel.IsServed := by
  obtain ⟨hitems, other, hother, hinFlight⟩ := hpends
  obtain rfl := Option.some.inj (h.present.symm.trans hother)
  have htokens := h.tokens_eq
  simp only [tokens, h.sound.present, hitems, hinFlight, Option.map_some, Option.getD_some,
    List.length_nil, if_true] at htokens
  refine ⟨sender, h.sound.present, ?_⟩
  cases hphase : sender.phase with
  | waiting =>
      simp only [hphase, answering] at htokens
      refine ⟨.inl ⟨rfl, by omega⟩, fun hstuck => ?_⟩
      have hdemand : 0 < exchange.channel.demands := by omega
      simp [step?, h.sound.present, hphase, hdemand] at hstuck
  | pulling =>
      refine ⟨.inr (.inl rfl), fun hstuck => ⟨rfl, ?_⟩⟩
      cases hpull : pull exchange.channel.source with
      | none => rfl
      | some found => simp [step?, h.sound.present, hphase, hpull] at hstuck
  | offering delivery =>
      refine ⟨.inr (.inr ⟨delivery, rfl⟩), fun hstuck => ?_⟩
      simp [step?, h.sound.present, hphase, h.present, hitems, slots] at hstuck
  | stopped =>
      -- the receiver has its last piece, and does not wait for another
      obtain ⟨pieces, last, hpulled, hpieces, hkind, htold⟩ := h.hasTold hphase
      obtain ⟨-, hyielded⟩ := htold.resolve_left (by simp [hitems])
      have hlast : isLast (last.mapError forwarded) = true := by
        rcases hkind with ⟨-, rfl⟩ | ⟨-, fault, rfl⟩ <;> rfl
      have hclosed := closed_of_yielded h.sound ⟨_, List.mem_of_getLast? hyielded, hlast⟩
      have hsettled := h.settled (by rw [hclosed receiver h.present, Bool.true_or])
      rw [hinFlight] at hsettled
      contradiction

theorem Alive.pends (h : Alive size origin exchange receiver sender) {next : BodyChannel σ}
    (hpoll : exchange.channel.poll = (.pending, next)) : next.Pends := by
  have htokens := h.tokens_eq
  cases hopen : receiver.finished || receiver.size.isEmpty with
  | true =>
      rw [poll_of_closed (h.closed hopen)] at hpoll
      simp at hpoll
  | false =>
      rcases poll_of_open h.present hopen h.sound.present with
        ⟨hidle, hfull, -⟩ | ⟨hitems, hasked⟩ | ⟨delivery, items, -, hready⟩
      · simp only [tokens, hidle, Bool.false_eq_true, if_false, slots] at htokens hfull
        omega
      · rw [hpoll] at hasked
        obtain rfl := (Prod.mk.inj hasked).2
        exact ⟨hitems, _, rfl, rfl⟩
      · rw [hpoll] at hready
        simp at hready

/-- What holds at every moment between two ends that have not given up. -/
structure Balanced (exchange : Exchange σ) (receiver : Receiver) (sender : BodySender) :
    Prop where
  receives : exchange.channel.receiver = some receiver
  sends : exchange.channel.sender = some sender
  inFlight : receiver.inFlight = true ↔ exchange.channel.tokens = 1
  tokens : exchange.channel.tokens ≤ 1
  demands : exchange.channel.demands ≤ 1
  items : exchange.channel.items.length ≤ 1
  told : sender.phase = .stopped → HasTold exchange sender
  served : exchange.channel.Pends → exchange.channel.IsServed
  polled : ∀ next, exchange.channel.poll = (.pending, next) → next.Pends ∧ next.IsServed

theorem Alive.balanced (h : Alive size origin exchange receiver sender) :
    Balanced exchange receiver sender := by
  have htokens := h.tokens_eq
  have hatMost : exchange.channel.tokens ≤ 1 := by
    rw [htokens]
    split <;> omega
  have hparts := hatMost
  unfold BodyChannel.tokens at hparts
  refine ⟨h.present, h.sound.present, ?_, hatMost, by omega, by omega, h.hasTold, h.isServed, ?_⟩
  · rw [htokens]
    cases receiver.inFlight <;> simp
  · intro next hpoll
    obtain ⟨polled, hpolled⟩ := alive_poll h
    have hnext : exchange.poll.channel = next := congrArg Prod.snd hpoll
    refine ⟨h.pends hpoll, ?_⟩
    rw [← hnext]
    exact hpolled.isServed (hnext ▸ h.pends hpoll)

/-- However polls and steps of the sender follow each other, the receiver waits if and only if one
token is under way, and never are there two.  A sender that has stopped has told so, and one that
has not goes on while the receiver waits and the source has something to give. -/
theorem run_start_balanced (size : PayloadSize) (origin : σ) {events : List Event}
    (hevents : ∀ event ∈ events, event = .poll ∨ event = .step) :
    ∃ receiver sender, Balanced ((start size origin).run events) receiver sender := by
  obtain ⟨receiver, sender, h⟩ := alive_run (alive_start size origin) hevents
  exact ⟨receiver, sender, h.balanced⟩

/-- The receiver asks again before it has what it asked for, and the sender stops at the end of the
body, with the end still on its way. -/
theorem run_start_balanced_to_the_end :
    let segments := [Bytes.ofText "POST / HTTP/1.1\r\nContent-Length: 3\r\n\r\nabc"]
    let origin := (Feed.start 8192 segments .eof).next.2
    let events : List Event := [.poll, .step, .step, .poll, .step, .poll, .poll, .step, .step, .step]
    let exchange := (start (.length 3) origin).run events
    (∀ event ∈ events, event = .poll ∨ event = .step) ∧
      exchange.yielded.map isLast = [false] ∧ exchange.channel.items.map isLast = [true] ∧
      ∃ receiver sender, Balanced exchange receiver sender := by
  intro segments origin events exchange
  have hevents : ∀ event ∈ events, event = .poll ∨ event = .step := by decide
  exact ⟨hevents, by decide +kernel, by decide +kernel,
    run_start_balanced (.length 3) origin hevents⟩

end Exchange

end BodyChannel

end Turnpike
