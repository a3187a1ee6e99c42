import Turnpike.Body.Activity
import Turnpike.Proofs.Body.Progress

/-!
Handlers at a body channel.  Whatever a handler does it leaves the channel in a state that polls and
steps lead to, and it is kept waiting only where the source has nothing to give.
-/

namespace Turnpike

namespace BodyChannel

variable [PayloadSource σ] {size : PayloadSize} {origin : σ} {channel : BodyChannel σ}

/-- The bound of the source holds for what is pulled from it. -/
def Bounded (origin : σ) : Prop :=
  ∀ {pieces state delivery rest}, Pulls origin pieces state →
    (∀ piece ∈ pieces, isLast piece = false) → pull state = some (delivery, rest) →
    0 < PayloadSource.bound state ∧
      (isLast delivery = false → PayloadSource.bound rest < PayloadSource.bound state)

/-- No more than this many pieces are still to be pulled. -/
def toPull (sender : BodySender) (source : σ) : Nat :=
  if sender.eof || sender.broken then 0 else PayloadSource.bound source

/-- No more than this many answers are still to come. -/
def potential (channel : BodyChannel σ) : Nat :=
  channel.items.length + match channel.sender with
    | none => 0
    | some sender => (Exchange.held sender.phase).length + toPull sender channel.source

theorem toPull_pulled {sender : BodySender} (hbroken : sender.broken = false) {state rest : σ}
    {delivery : Delivery} (hpos : 0 < PayloadSource.bound state)
    (hless : isLast delivery = false → PayloadSource.bound rest < PayloadSource.bound state) :
    toPull (BodySender.pulled sender delivery) rest < PayloadSource.bound state := by
  match delivery with
  | .ok (.chunk data) =>
      rw [toPull, if_neg (by simp [BodySender.pulled, PayloadItem.isEof, hbroken])]
      exact hless rfl
  | .ok .eof =>
      rw [toPull, if_pos (by simp [BodySender.pulled, PayloadItem.isEof])]
      exact hpos
  | .error fault =>
      rw [toPull, if_pos (by simp [BodySender.pulled])]
      exact hpos

theorem potential_le (channel : BodyChannel σ) : potential channel ≤ Incoming.bound channel + 1 := by
  have hbound : Incoming.bound channel =
      PayloadSource.bound channel.source + channel.items.length := rfl
  unfold potential
  split
  · omega
  · next sender _ =>
    have hheld : (Exchange.held sender.phase).length ≤ 1 := by
      cases sender.phase <;> simp [Exchange.held]
    have hpull : toPull sender channel.source ≤ PayloadSource.bound channel.source := by
      unfold toPull
      split
      · exact Nat.zero_le _
      · exact Nat.le_refl _
    omega

theorem potential_poll (h : Reached size origin channel) :
    potential channel.poll.2 ≤ potential channel ∧
      ∀ data, channel.poll.1 = .ready (some (.ok data)) →
        potential channel.poll.2 < potential channel := by
  obtain ⟨exchange, sender, hsound, -, rfl⟩ := h.sound
  by_cases hclosed : ∀ receiver, exchange.channel.receiver = some receiver →
      (receiver.finished || receiver.size.isEmpty) = true
  · rw [poll_of_closed hclosed]
    exact ⟨Nat.le_refl _, nofun⟩
  · obtain ⟨receiver, hreceiver⟩ := Classical.not_forall.mp hclosed
    obtain ⟨hreceiver, hopen⟩ := Classical.not_imp.mp hreceiver
    rcases poll_of_open hreceiver (by simpa using hopen) hsound.present with
      ⟨-, -, hpoll⟩ | ⟨-, hpoll⟩ | ⟨delivery, items, hitems, hpoll⟩
    · rw [hpoll]
      exact ⟨Nat.le_refl _, nofun⟩
    · rw [hpoll]
      exact ⟨Nat.le_refl _, nofun⟩
    · rw [hpoll]
      simp only [potential, hitems, List.length_cons]
      exact ⟨by omega, fun _ _ => by omega⟩

theorem potential_step (hbounded : Bounded origin) (h : Reached size origin channel)
    {next : BodyChannel σ} (hstep : channel.step? = some next) :
    potential next ≤ potential channel := by
  obtain ⟨exchange, sender, hsound, -, rfl⟩ := h.sound
  have hpresent := hsound.present
  rcases step?_eq_some hpresent hstep with ⟨hphase, -, rfl⟩ |
    ⟨delivery, rest, hphase, hpull, rfl⟩ | ⟨delivery, hphase, rfl⟩ | ⟨-, -, rfl⟩
  · simp only [potential, withPhase, hpresent, hphase, Exchange.held]
    exact Nat.le_refl _
  · obtain ⟨heof, hbroken, hpieces⟩ := hsound.knows.of_active (.inr hphase)
    obtain ⟨hpos, hless⟩ := hbounded hsound.pulls hpieces hpull
    have hpulled := toPull_pulled hbroken hpos hless
    have hbefore : toPull sender exchange.channel.source =
        PayloadSource.bound exchange.channel.source := by
      rw [toPull, heof, hbroken]
      rfl
    simp only [potential, hpresent, hphase, hbefore, Exchange.phase_pulled, Exchange.held,
      List.length_nil, List.length_singleton]
    omega
  · have hheld : Exchange.held (if sender.eof || sender.broken then .stopped else .waiting) = [] := by
      split <;> rfl
    simp only [potential, withPhase, hpresent, hphase, hheld, toPull]
    simp only [Exchange.held, List.length_append, List.length_singleton, List.length_nil]
    omega
  · simp only [potential, withPhase, hpresent, Exchange.held, List.length_nil, toPull]
    omega

theorem potential_serveWithin (hbounded : Bounded origin) (h : Reached size origin channel)
    (steps : Nat) : potential (channel.serveWithin steps) ≤ potential channel := by
  induction steps generalizing channel with
  | zero => exact Nat.le_refl _
  | succ steps ih =>
      unfold serveWithin
      cases hstep : channel.step? with
      | none => exact Nat.le_refl _
      | some next => exact Nat.le_trans (ih (h.step hstep)) (potential_step hbounded h hstep)

end BodyChannel

namespace BodyReader

open BodyChannel

variable [PayloadSource σ] {size : PayloadSize} {origin : σ} {reader : BodyReader (BodyChannel σ)}

theorem body_poll (reader : BodyReader (BodyChannel σ)) :
    reader.poll.2.body = reader.body ∨ reader.poll.2.body = reader.body.poll.2 := by
  unfold poll
  split
  · exact .inl rfl
  · right
    split <;> simp_all [Incoming.poll]

theorem body_of_poll_pending {next : BodyReader (BodyChannel σ)}
    (h : reader.poll = (.pending, next)) : reader.body.poll = (.pending, next.body) := by
  unfold poll at h
  split at h
  · simp at h
  · split at h
    · next body hbody =>
      obtain rfl := (Prod.mk.inj h).2
      exact hbody
    · simp at h
    · simp at h

theorem reached_poll (h : Reached size origin reader.body) :
    Reached size origin reader.poll.2.body := by
  rcases body_poll reader with hbody | hbody
  · rw [hbody]
    exact h
  · rw [hbody]
    exact h.poll

theorem reached_pollData (h : Reached size origin reader.body) :
    Reached size origin reader.pollData.2.body := by
  unfold pollData
  split
  · next next hpoll => exact reached_poll (by simpa only [hpoll] using reached_poll h)
  · exact reached_poll h

theorem reached_frame (h : Reached size origin reader.body) {answer : Answer}
    {next : BodyReader (BodyChannel σ)} (hframe : reader.frame = some (answer, next)) :
    Reached size origin next.body := by
  have hpolled := reached_poll h
  unfold frame at hframe
  split at hframe
  · next hpoll =>
    rw [hpoll] at hpolled
    obtain ⟨-, rfl⟩ := Prod.mk.inj (Option.some.inj hframe)
    exact hpolled
  · next waiting hpoll =>
    rw [hpoll] at hpolled
    have hserved : Reached size origin waiting.serve.body := hpolled.serveWithin _
    split at hframe
    · next last hlast =>
      obtain ⟨-, rfl⟩ := Prod.mk.inj (Option.some.inj hframe)
      simpa only [hlast] using reached_poll hserved
    · contradiction

theorem starved_of_frame (h : Reached size origin reader.body) (hframe : reader.frame = none) :
    Starved origin := by
  unfold frame at hframe
  split at hframe
  · contradiction
  · next waiting hpoll =>
    split at hframe
    · contradiction
    · next last hlast =>
      obtain ⟨-, receiver, hwaiting⟩ := h.waiting (body_of_poll_pending hpoll)
      have hserved : Reached size origin waiting.serve.body := hwaiting.reached.serveWithin _
      have hitems := (hserved.waiting (body_of_poll_pending hlast)).1
      exact hwaiting.serve.resolve_left fun hcome => hcome hitems

theorem reached_readWithin (fuel : Nat) (h : Reached size origin reader.body) :
    (∀ {answer next}, reader.readWithin fuel = some (answer, next) → Reached size origin next.body) ∧
      (reader.readWithin fuel = none → Starved origin) := by
  induction fuel generalizing reader with
  | zero => exact ⟨reached_frame h, starved_of_frame h⟩
  | succ fuel ih =>
      unfold readWithin
      split
      · next next hframe => exact ih (reached_frame h hframe)
      · exact ⟨reached_frame h, starved_of_frame h⟩

theorem potential_poll (h : Reached size origin reader.body) :
    potential reader.poll.2.body ≤ potential reader.body ∧
      ∀ data, reader.poll.1 = .ready (some (.ok data)) →
        potential reader.poll.2.body < potential reader.body := by
  obtain ⟨hle, hlt⟩ := BodyChannel.potential_poll h
  unfold poll
  split
  · exact ⟨Nat.le_refl _, nofun⟩
  · change potential reader.body.poll.2 ≤ _ at hle
    have hpoll : Incoming.poll reader.body = reader.body.poll := rfl
    rw [hpoll]
    rcases hpolled : reader.body.poll with ⟨_ | _ | fault | data, body⟩
    all_goals
      rw [hpolled] at hle hlt
    · exact ⟨hle, nofun⟩
    · exact ⟨hle, nofun⟩
    · exact ⟨hle, nofun⟩
    · exact ⟨hle, fun _ _ => hlt data rfl⟩

theorem potential_frame (hbounded : Bounded origin) (h : Reached size origin reader.body)
    {data : Bytes} {next : BodyReader (BodyChannel σ)}
    (hframe : reader.frame = some (some (.ok data), next)) :
    potential next.body < potential reader.body := by
  have hpolled := reached_poll h
  obtain ⟨hle, hlt⟩ := potential_poll h
  unfold frame at hframe
  split at hframe
  · next hpoll =>
    obtain ⟨rfl, rfl⟩ := Prod.mk.inj (Option.some.inj hframe)
    simpa only [hpoll] using hlt data (by rw [hpoll])
  · next waiting hpoll =>
    rw [hpoll] at hpolled hle
    have hserved : Reached size origin waiting.serve.body := hpolled.serveWithin _
    have hserve : potential waiting.serve.body ≤ potential waiting.body :=
      potential_serveWithin hbounded hpolled _
    split at hframe
    · next last hlast =>
      obtain ⟨rfl, rfl⟩ := Prod.mk.inj (Option.some.inj hframe)
      have hless := (potential_poll hserved).2 data (by rw [hlast])
      simp only [hlast] at hless hle
      omega
    · contradiction

theorem reached_gatherWithin (hbounded : Bounded origin) {fuel : Nat} (room : Option Nat)
    (seen : List Bytes) (h : Reached size origin reader.body)
    (hfuel : potential reader.body < fuel) :
    (∀ {data stop next}, reader.gatherWithin fuel room seen = some (data, stop, next) →
        Reached size origin next.body) ∧
      (reader.gatherWithin fuel room seen = none → Starved origin) := by
  induction fuel generalizing reader room seen with
  | zero => contradiction
  | succ fuel ih =>
      simp only [gatherWithin]
      rcases hframe : reader.frame with _ | ⟨_ | fault | data, next⟩
      · exact ⟨nofun, fun _ => starved_of_frame h hframe⟩
      · refine ⟨fun hsome => ?_, nofun⟩
        obtain ⟨-, -, rfl⟩ := by simpa using hsome
        exact reached_frame h hframe
      · refine ⟨fun hsome => ?_, nofun⟩
        obtain ⟨-, -, rfl⟩ := by simpa using hsome
        exact reached_frame h hframe
      · simp only
        split
        · refine ⟨fun hsome => ?_, nofun⟩
          obtain ⟨-, -, rfl⟩ := by simpa using hsome
          exact reached_frame h hframe
        · have hless := potential_frame hbounded h hframe
          exact ih _ _ (reached_frame h hframe) (by omega)

theorem reached_gather (hbounded : Bounded origin) (limit : Option Nat)
    (h : Reached size origin reader.body) :
    (∀ {data stop next}, reader.gather limit = some (data, stop, next) →
        Reached size origin next.body) ∧
      (reader.gather limit = none → Starved origin) := by
  have hpotential := potential_le reader.body
  have hfuel : potential reader.body < Incoming.bound reader.body + 2 := by omega
  obtain ⟨hsome, hnone⟩ := reached_gatherWithin hbounded limit [] h hfuel
  unfold gather
  refine ⟨fun hgather => ?_, fun hgather => hnone (Option.map_eq_none_iff.mp hgather)⟩
  obtain ⟨⟨seen, stop, next⟩, hwithin, heq⟩ := Option.map_eq_some_iff.mp hgather
  obtain ⟨-, -, rfl⟩ := by simpa using heq
  exact hsome hwithin

end BodyReader

namespace Activity

open BodyChannel

variable [PayloadSource σ] {size : PayloadSize} {origin : σ}

/-- An activity leaves a channel that polls and steps lead to, and has no result only where the
source has nothing to give. -/
theorem reached_run (hbounded : Bounded origin) (activity : Activity α)
    {reader : BodyReader (BodyChannel σ)} (h : Reached size origin reader.body) :
    Reached size origin (activity.run reader).2.body ∧
      ((activity.run reader).1 = none → Starved origin) := by
  induction activity generalizing reader with
  | done result => exact ⟨h, nofun⟩
  | frame next ih =>
      simp only [run]
      cases hframe : reader.frame with
      | none => exact ⟨h, fun _ => BodyReader.starved_of_frame h hframe⟩
      | some found => exact ih found.1 (BodyReader.reached_frame h hframe)
  | read next ih =>
      obtain ⟨hsome, hnone⟩ := BodyReader.reached_readWithin (Incoming.bound reader.body) h
      simp only [run]
      cases hread : reader.read with
      | none => exact ⟨h, fun _ => hnone hread⟩
      | some found => exact ih found.1 (hsome hread)
  | poll next ih => exact ih _ (BodyReader.reached_pollData h)
  | gather limit next ih =>
      obtain ⟨hsome, hnone⟩ := BodyReader.reached_gather hbounded limit h
      simp only [run]
      cases hgather : reader.gather limit with
      | none => exact ⟨h, fun _ => hnone hgather⟩
      | some found => exact ih found.1 found.2.1 (hsome hgather)
  | inspect next ih => exact ih _ h
  | pause next ih => exact ih (h.serveWithin _)
  | wait steps next ih => exact ih (h.serveWithin steps)
  | release next ih => exact ih h.dropReceiver

end Activity

end Turnpike
