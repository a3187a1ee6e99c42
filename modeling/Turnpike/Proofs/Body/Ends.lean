import Turnpike.Body.Channel

/-!
The two ends of a body channel, each by itself: all that one poll of the receiver and one step of
the sender can come to.
-/

namespace Turnpike

namespace BodyChannel

def isLast : Delivery → Bool
  | .ok (.chunk _) => false
  | .ok .eof => true
  | .error _ => true

def answer : Delivery → Answer
  | .ok (.chunk data) => some (.ok data)
  | .ok .eof => none
  | .error fault => some (.error fault)

@[simp] theorem isLast_mapError (f : RequestFault → RequestFault) (delivery : Delivery) :
    isLast (delivery.mapError f) = isLast delivery := by
  cases delivery <;> rfl

theorem receive_cons {channel : BodyChannel σ} {delivery : Delivery} {items : List Delivery}
    (h : channel.items = delivery :: items) {receiver : Receiver}
    (hopen : receiver.finished = false) :
    channel.receive receiver =
      (.ready (answer delivery),
        { channel with
          items
          receiver := some { receiver with inFlight := false, finished := isLast delivery } }) := by
  obtain ⟨size, inFlight, finished⟩ := receiver
  subst hopen
  match delivery with
  | .ok (.chunk data) => simp only [receive, h, answer, isLast]
  | .ok .eof => simp only [receive, h, answer, isLast]
  | .error fault => simp only [receive, h, answer, isLast]

theorem receive_nil {channel : BodyChannel σ} (h : channel.items = []) {sender : BodySender}
    (hsender : channel.sender = some sender) (receiver : Receiver) :
    channel.receive receiver = (.pending, channel.withReceiver receiver) := by
  simp only [receive, h, hsender]

theorem poll_of_closed {channel : BodyChannel σ}
    (h : ∀ receiver, channel.receiver = some receiver →
      (receiver.finished || receiver.size.isEmpty) = true) :
    channel.poll =
      (.ready none,
        { channel with receiver := channel.receiver.map ({ · with finished := true }) }) := by
  obtain ⟨_ | receiver, demands, items, sender, source⟩ := channel
  · rfl
  · simp only [poll, h receiver rfl, if_true]
    rfl

theorem poll_of_open {channel : BodyChannel σ} {receiver : Receiver} {sender : BodySender}
    (hreceiver : channel.receiver = some receiver)
    (hopen : (receiver.finished || receiver.size.isEmpty) = false)
    (hsender : channel.sender = some sender) :
    let asked := if receiver.inFlight then 0 else 1
    (receiver.inFlight = false ∧ slots ≤ channel.demands ∧ channel.poll = (.pending, channel)) ∨
      (channel.items = [] ∧ channel.poll =
        (.pending,
          { channel with
            demands := channel.demands + asked
            receiver := some { receiver with inFlight := true } })) ∨
      ∃ delivery items, channel.items = delivery :: items ∧ channel.poll =
        (.ready (answer delivery),
          { channel with
            demands := channel.demands + asked
            items
            receiver := some
              { receiver with inFlight := false, finished := isLast delivery } }) := by
  obtain ⟨_, demands, items, _, source⟩ := channel
  obtain ⟨size, inFlight, finished⟩ := receiver
  subst hreceiver hsender
  intro asked
  obtain ⟨rfl, -⟩ := Bool.or_eq_false_iff.mp hopen
  have hasked : poll ⟨some ⟨size, inFlight, false⟩, demands, items, some sender, source⟩ =
      (.pending, ⟨some ⟨size, inFlight, false⟩, demands, items, some sender, source⟩) ∧
        inFlight = false ∧ slots ≤ demands ∨
      poll ⟨some ⟨size, inFlight, false⟩, demands, items, some sender, source⟩ =
        receive ⟨some ⟨size, inFlight, false⟩, demands + asked, items, some sender, source⟩
          ⟨size, true, false⟩ := by
    simp only [poll, hopen, Option.isNone_some, Bool.false_eq_true, if_false]
    cases inFlight with
    | true => exact .inr rfl
    | false =>
        simp only [Bool.false_eq_true, if_false]
        split
        · exact .inr rfl
        · next hfull => exact .inl ⟨rfl, trivial, Nat.le_of_not_lt hfull⟩
  rcases hasked with ⟨hpoll, hidle, hfull⟩ | hpoll
  · exact .inl ⟨hidle, hfull, hpoll⟩
  · cases items with
    | nil => exact .inr (.inl ⟨rfl, hpoll.trans (receive_nil rfl rfl _)⟩)
    | cons delivery items =>
        exact .inr (.inr ⟨delivery, items, rfl, hpoll.trans (receive_cons rfl rfl)⟩)

/-- All that the sender ever does. -/
theorem step?_eq_some [PayloadSource σ] {channel next : BodyChannel σ} {sender : BodySender}
    (hsender : channel.sender = some sender) (h : channel.step? = some next) :
    (sender.phase = .waiting ∧ 0 < channel.demands ∧
      next = { channel with demands := channel.demands - 1 }.withPhase sender .pulling) ∨
    (∃ delivery rest, sender.phase = .pulling ∧ pull channel.source = some (delivery, rest) ∧
      next = { channel with sender := some (BodySender.pulled sender delivery), source := rest }) ∨
    (∃ delivery, sender.phase = .offering delivery ∧
      next = { channel with items := channel.items ++ [delivery] }.withPhase sender
        (if sender.eof || sender.broken then .stopped else .waiting)) ∨
    (sender.phase ≠ .pulling ∧ channel.receiver = none ∧ next = channel.withPhase sender .stopped) := by
  obtain ⟨receiver, demands, items, _, source⟩ := channel
  subst hsender
  obtain ⟨phase, eof, broken⟩ := sender
  cases phase with
  | waiting =>
      simp only [step?] at h
      split at h
      · next hdemand => exact .inl ⟨rfl, hdemand, (Option.some.inj h).symm⟩
      · split at h
        · next hgone =>
          exact .inr (.inr (.inr ⟨nofun, Option.isNone_iff_eq_none.mp hgone, (Option.some.inj h).symm⟩))
        · contradiction
  | pulling =>
      simp only [step?] at h
      split at h
      · contradiction
      · next delivery rest hpull =>
        exact .inr (.inl ⟨delivery, rest, rfl, hpull, (Option.some.inj h).symm⟩)
  | offering delivery =>
      simp only [step?] at h
      split at h
      · next hgone =>
        exact .inr (.inr (.inr ⟨nofun, Option.isNone_iff_eq_none.mp hgone, (Option.some.inj h).symm⟩))
      · split at h
        · exact .inr (.inr (.inl ⟨delivery, rfl, (Option.some.inj h).symm⟩))
        · contradiction
  | stopped => contradiction

end BodyChannel

end Turnpike
