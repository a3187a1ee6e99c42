import Turnpike.Proofs.Body.Ends

/-!
The two ends of a body channel at work together.  Whatever they do in whatever order, and wherever
one of them gives up, the receiver is handed the pieces of the source in their order and asks for
each before it is pulled.
-/

namespace Turnpike

namespace BodyChannel

/-- `step` and `interrupt` are the sender's, which can be interrupted wherever it waits. -/
inductive Event where
  | poll
  | step
  | interrupt
  | dropReceiver
  deriving DecidableEq

/-- The pieces pulled from one state of a source to another. -/
inductive Pulls [PayloadSource σ] (origin : σ) : List Delivery → σ → Prop
  | start : Pulls origin [] origin
  | pull {pulled : List Delivery} {state rest : σ} {delivery : Delivery} :
      Pulls origin pulled state → PayloadSource.pull state = some (delivery, rest) →
      Pulls origin (pulled ++ [delivery]) rest

structure Exchange (σ : Type) where
  channel : BodyChannel σ
  demanded : Nat
  pulled : List Delivery
  /-- What polling has taken out of the channel. -/
  yielded : List Delivery
  answers : List Answer
  interrupted : Bool

namespace Exchange

def start (size : PayloadSize) (source : σ) : Exchange σ :=
  ⟨.start size source, 0, [], [], [], false⟩

def poll (exchange : Exchange σ) : Exchange σ :=
  let polled := exchange.channel.poll
  let taken := exchange.channel.items.length - polled.2.items.length
  { exchange with
    channel := polled.2
    demanded := exchange.demanded + (polled.2.demands - exchange.channel.demands)
    yielded := exchange.yielded ++ exchange.channel.items.take taken
    answers := exchange.answers ++ polled.1.answer?.toList }

variable [PayloadSource σ]

def pulling? (channel : BodyChannel σ) : Option Delivery :=
  match channel.sender with
  | some ⟨.pulling, _, _⟩ => (pull channel.source).map Prod.fst
  | _ => none

def step (exchange : Exchange σ) : Exchange σ :=
  match exchange.channel.step? with
  | none => exchange
  | some next =>
    { exchange with
      channel := next
      pulled := exchange.pulled ++ (pulling? exchange.channel).toList }

def apply (exchange : Exchange σ) : Event → Exchange σ
  | .poll => exchange.poll
  | .step => exchange.step
  | .interrupt =>
    { exchange with channel := exchange.channel.interrupt, interrupted := true }
  | .dropReceiver => { exchange with channel := exchange.channel.dropReceiver }

def run (exchange : Exchange σ) (events : List Event) : Exchange σ := events.foldl apply exchange

theorem run_append (exchange : Exchange σ) (before after : List Event) :
    exchange.run (before ++ after) = (exchange.run before).run after :=
  List.foldl_append

theorem interrupted_apply {exchange : Exchange σ} (h : exchange.interrupted = false) {event : Event}
    (hevent : event ≠ .interrupt) : (exchange.apply event).interrupted = false := by
  cases event with
  | poll => exact h
  | step =>
      simp only [apply, step]
      cases exchange.channel.step? <;> exact h
  | interrupt => contradiction
  | dropReceiver => exact h

theorem interrupted_run {exchange : Exchange σ} (h : exchange.interrupted = false)
    {events : List Event} (hevents : Event.interrupt ∉ events) :
    (exchange.run events).interrupted = false := by
  induction events generalizing exchange with
  | nil => exact h
  | cons event events ih =>
      obtain ⟨hevent, hlater⟩ := not_or.mp (mt List.mem_cons.mpr hevents)
      exact ih (interrupted_apply h (Ne.symm hevent)) hlater

/-! What holds at every moment. -/

/-- A demand that is taken, and its piece not pulled. -/
def owed : SenderPhase → Nat
  | .pulling => 1
  | _ => 0

def held : SenderPhase → List Delivery
  | .offering delivery => [delivery]
  | _ => []

/-- After the end or a fault the sender pulls no more, and it knows which of them it was. -/
def Knows (sender : BodySender) (pulled : List Delivery) : Prop :=
  ∃ pieces, (∀ delivery ∈ pieces, isLast delivery = false) ∧
    ((sender.eof = false ∧ sender.broken = false ∧ pulled = pieces) ∨
      (sender.phase ≠ .waiting ∧ sender.phase ≠ .pulling ∧
        ((sender.eof = true ∧ sender.broken = false ∧ pulled = pieces ++ [.ok .eof]) ∨
          (sender.broken = true ∧ ∃ fault, pulled = pieces ++ [.error fault]))))

/-- Nothing more is to be handed out. -/
def Over (size : PayloadSize) (exchange : Exchange σ) : Prop :=
  size.isEmpty = true ∨ exchange.channel.receiver = none ∨
    ∃ delivery ∈ exchange.yielded, isLast delivery = true

/-- One of the two ends has given up. -/
def GivenUp (exchange : Exchange σ) : Prop :=
  exchange.interrupted = true ∨ exchange.channel.receiver = none

structure Sound (size : PayloadSize) (origin : σ) (exchange : Exchange σ) (sender : BodySender) :
    Prop where
  present : exchange.channel.sender = some sender
  pulls : Pulls origin exchange.pulled exchange.channel.source
  knows : Knows sender exchange.pulled
  stopped : sender.phase = .stopped → (sender.eof || sender.broken) = true ∨ GivenUp exchange
  /-- Only what the sender held when it gave up can be lost. -/
  flow : ∃ lost, exchange.pulled.map (Except.mapError forwarded) =
    exchange.yielded ++ exchange.channel.items ++ held sender.phase ++ lost ∧
      (lost = [] ∨ sender.phase = .stopped ∧ GivenUp exchange)
  demanded : ∃ spent, exchange.pulled.length + exchange.channel.demands + owed sender.phase + spent =
    exchange.demanded ∧ (spent = 0 ∨ exchange.interrupted = true)
  yielded : exchange.demanded ≤ exchange.yielded.length + 1
  inFlight : ∀ receiver, exchange.channel.receiver = some receiver →
    exchange.demanded = exchange.yielded.length + if receiver.inFlight then 1 else 0
  answers : ∃ spare, exchange.answers = exchange.yielded.map answer ++ List.replicate spare none ∧
    (spare = 0 ∨ Over size exchange)
  sized : ∀ receiver, exchange.channel.receiver = some receiver → receiver.size = size
  finished : ∀ receiver, exchange.channel.receiver = some receiver → receiver.finished = true →
    Over size exchange
  unfinished : ∀ receiver, exchange.channel.receiver = some receiver → receiver.finished = false →
    exchange.answers = exchange.yielded.map answer ∧
      ∀ delivery ∈ exchange.yielded, isLast delivery = false

theorem sound_start (size : PayloadSize) (origin : σ) :
    Sound size origin (start size origin) ⟨.waiting, false, false⟩ where
  present := rfl
  pulls := .start
  knows := ⟨[], nofun, .inl ⟨rfl, rfl, rfl⟩⟩
  stopped := nofun
  flow := ⟨[], rfl, .inl rfl⟩
  demanded := ⟨0, rfl, .inl rfl⟩
  yielded := Nat.zero_le 1
  inFlight := by
    rintro _ ⟨⟩
    rfl
  answers := ⟨0, rfl, .inl rfl⟩
  sized := by
    rintro _ ⟨⟩
    rfl
  finished := by
    rintro _ ⟨⟩ hfinished
    contradiction
  unfinished := by
    rintro _ ⟨⟩ _
    exact ⟨rfl, nofun⟩

section

variable {size : PayloadSize} {origin : σ} {exchange : Exchange σ} {sender : BodySender}

omit [PayloadSource σ] in
theorem GivenUp.interrupted (h : GivenUp exchange) {receiver : Receiver}
    (hreceiver : exchange.channel.receiver = some receiver) : exchange.interrupted = true := by
  rcases h with hinterrupted | hgone
  · exact hinterrupted
  · rw [hreceiver] at hgone
    contradiction

theorem sound_poll_of_closed (h : Sound size origin exchange sender)
    (hclosed : ∀ receiver, exchange.channel.receiver = some receiver →
      (receiver.finished || receiver.size.isEmpty) = true) :
    Sound size origin exchange.poll sender := by
  have hpoll : exchange.poll =
      { exchange with
        channel := { exchange.channel with
          receiver := exchange.channel.receiver.map ({ · with finished := true }) }
        answers := exchange.answers ++ [none] } := by
    simp only [poll, poll_of_closed hclosed, Nat.sub_self, Nat.add_zero, List.take_zero,
      List.append_nil]
    rfl
  have hkept : exchange.channel.receiver = none →
      exchange.channel.receiver.map ({ · with finished := true }) = none := by
    intro hnone
    rw [hnone, Option.map_none]
  have hover : Over size exchange := by
    cases hreceiver : exchange.channel.receiver with
    | none => exact .inr (.inl hreceiver)
    | some receiver =>
        rcases Bool.or_eq_true_iff.mp (hclosed receiver hreceiver) with hfinished | hempty
        · exact h.finished receiver hreceiver hfinished
        · exact .inl (h.sized receiver hreceiver ▸ hempty)
  have hover := hover.imp_right (Or.imp_left hkept)
  rw [hpoll]
  obtain ⟨spare, hspare, -⟩ := h.answers
  obtain ⟨lost, hflow, hlost⟩ := h.flow
  refine { h with
    stopped := fun hphase => (h.stopped hphase).imp_right (Or.imp_right hkept)
    flow := ⟨lost, hflow, hlost.imp_right (And.imp_right (Or.imp_right hkept))⟩
    inFlight := ?_
    answers := ⟨spare + 1, ?_, .inr hover⟩
    sized := ?_
    finished := fun _ _ _ => hover
    unfinished := ?_ }
  · intro receiver hreceiver
    obtain ⟨before, hbefore, rfl⟩ := Option.map_eq_some_iff.mp hreceiver
    exact h.inFlight before hbefore
  · rw [hspare, List.replicate_succ', List.append_assoc]
  · intro receiver hreceiver
    obtain ⟨before, hbefore, rfl⟩ := Option.map_eq_some_iff.mp hreceiver
    exact h.sized before hbefore
  · intro receiver hreceiver hfinished
    obtain ⟨before, -, rfl⟩ := Option.map_eq_some_iff.mp hreceiver
    contradiction

theorem sound_poll_of_open (h : Sound size origin exchange sender) {receiver : Receiver}
    (hreceiver : exchange.channel.receiver = some receiver)
    (hopen : (receiver.finished || receiver.size.isEmpty) = false) :
    Sound size origin exchange.poll sender := by
  have hyielded := h.yielded
  have hinFlight := h.inFlight receiver hreceiver
  have hfinished := (Bool.or_eq_false_iff.mp hopen).1
  have hstopped := fun hphase => (h.stopped hphase).imp_right (GivenUp.interrupted · hreceiver)
  obtain ⟨hanswers, hpieces⟩ := h.unfinished receiver hreceiver hfinished
  obtain ⟨lost, hflow, hlost⟩ := h.flow
  have hlost := hlost.imp_right (And.imp_right (GivenUp.interrupted · hreceiver))
  obtain ⟨spent, hdemanded, hspent⟩ := h.demanded
  rcases poll_of_open hreceiver hopen h.present with
    ⟨-, -, hpoll⟩ | ⟨hitems, hpoll⟩ | ⟨delivery, items, hitems, hpoll⟩
  · have hsame : exchange.poll = exchange := by
      simp only [poll, hpoll, Nat.sub_self, Nat.add_zero, List.take_zero, List.append_nil,
        Polled.answer?, Option.toList_none]
    rwa [hsame]
  · simp only [poll, hpoll, Nat.add_sub_cancel_left, Nat.sub_self, List.take_zero, List.append_nil,
      Polled.answer?, Option.toList_none]
    refine { h with
      stopped := fun hphase => (hstopped hphase).imp_right .inl
      flow := ⟨lost, hflow, hlost.imp_right (And.imp_right .inl)⟩
      demanded := ⟨spent, ?_, hspent⟩
      yielded := ?_
      inFlight := ?_
      answers := ⟨0, ?_, .inl rfl⟩
      sized := ?_
      finished := ?_
      unfinished := ?_ }
    · simp only
      omega
    · simp only
      split <;> simp_all
    · rintro _ ⟨⟩
      simp only [if_true]
      split <;> simp_all
    · rw [hanswers, List.replicate_zero, List.append_nil]
    · rintro _ ⟨⟩
      exact h.sized receiver hreceiver
    · rintro _ ⟨⟩ hlast
      rw [hfinished] at hlast
      contradiction
    · rintro _ ⟨⟩ _
      exact ⟨hanswers, hpieces⟩
  · have htaken : exchange.channel.items.take (exchange.channel.items.length - items.length) =
        [delivery] := by
      simp [hitems]
    simp only [poll, hpoll, Nat.add_sub_cancel_left, htaken, Polled.answer?, Option.toList_some]
    refine { h with
      stopped := fun hphase => (hstopped hphase).imp_right .inl
      flow := ⟨lost, ?_, hlost.imp_right (And.imp_right .inl)⟩
      demanded := ⟨spent, ?_, hspent⟩
      yielded := ?_
      inFlight := ?_
      answers := ⟨0, ?_, .inl rfl⟩
      sized := ?_
      finished := ?_
      unfinished := ?_ }
    · rw [hflow, hitems]
      simp
    · simp only
      omega
    · simp only [List.length_append, List.length_singleton]
      split <;> simp_all
    · rintro _ ⟨⟩
      simp only [List.length_append, List.length_singleton]
      split <;> simp_all
    · simp [hanswers]
    · rintro _ ⟨⟩
      exact h.sized receiver hreceiver
    · rintro _ ⟨⟩ hlast
      exact .inr (.inr ⟨delivery, by simp, hlast⟩)
    · rintro _ ⟨⟩ hlast
      refine ⟨by simp [hanswers], fun other hother => ?_⟩
      rcases List.mem_append.mp hother with hbefore | hnew
      · exact hpieces other hbefore
      · rw [List.mem_singleton.mp hnew]
        exact hlast

theorem sound_poll (h : Sound size origin exchange sender) :
    Sound size origin exchange.poll sender := by
  cases hreceiver : exchange.channel.receiver with
  | none => exact sound_poll_of_closed h (by simp [hreceiver])
  | some receiver =>
      cases hopen : receiver.finished || receiver.size.isEmpty with
      | true =>
          refine sound_poll_of_closed h fun other hother => ?_
          obtain rfl := Option.some.inj (hreceiver.symm.trans hother)
          exact hopen
      | false => exact sound_poll_of_open h hreceiver hopen

theorem pulling?_of_phase_ne (h : exchange.channel.sender = some sender)
    (hphase : sender.phase ≠ .pulling) : pulling? exchange.channel = none := by
  obtain ⟨phase, eof, broken⟩ := sender
  cases phase with
  | pulling => exact absurd rfl hphase
  | waiting => simp only [pulling?, h]
  | offering delivery => simp only [pulling?, h]
  | stopped => simp only [pulling?, h]

theorem Knows.of_active {pulled : List Delivery} (h : Knows sender pulled)
    (hphase : sender.phase = .waiting ∨ sender.phase = .pulling) :
    sender.eof = false ∧ sender.broken = false ∧ ∀ delivery ∈ pulled, isLast delivery = false := by
  obtain ⟨pieces, hpieces, ⟨heof, hbroken, rfl⟩ | ⟨hwaiting, hpulling, -⟩⟩ := h
  · exact ⟨heof, hbroken, hpieces⟩
  · rcases hphase with hphase | hphase <;> contradiction

theorem Knows.exists_last {pulled : List Delivery} (h : Knows sender pulled)
    (hdone : (sender.eof || sender.broken) = true) :
    ∃ delivery ∈ pulled, isLast delivery = true := by
  obtain ⟨pieces, -, ⟨heof, hbroken, -⟩ |
    ⟨-, -, ⟨-, -, rfl⟩ | ⟨-, fault, rfl⟩⟩⟩ := h
  · rw [heof, hbroken] at hdone
    contradiction
  · exact ⟨.ok .eof, by simp, rfl⟩
  · exact ⟨.error fault, by simp, rfl⟩

theorem Knows.exists_pieces {pulled : List Delivery} (h : Knows sender pulled) :
    ∃ pieces, (∀ delivery ∈ pieces, isLast delivery = false) ∧
      (pulled = pieces ∨ ∃ last, pulled = pieces ++ [last]) := by
  obtain ⟨pieces, hpieces, ⟨-, -, hpulled⟩ | ⟨-, -, ⟨-, -, hpulled⟩ | ⟨-, fault, hpulled⟩⟩⟩ := h
  · exact ⟨pieces, hpieces, .inl hpulled⟩
  · exact ⟨pieces, hpieces, .inr ⟨_, hpulled⟩⟩
  · exact ⟨pieces, hpieces, .inr ⟨_, hpulled⟩⟩

theorem Knows.withPhase {pulled : List Delivery} (h : Knows sender pulled) {phase : SenderPhase}
    (hphase : (sender.eof || sender.broken) = true → phase ≠ .waiting ∧ phase ≠ .pulling) :
    Knows { sender with phase } pulled := by
  obtain ⟨pieces, hpieces, hflags | ⟨-, -, hended⟩⟩ := h
  · exact ⟨pieces, hpieces, .inl hflags⟩
  · have hdone : (sender.eof || sender.broken) = true := by
      rcases hended with ⟨heof, -⟩ | ⟨hbroken, -⟩
      · rw [heof, Bool.true_or]
      · rw [hbroken, Bool.or_true]
    exact ⟨pieces, hpieces, .inr ⟨(hphase hdone).1, (hphase hdone).2, hended⟩⟩

theorem Knows.pulled {pulled : List Delivery} (h : Knows sender pulled)
    (hphase : sender.phase = .pulling) (delivery : Delivery) :
    Knows (BodySender.pulled sender delivery) (pulled ++ [delivery]) := by
  obtain ⟨heof, hbroken, hpieces⟩ := h.of_active (.inr hphase)
  match delivery with
  | .ok (.chunk data) =>
      refine ⟨pulled ++ [.ok (.chunk data)], fun other hother => ?_, .inl ⟨rfl, hbroken, rfl⟩⟩
      rcases List.mem_append.mp hother with hbefore | hnew
      · exact hpieces other hbefore
      · rw [List.mem_singleton.mp hnew]
        rfl
  | .ok .eof => exact ⟨pulled, hpieces, .inr ⟨nofun, nofun, .inl ⟨rfl, hbroken, rfl⟩⟩⟩
  | .error fault => exact ⟨pulled, hpieces, .inr ⟨nofun, nofun, .inr ⟨rfl, fault, rfl⟩⟩⟩

theorem phase_pulled (sender : BodySender) (delivery : Delivery) :
    (BodySender.pulled sender delivery).phase = .offering (delivery.mapError forwarded) := by
  cases delivery <;> rfl

/-! The steps of the sender. -/

theorem sound_take (h : Sound size origin exchange sender) (hphase : sender.phase = .waiting)
    (hdemand : 0 < exchange.channel.demands) :
    Sound size origin
      { exchange with
        channel := { exchange.channel with
          demands := exchange.channel.demands - 1 }.withPhase sender .pulling }
      { sender with phase := .pulling } := by
  obtain ⟨heof, hbroken, -⟩ := h.knows.of_active (.inl hphase)
  obtain ⟨lost, hflow, hlost⟩ := h.flow
  obtain ⟨spent, hdemanded, hspent⟩ := h.demanded
  simp only [hphase, owed, held, reduceCtorEq, false_and, or_false] at hdemanded hflow hlost
  refine { h with
    present := rfl
    knows := h.knows.withPhase (by simp [heof, hbroken])
    stopped := nofun
    flow := ⟨lost, hflow, .inl hlost⟩
    demanded := ⟨spent, ?_, hspent⟩ }
  simp only [withPhase, owed]
  omega

theorem sound_pull (h : Sound size origin exchange sender) (hphase : sender.phase = .pulling)
    {delivery : Delivery} {rest : σ} (hpull : pull exchange.channel.source = some (delivery, rest)) :
    Sound size origin
      { exchange with
        channel := { exchange.channel with
          sender := some (BodySender.pulled sender delivery), source := rest }
        pulled := exchange.pulled ++ [delivery] }
      (BodySender.pulled sender delivery) := by
  obtain ⟨lost, hflow, hlost⟩ := h.flow
  obtain ⟨spent, hdemanded, hspent⟩ := h.demanded
  simp only [hphase, owed, held, reduceCtorEq, false_and, or_false] at hdemanded hflow hlost
  refine { h with
    present := rfl
    pulls := h.pulls.pull hpull
    knows := h.knows.pulled hphase delivery
    stopped := ?_
    flow := ⟨[], ?_, .inl rfl⟩
    demanded := ⟨spent, ?_, hspent⟩ }
  · rw [phase_pulled]
    exact nofun
  · rw [List.map_append, hflow, hlost, phase_pulled]
    simp only [held, List.append_nil, List.map_cons, List.map_nil]
  · rw [phase_pulled]
    simp only [owed, List.length_append, List.length_singleton]
    omega

theorem sound_put (h : Sound size origin exchange sender) {delivery : Delivery}
    (hphase : sender.phase = .offering delivery) {next : SenderPhase}
    (hnext : next = if sender.eof || sender.broken then .stopped else .waiting) :
    Sound size origin
      { exchange with
        channel := { exchange.channel with
          items := exchange.channel.items ++ [delivery] }.withPhase sender next }
      { sender with phase := next } := by
  obtain ⟨lost, hflow, hlost⟩ := h.flow
  obtain ⟨spent, hdemanded, hspent⟩ := h.demanded
  simp only [hphase, owed, held, reduceCtorEq, false_and, or_false] at hdemanded hflow hlost
  have howed : owed next = 0 := by
    rw [hnext]
    split <;> rfl
  have hheld : held next = [] := by
    rw [hnext]
    split <;> rfl
  refine { h with
    present := rfl
    knows := h.knows.withPhase fun hdone => ?_
    stopped := fun hstopped => ?_
    flow := ⟨[], ?_, .inl rfl⟩
    demanded := ⟨spent, ?_, hspent⟩ }
  · rw [hnext, if_pos hdone]
    exact ⟨nofun, nofun⟩
  · rw [hnext] at hstopped
    split at hstopped
    · next hdone => exact .inl hdone
    · contradiction
  · rw [hflow, hlost, hheld]
    simp only [withPhase, List.append_nil, List.append_assoc]
  · rw [howed]
    exact hdemanded

theorem sound_leave (h : Sound size origin exchange sender) (hphase : sender.phase ≠ .pulling)
    (hgone : exchange.channel.receiver = none) :
    Sound size origin { exchange with channel := exchange.channel.withPhase sender .stopped }
      { sender with phase := .stopped } := by
  obtain ⟨lost, hflow, -⟩ := h.flow
  obtain ⟨spent, hdemanded, hspent⟩ := h.demanded
  have howed : owed sender.phase = 0 := by
    cases hcase : sender.phase with
    | pulling => exact absurd hcase hphase
    | waiting => rfl
    | offering delivery => rfl
    | stopped => rfl
  refine { h with
    present := rfl
    knows := h.knows.withPhase fun _ => ⟨nofun, nofun⟩
    stopped := fun _ => .inr (.inr hgone)
    flow := ⟨held sender.phase ++ lost, ?_, .inr ⟨rfl, .inr hgone⟩⟩
    demanded := ⟨spent, ?_, hspent⟩ }
  · rw [hflow]
    simp only [withPhase, held, List.append_nil, List.append_assoc]
  · rw [howed] at hdemanded
    exact hdemanded

theorem sound_step (h : Sound size origin exchange sender) :
    ∃ next, Sound size origin exchange.step next := by
  cases hstep : exchange.channel.step? with
  | none =>
      refine ⟨sender, ?_⟩
      simp only [step, hstep]
      exact h
  | some next =>
      simp only [step, hstep]
      rcases step?_eq_some h.present hstep with ⟨hphase, hdemand, rfl⟩ |
        ⟨delivery, rest, hphase, hpull, rfl⟩ | ⟨delivery, hphase, rfl⟩ | ⟨hphase, hgone, rfl⟩
      · rw [pulling?_of_phase_ne h.present (by rw [hphase]; exact nofun), Option.toList_none,
          List.append_nil]
        exact ⟨_, sound_take h hphase hdemand⟩
      · have hpulling : pulling? exchange.channel = some delivery := by
          obtain ⟨phase, eof, broken⟩ := sender
          subst hphase
          simp only [pulling?, h.present, hpull, Option.map_some]
        rw [hpulling, Option.toList_some]
        exact ⟨_, sound_pull h hphase hpull⟩
      · rw [pulling?_of_phase_ne h.present (by rw [hphase]; exact nofun), Option.toList_none,
          List.append_nil]
        exact ⟨_, sound_put h hphase rfl⟩
      · rw [pulling?_of_phase_ne h.present hphase, Option.toList_none, List.append_nil]
        exact ⟨_, sound_leave h hphase hgone⟩

/-! Giving up. -/

theorem sound_interrupt (h : Sound size origin exchange sender) :
    Sound size origin (exchange.apply .interrupt) { sender with phase := .stopped } := by
  obtain ⟨lost, hflow, -⟩ := h.flow
  obtain ⟨spent, hdemanded, -⟩ := h.demanded
  refine { h with
    present := ?_
    knows := h.knows.withPhase fun _ => ⟨nofun, nofun⟩
    stopped := fun _ => .inr (.inl rfl)
    flow := ⟨held sender.phase ++ lost, ?_, .inr ⟨rfl, .inl rfl⟩⟩
    demanded := ⟨owed sender.phase + spent, ?_, .inr rfl⟩ }
  · simp only [apply, interrupt, h.present, Option.map_some]
  · simp only [apply, interrupt, hflow, held, List.append_nil, List.append_assoc]
  · have howed : owed .stopped = 0 := rfl
    simp only [apply, interrupt, howed]
    omega

theorem sound_dropReceiver (h : Sound size origin exchange sender) :
    Sound size origin (exchange.apply .dropReceiver) sender := by
  obtain ⟨spare, hspare, -⟩ := h.answers
  obtain ⟨lost, hflow, hlost⟩ := h.flow
  exact { h with
    stopped := fun _ => .inr (.inr rfl)
    flow := ⟨lost, hflow, hlost.imp_right (And.imp_right fun _ => .inr rfl)⟩
    inFlight := nofun
    answers := ⟨spare, hspare, .inr (.inr (.inl rfl))⟩
    sized := nofun
    finished := nofun
    unfinished := nofun }

theorem sound_apply (h : Sound size origin exchange sender) (event : Event) :
    ∃ next, Sound size origin (exchange.apply event) next := by
  cases event with
  | poll => exact ⟨sender, sound_poll h⟩
  | step => exact sound_step h
  | interrupt => exact ⟨_, sound_interrupt h⟩
  | dropReceiver => exact ⟨sender, sound_dropReceiver h⟩

theorem sound_run (h : Sound size origin exchange sender) (events : List Event) :
    ∃ next, Sound size origin (exchange.run events) next := by
  induction events generalizing exchange sender with
  | nil => exact ⟨sender, h⟩
  | cons event events ih =>
      obtain ⟨next, hnext⟩ := sound_apply h event
      exact ih hnext

/-! After the end or a fault. -/

def Closed (exchange : Exchange σ) : Prop :=
  ∀ receiver, exchange.channel.receiver = some receiver → receiver.finished = true

theorem closed_of_yielded (h : Sound size origin exchange sender)
    (hlast : ∃ delivery ∈ exchange.yielded, isLast delivery = true) : Closed exchange := by
  intro receiver hreceiver
  obtain ⟨delivery, hyielded, hlast⟩ := hlast
  cases hfinished : receiver.finished with
  | true => rfl
  | false =>
      have hpiece := (h.unfinished receiver hreceiver hfinished).2 delivery hyielded
      rw [hlast] at hpiece
      contradiction

theorem apply_of_closed (h : Sound size origin exchange sender) (hclosed : Closed exchange)
    (event : Event) :
    Closed (exchange.apply event) ∧ (exchange.apply event).demanded = exchange.demanded ∧
      (exchange.apply event).yielded = exchange.yielded ∧
      (exchange.apply event).answers =
        exchange.answers ++ List.replicate ([event].count .poll) none := by
  cases event with
  | poll =>
      have hended : ∀ receiver, exchange.channel.receiver = some receiver →
          (receiver.finished || receiver.size.isEmpty) = true := by
        intro receiver hreceiver
        rw [hclosed receiver hreceiver, Bool.true_or]
      have hpoll := poll_of_closed hended
      refine ⟨?_, ?_, ?_, ?_⟩
      · intro receiver hreceiver
        simp only [apply, poll, hpoll] at hreceiver
        obtain ⟨before, -, rfl⟩ := Option.map_eq_some_iff.mp hreceiver
        rfl
      · simp only [apply, poll, hpoll, Nat.sub_self, Nat.add_zero]
      · simp only [apply, poll, hpoll, Nat.sub_self, List.take_zero, List.append_nil]
      · simp only [apply, poll, hpoll, Polled.answer?, Option.toList_some]
        rfl
  | step =>
      cases hstep : exchange.channel.step? with
      | none =>
          simp only [apply, step, hstep]
          exact ⟨hclosed, trivial, trivial, (List.append_nil _).symm⟩
      | some next =>
          have hreceiver : next.receiver = exchange.channel.receiver := by
            rcases step?_eq_some h.present hstep with
              ⟨-, -, rfl⟩ | ⟨_, _, -, -, rfl⟩ | ⟨_, -, rfl⟩ | ⟨-, -, rfl⟩ <;> rfl
          simp only [apply, step, hstep]
          exact ⟨fun receiver hnext => hclosed receiver (hreceiver ▸ hnext), trivial, trivial,
            (List.append_nil _).symm⟩
  | interrupt => exact ⟨hclosed, rfl, rfl, (List.append_nil _).symm⟩
  | dropReceiver => exact ⟨nofun, rfl, rfl, (List.append_nil _).symm⟩

theorem run_of_closed (h : Sound size origin exchange sender) (hclosed : Closed exchange)
    (events : List Event) :
    (exchange.run events).demanded = exchange.demanded ∧
      (exchange.run events).yielded = exchange.yielded ∧
      (exchange.run events).answers =
        exchange.answers ++ List.replicate (events.count .poll) none := by
  induction events generalizing exchange sender with
  | nil => exact ⟨rfl, rfl, (List.append_nil _).symm⟩
  | cons event events ih =>
      obtain ⟨hstill, hdemanded, hyielded, hanswers⟩ := apply_of_closed h hclosed event
      obtain ⟨next, hnext⟩ := sound_apply h event
      obtain ⟨hdemandedAll, hyieldedAll, hanswersAll⟩ := ih hnext hstill
      refine ⟨hdemandedAll.trans hdemanded, hyieldedAll.trans hyielded, hanswersAll.trans ?_⟩
      rw [hanswers, List.append_assoc, List.replicate_append_replicate, ← List.count_append,
        List.singleton_append]

end

/-- Whatever the two ends do, in whatever order: the receiver yields what the sender has pulled, in
its order and but for one piece at most, each piece is asked for before it is pulled, and after the
end or a fault every poll is answered at once and asks for nothing. -/
theorem run_start (size : PayloadSize) (origin : σ) (events : List Event) :
    let exchange := (start size origin).run events
    Pulls origin exchange.pulled exchange.channel.source ∧
      exchange.yielded <+: exchange.pulled.map (Except.mapError forwarded) ∧
      (∃ spare, exchange.answers = exchange.yielded.map answer ++ List.replicate spare none ∧
        (spare = 0 ∨ Over size exchange)) ∧
      exchange.pulled.length ≤ exchange.demanded ∧
      exchange.pulled.length ≤ exchange.yielded.length + 1 ∧
      ((∃ delivery ∈ exchange.yielded, isLast delivery = true) → ∀ later,
        (exchange.run later).demanded = exchange.demanded ∧
          (exchange.run later).yielded = exchange.yielded ∧
          (exchange.run later).answers =
            exchange.answers ++ List.replicate (later.count .poll) none) := by
  intro exchange
  obtain ⟨sender, h⟩ : ∃ sender, Sound size origin exchange sender :=
    sound_run (sound_start size origin) events
  obtain ⟨spent, hdemanded, -⟩ := h.demanded
  have hyielded := h.yielded
  obtain ⟨lost, hflow, -⟩ := h.flow
  refine ⟨h.pulls, ?_, h.answers, by omega, by omega, fun hlast later => ?_⟩
  · rw [hflow, List.append_assoc, List.append_assoc]
    exact List.prefix_append _ _
  · exact run_of_closed h (closed_of_yielded h hlast) later

end Exchange

end BodyChannel

end Turnpike
