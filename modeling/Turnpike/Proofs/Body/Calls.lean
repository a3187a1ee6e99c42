import Turnpike.Proofs.Connection.Hearing

/-!
A body that is read by any calls in any order.  Whatever the body is made of, its readers hand out
its data from the front and are finished with its end or a fault; what is proved of all calls needs
only what a single poll does.
-/

namespace Turnpike

namespace BodyReader

/-! Calls on a reader. -/

inductive Call where
  | read
  /-- once, without waiting -/
  | poll
  | readToEnd
  /-- piece by piece, up to the end or a fault -/
  | drain
  /-- Leaves the body alone while the other end comes no further than so many steps. -/
  | wait (steps : Nat)

inductive Reply where
  | nothing
  | piece (answer : Answer)
  | whole (outcome : Except RequestFault Bytes)
  | drained (data : Bytes) (stop : Stop)
  deriving DecidableEq

def Stop.outcome (data : Bytes) : Stop → Except RequestFault Bytes
  | .ended | .tooLong => .ok data
  | .fault cause => .error cause

def Call.activity : Call → Activity Reply
  | .read => .read fun answer => .done (.piece answer)
  | .poll => .poll fun answer? => .done ((answer?.map .piece).getD .nothing)
  | .readToEnd => .gather none fun data stop => .done (.whole (stop.outcome data))
  | .drain => .gather none fun data stop => .done (.drained data stop)
  | .wait steps => .wait steps (.done .nothing)

/-- What calls are answered with, one after another, up to the first that waits in vain. -/
def session [Incoming ι] : List Call → BodyReader ι → List Reply × BodyReader ι
  | [], reader => ([], reader)
  | call :: calls, reader =>
    match call.activity.run reader with
    | (none, last) => ([], last)
    | (some reply, next) =>
      let later := session calls next
      (reply :: later.1, later.2)

namespace Reply

/-- The data that is successfully returned. -/
def returned : Reply → Bytes
  | .piece (some (.ok data)) | .whole (.ok data) | .drained data _ => data
  | .nothing | .piece none | .piece (some (.error _)) | .whole (.error _) => []

def isFault : Reply → Bool
  | .piece (some (.error _)) | .whole (.error _) | .drained _ (.fault _) => true
  | .nothing | .piece none | .piece (some (.ok _)) | .whole (.ok _) | .drained _ .ended
  | .drained _ .tooLong => false

/-- The end of the body, or a fault, is told. -/
def isLast : Reply → Bool
  | .piece none | .piece (some (.error _)) | .whole _ | .drained _ _ => true
  | .nothing | .piece (some (.ok _)) => false

theorem isLast_of_isFault {reply : Reply} (h : reply.isFault = true) : reply.isLast = true := by
  revert h
  fun_cases isFault reply <;> simp [isLast]

end Reply

/-- What is returned when there is nothing more. -/
def Call.sentinel : Call → Reply
  | .read | .poll => .piece none
  | .readToEnd => .whole (.ok [])
  | .drain => .drained [] .ended
  | .wait _ => .nothing

@[simp] theorem Call.returned_sentinel (call : Call) : call.sentinel.returned = [] := by
  cases call <;> rfl

theorem Call.flatMap_sentinel (calls : List Call) :
    (calls.map Call.sentinel).flatMap Reply.returned = [] := by
  simp [List.flatMap_eq_nil_iff]

@[simp] theorem Call.isFault_sentinel (call : Call) : call.sentinel.isFault = false := by
  cases call <;> rfl

/-- What becomes of calls on a body of which these data are to come. -/
structure Orderly (rest : Bytes) (complete : Prop) (calls : List Call) (replies : List Reply)
    (last : BodyReader ι) : Prop where
  nonempty : .piece (some (.ok [])) ∉ replies
  front : replies.flatMap Reply.returned <+: rest
  /-- All data has been returned where the end is told, and no fault before. -/
  whole : ∀ before reply after, replies = before ++ reply :: after → reply.isLast = true →
    (∀ earlier ∈ before ++ [reply], earlier.isFault = false) →
    (before ++ [reply]).flatMap Reply.returned = rest ∧ complete
  once : replies.countP Reply.isFault ≤ 1
  /-- Behind the end or a fault each call returns that there is nothing more. -/
  finished : ∀ before reply after, replies = before ++ reply :: after → reply.isLast = true →
    last.finished = true ∧ after = (calls.drop (before.length + 1)).map Call.sentinel
  /-- No call waits in vain for a body that is complete. -/
  answered : complete → replies.length = calls.length

/-! Readers by what is still to come. -/

variable [Incoming ι]

/-- What an answer means where these data are to come. -/
def Hands (complete : Prop) (holds : Bytes → BodyReader ι → Prop) (rest : Bytes)
    (next : BodyReader ι) : Answer → Prop
  | some (.ok data) => data ≠ [] ∧ ∃ later, rest = data ++ later ∧ holds later next
  | some (.error _) => next.finished = true
  | none => next.finished = true ∧ rest = [] ∧ complete

/-- A property of the readers of one kind of body, with the data still to come, that is kept by a
poll and by what the other end does. -/
structure Supplies (complete : Prop) (holds : Bytes → BodyReader ι → Prop) : Prop where
  poll_pending : ∀ {rest reader next}, holds rest reader → reader.poll = (.pending, next) →
    holds rest next
  poll_ready : ∀ {rest reader next answer}, holds rest reader →
    reader.poll = (.ready answer, next) → Hands complete holds rest next answer
  serve : ∀ {rest reader}, holds rest reader → holds rest reader.serve
  advance : ∀ {rest reader} (steps : Nat), holds rest reader → holds rest (reader.advance steps)
  answers : ∀ {rest reader} (call : Call), holds rest reader → complete →
    (call.activity.run reader).1 ≠ none

namespace Supplies

variable {complete : Prop} {holds : Bytes → BodyReader ι → Prop} {rest : Bytes}
  {reader next : BodyReader ι} {answer : Answer}

theorem frame (h : Supplies complete holds) (hholds : holds rest reader)
    (hframe : reader.frame = some (answer, next)) : Hands complete holds rest next answer := by
  unfold BodyReader.frame at hframe
  split at hframe
  · next hpoll =>
    obtain ⟨rfl, rfl⟩ := Prod.mk.inj (Option.some.inj hframe)
    exact h.poll_ready hholds hpoll
  · next waiting hpoll =>
    split at hframe
    · next hpoll' =>
      obtain ⟨rfl, rfl⟩ := Prod.mk.inj (Option.some.inj hframe)
      exact h.poll_ready (h.serve (h.poll_pending hholds hpoll)) hpoll'
    · contradiction

theorem read (h : Supplies complete holds) (hholds : holds rest reader)
    (hread : reader.read = some (answer, next)) : Hands complete holds rest next answer := by
  unfold BodyReader.read at hread
  generalize Incoming.bound reader.body = fuel at hread
  cases fuel with
  | zero => exact h.frame hholds hread
  | succ fuel =>
      unfold readWithin at hread
      split at hread
      · next empty hframe => exact absurd rfl (h.frame hholds hframe).1
      · exact h.frame hholds hread

theorem pollData (h : Supplies complete holds) (hholds : holds rest reader) :
    reader.pollData = reader.poll := by
  unfold BodyReader.pollData
  split
  · next next hpoll => exact absurd rfl (h.poll_ready hholds hpoll).1
  · rfl

/-- By induction on the pieces, whose data come from the front of what is to come. -/
theorem gatherWithin (h : Supplies complete holds) (hholds : holds rest reader) {fuel : Nat}
    {seen all : List Bytes} {stop : Stop}
    (hgather : reader.gatherWithin fuel none seen = some (all, stop, next)) :
    next.finished = true ∧ ∃ more, all.reverse.flatten = seen.reverse.flatten ++ more ∧
      more <+: rest ∧ stop ≠ .tooLong ∧ (stop = .ended → more = rest ∧ complete) := by
  induction fuel generalizing rest reader seen with
  | zero => contradiction
  | succ fuel ih =>
      unfold BodyReader.gatherWithin at hgather
      rcases hframe : reader.frame with _ | ⟨_ | cause | data, middle⟩
      all_goals rw [hframe] at hgather
      · contradiction
      · obtain ⟨rfl, rfl, rfl⟩ := by simpa using hgather
        obtain ⟨hfinished, rfl, hcomplete⟩ := h.frame hholds hframe
        exact ⟨hfinished, [], by simp, List.prefix_rfl, by simp, fun _ => ⟨rfl, hcomplete⟩⟩
      · obtain ⟨rfl, rfl, rfl⟩ := by simpa using hgather
        exact ⟨h.frame hholds hframe, [], by simp, List.nil_prefix, by simp, by simp⟩
      · obtain ⟨-, later, rfl, hlater⟩ := h.frame hholds hframe
        obtain ⟨hfinished, more, hall, hfront, hstop, hended⟩ := ih hlater hgather
        refine ⟨hfinished, data ++ more, by simp [hall], ?_, hstop, ?_⟩
        · exact (List.prefix_append_right_inj data).mpr hfront
        · intro hend
          obtain ⟨rfl, hcomplete⟩ := hended hend
          exact ⟨rfl, hcomplete⟩

theorem gather (h : Supplies complete holds) (hholds : holds rest reader) {data : Bytes}
    {stop : Stop} (hgather : reader.gather none = some (data, stop, next)) :
    next.finished = true ∧ data <+: rest ∧ stop ≠ .tooLong ∧
      (stop = .ended → data = rest ∧ complete) := by
  obtain ⟨⟨all, _, _⟩, hwithin, heq⟩ := Option.map_eq_some_iff.mp hgather
  obtain ⟨rfl, rfl, rfl⟩ := by simpa using heq
  obtain ⟨hfinished, more, hall, hmore⟩ := h.gatherWithin hholds hwithin
  rw [List.reverse_nil, List.flatten_nil, List.nil_append] at hall
  exact hall ▸ ⟨hfinished, hmore⟩

/-- What one call comes to: it returns data from the front, or is the last to return anything. -/
def Comes (complete : Prop) (holds : Bytes → BodyReader ι → Prop) (rest : Bytes)
    (next : BodyReader ι) (reply : Reply) : Prop :=
  (reply.isLast = false ∧ ∃ later, rest = reply.returned ++ later ∧ holds later next) ∨
    reply.isLast = true ∧ next.finished = true ∧ reply.returned <+: rest ∧
      (reply.isFault = false → reply.returned = rest ∧ complete)

omit [Incoming ι] in
theorem comes_of_hands (h : Hands complete holds rest next answer) :
    Reply.piece answer ≠ .piece (some (.ok [])) ∧ Comes complete holds rest next (.piece answer) := by
  match answer with
  | none => exact ⟨nofun, .inr ⟨rfl, h.1, List.nil_prefix, fun _ => ⟨h.2.1.symm, h.2.2⟩⟩⟩
  | some (.error cause) => exact ⟨nofun, .inr ⟨rfl, h, List.nil_prefix, nofun⟩⟩
  | some (.ok data) => exact ⟨by simpa using h.1, .inl ⟨rfl, h.2⟩⟩

theorem call (h : Supplies complete holds) (hholds : holds rest reader) {call : Call}
    {reply : Reply} (hrun : call.activity.run reader = (some reply, next)) :
    reply ≠ .piece (some (.ok [])) ∧ Comes complete holds rest next reply := by
  cases call with
  | read =>
      simp only [Call.activity, Activity.run] at hrun
      split at hrun
      · simp at hrun
      · next hread =>
        obtain ⟨hreply, rfl⟩ := Prod.mk.inj hrun
        obtain rfl := Option.some.inj hreply
        exact comes_of_hands (h.read hholds hread)
  | poll =>
      simp only [Call.activity, Activity.run, h.pollData hholds] at hrun
      rcases hpoll : reader.poll with ⟨_ | answer, waiting⟩
      all_goals
        rw [hpoll] at hrun
        obtain ⟨hreply, rfl⟩ := Prod.mk.inj hrun
        obtain rfl := Option.some.inj hreply
      · exact ⟨by simp [Polled.answer?], .inl ⟨rfl, rest, rfl, h.poll_pending hholds hpoll⟩⟩
      · exact comes_of_hands (h.poll_ready hholds hpoll)
  | readToEnd =>
      simp only [Call.activity, Activity.run] at hrun
      split at hrun
      · simp at hrun
      · next data stop last hgather =>
        obtain ⟨hreply, rfl⟩ := Prod.mk.inj hrun
        obtain rfl := Option.some.inj hreply
        obtain ⟨hfinished, hfront, hstop, hended⟩ := h.gather hholds hgather
        refine ⟨by simp, .inr ⟨rfl, hfinished, ?_⟩⟩
        cases stop with
        | tooLong => contradiction
        | fault cause => exact ⟨List.nil_prefix, by simp [Reply.isFault, Stop.outcome]⟩
        | ended => exact ⟨hfront, fun _ => hended rfl⟩
  | drain =>
      simp only [Call.activity, Activity.run] at hrun
      split at hrun
      · simp at hrun
      · next data stop last hgather =>
        obtain ⟨hreply, rfl⟩ := Prod.mk.inj hrun
        obtain rfl := Option.some.inj hreply
        obtain ⟨hfinished, hfront, hstop, hended⟩ := h.gather hholds hgather
        refine ⟨by simp, .inr ⟨rfl, hfinished, hfront, ?_⟩⟩
        cases stop with
        | tooLong => contradiction
        | fault cause => simp [Reply.isFault]
        | ended => exact fun _ => hended rfl
  | wait steps =>
      obtain ⟨hreply, rfl⟩ := Prod.mk.inj hrun
      obtain rfl := Option.some.inj hreply
      exact ⟨by simp, .inl ⟨rfl, rest, rfl, h.advance steps hholds⟩⟩

end Supplies

/-! Any calls. -/

theorem run_of_finished {reader : BodyReader ι} (h : reader.finished = true) (call : Call) :
    ∃ next, call.activity.run reader = (some call.sentinel, next) ∧ next.finished = true := by
  cases call with
  | read =>
      have hread : reader.read = some (none, reader) := readWithin_of_finished h _
      refine ⟨reader, ?_, h⟩
      simp only [Call.activity, Activity.run, hread]
      rfl
  | poll =>
      refine ⟨reader, ?_, h⟩
      simp only [Call.activity, Activity.run, pollData_of_finished h]
      rfl
  | readToEnd =>
      refine ⟨reader, ?_, h⟩
      simp only [Call.activity, Activity.run, gather_of_finished h]
      rfl
  | drain =>
      refine ⟨reader, ?_, h⟩
      simp only [Call.activity, Activity.run, gather_of_finished h]
      rfl
  | wait steps => exact ⟨reader.advance steps, rfl, h⟩

theorem session_of_finished (calls : List Call) {reader : BodyReader ι}
    (h : reader.finished = true) :
    (session calls reader).1 = calls.map Call.sentinel ∧
      (session calls reader).2.finished = true := by
  induction calls generalizing reader with
  | nil => exact ⟨rfl, h⟩
  | cons call calls ih =>
      obtain ⟨next, hrun, hnext⟩ := run_of_finished h call
      obtain ⟨hreplies, hlast⟩ := ih hnext
      simp only [session, hrun]
      exact ⟨congrArg (call.sentinel :: ·) hreplies, hlast⟩

namespace Orderly

variable {complete : Prop} {rest later : Bytes} {call : Call} {calls : List Call} {reply : Reply}
  {replies : List Reply} {last : BodyReader ι}

omit [Incoming ι] in
theorem of_nil (h : complete → calls = []) : Orderly rest complete calls [] last where
  nonempty := List.not_mem_nil
  front := List.nil_prefix
  whole := by
    intro before reply after hreplies
    simp at hreplies
  once := Nat.zero_le 1
  finished := by
    intro before reply after hreplies
    simp at hreplies
  answered := fun hcomplete => by rw [h hcomplete]; rfl

omit [Incoming ι] in
/-- A reply that is not the last, in front of what calls on the rest of the body come to. -/
theorem cons (hnonempty : reply ≠ .piece (some (.ok []))) (hopen : reply.isLast = false)
    (h : Orderly later complete calls replies last) :
    Orderly (reply.returned ++ later) complete (call :: calls) (reply :: replies) last where
  nonempty := by
    rintro (_ | ⟨_, hmem⟩)
    · exact hnonempty rfl
    · exact h.nonempty hmem
  front := (List.prefix_append_right_inj reply.returned).mpr h.front
  whole := by
    intro before other after hreplies hlast hfaultless
    cases before with
    | nil =>
        obtain ⟨rfl, -⟩ := List.cons.inj hreplies
        rw [hopen] at hlast
        contradiction
    | cons first before =>
        obtain ⟨rfl, hlater⟩ := List.cons.inj hreplies
        obtain ⟨hall, hcomplete⟩ := h.whole before other after hlater hlast fun earlier hearlier =>
          hfaultless earlier (List.mem_cons_of_mem _ hearlier)
        exact ⟨congrArg (reply.returned ++ ·) hall, hcomplete⟩
  once := by
    have hfault : reply.isFault = false := by
      cases hcase : reply.isFault with
      | false => rfl
      | true =>
          rw [Reply.isLast_of_isFault hcase] at hopen
          contradiction
    rw [List.countP_cons_of_neg (by simp [hfault])]
    exact h.once
  finished := by
    intro before other after hreplies hlast
    cases before with
    | nil =>
        obtain ⟨rfl, -⟩ := List.cons.inj hreplies
        rw [hopen] at hlast
        contradiction
    | cons first before =>
        obtain ⟨-, hlater⟩ := List.cons.inj hreplies
        exact h.finished before other after hlater hlast
  answered := fun hcomplete => congrArg Nat.succ (h.answered hcomplete)

omit [Incoming ι] in
/-- The last reply, with nothing but sentinels behind it. -/
theorem of_last (hnonempty : reply ≠ .piece (some (.ok []))) (hfront : reply.returned <+: rest)
    (hwhole : reply.isFault = false → reply.returned = rest ∧ complete)
    (hfinished : last.finished = true) :
    Orderly rest complete (call :: calls) (reply :: calls.map Call.sentinel) last where
  nonempty := by
    rintro (_ | ⟨_, hmem⟩)
    · exact hnonempty rfl
    · obtain ⟨other, -, hother⟩ := List.mem_map.mp hmem
      cases other <;> cases hother
  front := by
    rw [List.flatMap_cons, Call.flatMap_sentinel, List.append_nil]
    exact hfront
  whole := by
    intro before other after hreplies hlast hfaultless
    cases before with
    | nil =>
        obtain ⟨rfl, -⟩ := List.cons.inj hreplies
        simpa using hwhole (hfaultless reply (by simp))
    | cons first before =>
        obtain ⟨rfl, -⟩ := List.cons.inj hreplies
        have hlater : calls.map Call.sentinel = before ++ other :: after := (List.cons.inj hreplies).2
        obtain ⟨hall, hcomplete⟩ := hwhole (hfaultless reply (by simp))
        have hnothing := Call.flatMap_sentinel calls
        rw [hlater, List.append_cons, List.flatMap_append] at hnothing
        refine ⟨?_, hcomplete⟩
        rw [List.cons_append, List.flatMap_cons, (List.append_eq_nil_iff.mp hnothing).1, hall,
          List.append_nil]
  once := by
    have hnone : (calls.map Call.sentinel).countP Reply.isFault = 0 := by
      simp [List.countP_eq_zero]
    rw [List.countP_cons, hnone, Nat.zero_add]
    split
    · exact Nat.le_refl 1
    · exact Nat.zero_le 1
  finished := by
    intro before other after hreplies _
    refine ⟨hfinished, ?_⟩
    cases before with
    | nil => exact (List.cons.inj hreplies).2.symm
    | cons first before =>
        have hlater : calls.map Call.sentinel = before ++ other :: after := (List.cons.inj hreplies).2
        rw [List.length_cons, List.drop_succ_cons, List.map_drop, hlater, List.append_cons]
        exact (List.drop_left' (by simp)).symm
  answered := fun _ => by simp

end Orderly

/-- By induction on the calls: as long as none is the last, the body supplies the next one. -/
theorem Supplies.orderly_session {complete : Prop} {holds : Bytes → BodyReader ι → Prop}
    (h : Supplies complete holds) (calls : List Call) {rest : Bytes} {reader : BodyReader ι}
    (hholds : holds rest reader) :
    Orderly rest complete calls (session calls reader).1 (session calls reader).2 := by
  induction calls generalizing rest reader with
  | nil => exact .of_nil fun _ => rfl
  | cons call calls ih =>
      rcases hrun : call.activity.run reader with ⟨_ | reply, next⟩
      · simp only [session, hrun]
        refine .of_nil fun hcomplete => ?_
        exact absurd (by rw [hrun]) (h.answers call hholds hcomplete)
      · simp only [session, hrun]
        obtain ⟨hnonempty, ⟨hopen, later, rfl, hlater⟩ | ⟨-, hfinished, hfront, hwhole⟩⟩ :=
          h.call hholds hrun
        · exact .cons hnonempty hopen (ih hlater)
        · obtain ⟨hreplies, hlast⟩ := session_of_finished calls hfinished
          rw [hreplies]
          exact .of_last hnonempty hfront hwhole hlast

end BodyReader

/-! A body in memory. -/

namespace StoredBody

open BodyReader

/-- The reader that has these data before it. -/
def Holds (rest : Bytes) (reader : BodyReader StoredBody) : Prop := reader = .start (ofBytes rest)

theorem poll_start (rest : Bytes) :
    (BodyReader.start (ofBytes rest)).poll =
      if rest.isEmpty then (.ready none, ⟨⟨none⟩, true⟩)
      else (.ready (some (.ok rest)), .start (ofBytes [])) := by
  cases rest <;> rfl

theorem supplies_holds : Supplies True Holds where
  poll_pending := by
    rintro rest reader next rfl hpoll
    rw [poll_start] at hpoll
    split at hpoll <;> simp at hpoll
  poll_ready := by
    rintro rest reader next answer rfl hpoll
    rw [poll_start] at hpoll
    split at hpoll
    · next hempty =>
      obtain ⟨hanswer, rfl⟩ := Prod.mk.inj hpoll
      obtain rfl := Polled.ready.inj hanswer
      exact ⟨rfl, List.isEmpty_iff.mp hempty, trivial⟩
    · next hdata =>
      obtain ⟨hanswer, rfl⟩ := Prod.mk.inj hpoll
      obtain rfl := Polled.ready.inj hanswer
      exact ⟨fun hnil => hdata (List.isEmpty_iff.mpr hnil), [], (List.append_nil rest).symm, rfl⟩
  serve := by
    rintro rest reader rfl
    rfl
  advance := by
    rintro rest reader steps rfl
    rfl
  answers := by
    rintro rest reader call rfl - hnone
    cases call <;> cases rest <;> cases hnone

end StoredBody

end Turnpike
