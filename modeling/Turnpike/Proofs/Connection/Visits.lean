import Turnpike.Proofs.Body.Visits
import Turnpike.Proofs.Connection.Pipeline

/-!
The decoder of a connection and those who read through it, in step.  The request loop and the sender
of a body take turns at the feed, and each finds the decoder where it needs it, wherever the other
was left standing.
-/

namespace Turnpike

open BodyChannel

namespace Feed

variable {feed later : Feed}

/-- One read more than there are octets to come is enough. -/
theorem nextWithin_eq_next (hsound : feed.Sound) {fuel : Nat}
    (hfuel : feed.segments.flatten.length < fuel) : nextWithin fuel feed = feed.next := by
  suffices ∀ {fuel other : Nat} {feed : Feed}, feed.Sound → feed.segments.flatten.length < fuel →
      feed.segments.flatten.length < other → nextWithin fuel feed = nextWithin other feed from
    this hsound hfuel (Nat.lt_succ_self _)
  intro fuel
  induction fuel with
  | zero => exact fun _ hfuel => absurd hfuel (Nat.not_lt_zero _)
  | succ fuel ih =>
      intro other feed hsound hfuel hother
      obtain ⟨other, rfl⟩ := Nat.exists_eq_succ_of_ne_zero (Nat.ne_zero_of_lt hother)
      rcases hdecode : feed.reader.decode feed.buffer with ⟨fault | _ | message, next, rest⟩
      all_goals simp only [nextWithin, decode, hdecode]
      split
      · next filled hfill =>
        obtain ⟨hfilled, -, hlength⟩ := fill?_eq_some (hsound.decoded hdecode) hfill
        have hless : filled.segments.flatten.length < feed.segments.flatten.length := hlength
        exact ih hfilled (by omega) (by omega)
      · rfl

/-- Reading on from a feed asks the decoder here, behind some reads that have brought too little. -/
inductive Tries (feed : Feed) : Feed → Prop
  | first : Tries feed feed
  | more {state next filled : Feed} : Tries feed state → state.decode = (.ok none, next) →
      next.fill? = some filled → Tries feed filled

/-- A read that is given up half way and made again comes to the same. -/
theorem Tries.kept (h : feed.Tries later) (hsound : feed.Sound) :
    later.Sound ∧ later.reader.body.isSome = feed.reader.body.isSome ∧ later.next = feed.next := by
  induction h with
  | first => exact ⟨hsound, rfl, rfl⟩
  | @more state next filled _ hmore hfill ih =>
      obtain ⟨hstate, hreader, hnext⟩ := ih
      rcases hdecode : state.reader.decode state.buffer with ⟨outcome, after, rest⟩
      simp only [decode, hdecode, Prod.mk.injEq] at hmore
      obtain ⟨rfl, rfl⟩ := hmore
      obtain ⟨hfilled, hafter, hlength⟩ := fill?_eq_some (hstate.decoded hdecode) hfill
      have hsame : state.next = nextWithin state.segments.flatten.length filled := by
        simp only [Feed.next, nextWithin, decode, hdecode, hfill]
      refine ⟨hfilled, ?_, ?_⟩
      · rw [hafter, ← hreader]
        rcases RequestReader.decode_eq_more hdecode with
          ⟨hbefore, hstart, -⟩ | ⟨_, _, hbefore, hbehind, -⟩
        · exact congrArg (·.body.isSome) (hstart.trans hbefore.symm)
        · simp only [decoded, hbefore, hbehind, Option.isSome_some]
      · exact (nextWithin_eq_next hfilled hlength).symm.trans (hsame.symm.trans hnext)

end Feed

namespace Connection

/-- Something is read; which feed it finds. -/
inductive Visit where
  /-- for the head of a request -/
  | request (feed : Feed)
  /-- for a piece of a body -/
  | item (feed : Feed)

namespace Visit

def feed : Visit → Feed
  | .request feed | .item feed => feed

def left : Visit → Feed
  | .request feed => feed.next.2
  | .item feed => beyond feed

def Fails : Visit → Prop
  | .request feed => ∃ fault, feed.next.1 = .fault fault
  | .item feed => BodyChannel.Fails feed

/-- The decoder is where it is needed, at each try, and what it yields is what was read for. -/
def InStep : Visit → Prop
  | .request feed => ∀ later, feed.Tries later →
    later.next = feed.next ∧ later.reader.body = none ∧ ∀ item, later.next.1 ≠ .message (.item item)
  | .item feed => ∀ later, feed.Tries later →
    later.next = feed.next ∧ later.reader.body ≠ none ∧
      ∀ head size, later.next.1 ≠ .message (.head head size)

end Visit

/-! What is visited, by the recursion of what visits. -/

def bodyVisits (activity : Activity (Handled β)) (size : PayloadSize) (feed : Feed) : List Feed :=
  let reader := BodyReader.start (BodyChannel.start size feed)
  activity.visits reader ++ match activity.run reader with
    | (none, _) => []
    | (some _, last) => last.body.finishVisits

def processVisits (handler : RequestHead → Activity (Handled β)) (head : RequestHead)
    (size : PayloadSize) (feed : Feed) (outbox : Outbox) : List Feed :=
  match head.expectation with
  | .unsupported _ => []
  | .nothing => bodyVisits (handler head) size feed
  | .continuation =>
    if size.isEmpty then bodyVisits (handler head) size feed
    else
      match outbox.sendContinue with
      | (.error _, _) => []
      | (.ok (), _) => bodyVisits (handler head) size feed

def loopVisits (config : ConnectionConfig) (handler : Handler β) :
    Nat → Nat → Feed → Outbox → List Visit
  | 0, _, _, _ => []
  | fuel + 1, count, feed, outbox =>
    .request feed :: match feed.next with
      | (.message (.head head size), feed) =>
        (processVisits (handler count) head size feed outbox).map .item ++
          match process config (handler count) head size feed outbox with
          | .answered .keepAlive dispatched feed outbox =>
            loopVisits config handler fuel (count + dispatched.length) feed outbox
          | .answered .close _ _ _ | .failed _ _ _ _ | .waiting _ _ _ => []
      | (.message (.item _), _) | (.fault _, _) | (.ended, _) | (.silence, _) => []

def serveVisits (config : ConnectionConfig) (handler : Handler β) (segments : List Bytes)
    (ending : Ending) (failure : Option WriteFailure) : List Visit :=
  let feed := Feed.start config.readBufferSize segments ending
  loopVisits config handler (feed.unread.length + 1) 0 feed (.start failure)

/-! One request. -/

/-- Where a request leaves the feed; the connection goes on only behind a body that is whole. -/
def EndsAt (last : Feed) (isWhole : Prop) : Processed β → Prop
  | .answered .keepAlive _ feed _ => feed = last ∧ isWhole
  | .answered .close _ feed _ | .failed _ _ feed _ => feed = last
  | .waiting _ _ _ => True

/-- These visits to its body are all that a request reads. -/
def Reads (feed : Feed) (visits : List Feed) (processed : Processed β) : Prop :=
  ∃ last isWhole, Gone feed feed last visits isWhole ∧
    (isWhole → last.Sound ∧ last.reader = .start) ∧ EndsAt last isWhole processed

theorem endsAt_answered {next : Next} {isWhole : Prop} (h : next = .keepAlive → isWhole)
    (dispatched : List (Dispatched β)) (feed : Feed) (sent : Sent) :
    EndsAt feed isWhole (answered next dispatched feed sent) := by
  obtain ⟨fault | _, outbox⟩ := sent
  · rfl
  · cases next with
    | keepAlive => exact ⟨rfl, h rfl⟩
    | close => rfl

theorem endsAt_conclude {received : Except RequestFault Unit} {isWhole : Prop}
    (h : received = .ok () → isWhole) (keepAlive : Bool) (head : RequestHead) (size : PayloadSize)
    (handled : Handled β) (left : ResponseBody) (feed : Feed) (outbox : Outbox) :
    EndsAt feed isWhole (conclude keepAlive head size handled received left feed outbox) := by
  cases received with
  | ok received => exact endsAt_answered (fun _ => h rfl) _ _ _
  | error fault =>
      simp only [conclude]
      split
      · rfl
      · exact endsAt_answered (by simp) _ _ _

variable {feed last state : Feed} {size : PayloadSize}

theorem reads_dispatch (h : feed.Inside (.ofSize size)) (keepAlive : Bool) (head : RequestHead)
    (activity : Activity (Handled β)) (outbox : Outbox) :
    Reads feed (bodyVisits activity size feed)
      (dispatch keepAlive head size activity feed outbox) := by
  have hstart : Visited size feed [] (BodyReader.start (BodyChannel.start size feed)).body :=
    visited_start size feed
  obtain ⟨body, hvisited, hbody⟩ := activity.visited_run hstart
  rw [List.nil_append] at hvisited
  unfold bodyVisits dispatch
  rcases hrun : activity.run (.start (BodyChannel.start size feed)) with ⟨_ | handled, reader⟩
  · simp only [hrun, List.append_nil]
    exact ⟨body.source, False, ⟨hvisited.trail, hvisited.inOrder, False.elim⟩, False.elim, trivial⟩
  · obtain rfl := hbody handled reader hrun
    obtain ⟨last, hgone, hlast⟩ := hvisited.finish
    have hskipped := Feed.skipped_finish h hvisited.reached
    simp only [hrun]
    refine ⟨last, _, hgone, ?_, ?_⟩
    · rintro ⟨next, hfinish⟩
      rw [hfinish] at hskipped
      obtain ⟨hsound, hreader, -⟩ := hskipped
      exact hlast _ next hfinish ▸ ⟨hsound, hreader⟩
    · cases hfinish : reader.body.finish with
      | none => exact trivial
      | some finished =>
          obtain ⟨received, next⟩ := finished
          obtain rfl := hlast received next hfinish
          refine endsAt_conclude ?_ keepAlive head size handled (unreadBody next) next.source outbox
          rintro rfl
          exact ⟨next, rfl⟩

theorem reads_process (h : feed.Inside (.ofSize size)) (config : ConnectionConfig)
    (handler : RequestHead → Activity (Handled β)) (head : RequestHead) (outbox : Outbox) :
    Reads feed (processVisits handler head size feed outbox)
      (process config handler head size feed outbox) := by
  have hdispatch : ∀ outbox, Reads feed (bodyVisits (handler head) size feed)
      (dispatch (config.keepAlive && head.keepAlive) head size (handler head) feed outbox) :=
    reads_dispatch h _ head (handler head)
  have hnothing : ∀ {processed : Processed β}, EndsAt feed False processed →
      Reads feed [] processed := fun hends =>
    ⟨feed, False, ⟨rfl, ⟨by simp, .nil⟩, False.elim⟩, False.elim, hends⟩
  unfold processVisits process
  cases head.expectation with
  | unsupported value => exact hnothing (endsAt_answered (by simp) _ _ _)
  | nothing => exact hdispatch outbox
  | continuation =>
      simp only
      split
      · exact hdispatch outbox
      · rcases outbox.sendContinue with ⟨fault | _, next⟩
        · exact hnothing rfl
        · exact hdispatch next

/-! All requests. -/

/-- Between two requests no decoder is at hand. -/
theorem inStep_request (hsound : feed.Sound) (hstart : feed.reader = .start) :
    (Visit.request feed).InStep := by
  intro later htries
  obtain ⟨hlater, hreader, hnext⟩ := htries.kept hsound
  have hbody : later.reader.body = none := by
    rw [hstart] at hreader
    exact Option.isNone_iff_eq_none.mp (by simpa [RequestReader.start] using hreader)
  refine ⟨hnext, hbody, fun item hitem => ?_⟩
  rw [hnext] at hitem
  rcases next_of_start hsound hstart with ⟨head, size, next, hhead, -⟩ | ⟨hnone, -⟩
  · rw [hhead] at hitem
    simp at hitem
  · exact hnone _ hitem

theorem inStep_item (h : feed.Inside (.ofSize size)) (hunderway : Underway feed state) :
    (Visit.item state).InStep := by
  obtain ⟨pieces, hpulls, hpieces⟩ := hunderway
  obtain ⟨after, hbetween⟩ := Feed.between_of_pulls h hpulls hpieces
  have hinside := hbetween.inside
  intro later htries
  obtain ⟨hlater, hreader, hnext⟩ := htries.kept hinside.sound
  refine ⟨hnext, ?_, fun head size hhead => ?_⟩
  · intro hnone
    rw [hnone, hinside.reader] at hreader
    contradiction
  · obtain ⟨-, hanswers⟩ := Feed.next_answers hinside.sound
    rw [← hnext, hhead, Feed.Answers, hinside.reader] at hanswers
    rcases hanswers with hmessage | ⟨-, _, _, _, _, hitem, -⟩
    · obtain ⟨_, _, hitem, -⟩ := RequestReader.decode_body_eq_message hmessage
      contradiction
    · contradiction

/-- What holds of all that a connection reads from here on. -/
structure Paced (feed : Feed) (visits : List Visit) (run : ConnectionRun β) : Prop where
  inStep : ∀ visit ∈ visits, visit.InStep
  unbroken : visits.Pairwise fun earlier _ => ¬ earlier.Fails
  trail : ∃ last, Trail Visit.feed Visit.left feed visits last ∧
    (run.outcome ≠ .waiting → run.feed = last)

theorem paced_nil {run : ConnectionRun β} (h : run.outcome ≠ .waiting → run.feed = feed) :
    Paced feed [] run :=
  ⟨by simp, .nil, feed, rfl, h⟩

theorem Paced.request {visits : List Visit} {run : ConnectionRun β}
    (hinStep : (Visit.request feed).InStep) (h : Paced feed.next.2 visits run)
    (hkept : visits ≠ [] → ∀ fault, feed.next.1 ≠ .fault fault) :
    Paced feed (.request feed :: visits) run where
  inStep := List.forall_mem_cons.mpr ⟨hinStep, h.inStep⟩
  unbroken := List.pairwise_cons.mpr ⟨fun _ hlater ⟨fault, hfault⟩ =>
    hkept (List.ne_nil_of_mem hlater) fault hfault, h.unbroken⟩
  trail := h.trail.imp fun _ htrail => ⟨⟨rfl, htrail.1⟩, htrail.2⟩

theorem Paced.items {items : List Feed} {isWhole : Prop} {visits : List Visit}
    {run : ConnectionRun β} (hinside : feed.Inside (.ofSize size))
    (hgone : Gone feed feed last items isWhole) (h : Paced last visits run)
    (hkept : visits ≠ [] → isWhole) : Paced feed (items.map .item ++ visits) run where
  inStep visit hvisit := by
    rcases List.mem_append.mp hvisit with hitem | hlater
    · obtain ⟨state, hstate, rfl⟩ := List.mem_map.mp hitem
      exact inStep_item hinside (hgone.inOrder.underway state hstate)
    · exact h.inStep visit hlater
  unbroken := by
    refine List.pairwise_append.mpr ⟨List.pairwise_map.mpr hgone.inOrder.unbroken, h.unbroken, ?_⟩
    intro visit hitem later hlater
    obtain ⟨state, hstate, rfl⟩ := List.mem_map.mp hitem
    exact hgone.whole (hkept (List.ne_nil_of_mem hlater)) state hstate
  trail := by
    obtain ⟨behind, hlater, hfeed⟩ := h.trail
    have hitems : Trail Visit.feed Visit.left feed (items.map Visit.item) last :=
      .map Visit.item hgone.trail
    exact ⟨behind, hitems.append hlater, hfeed⟩

theorem feed_reject (status : Status) (fault : RequestFault) (feed : Feed) (outbox : Outbox) :
    (reject status fault feed outbox : ConnectionRun β).feed = feed := by
  unfold reject
  simp only
  split <;> rfl

theorem paced_loop (config : ConnectionConfig) (handler : Handler β) (fuel count : Nat)
    (feed : Feed) (outbox : Outbox) (hsound : feed.Sound) (hstart : feed.reader = .start) :
    Paced feed (loopVisits config handler fuel count feed outbox)
      (loop config handler fuel count feed outbox) := by
  induction fuel generalizing count feed outbox with
  | zero => exact paced_nil fun hnot => absurd rfl hnot
  | succ fuel ih =>
      have hrequest := inStep_request hsound hstart
      unfold loopVisits loop
      rcases next_of_start hsound hstart with ⟨head, size, next, hnext, -, hinside⟩ | ⟨hnone, -⟩
      · obtain ⟨last, isWhole, hgone, hwhole, hends⟩ :=
          reads_process hinside config (handler count) head outbox
        refine Paced.request hrequest ?_ (by simp [hnext])
        simp only [hnext]
        rcases hprocess : process config (handler count) head size next outbox with
          ⟨_ | _, dispatched, feed, after⟩ | ⟨fault, dispatched, feed, after⟩ |
          ⟨dispatched, feed, after⟩
        all_goals rw [hprocess] at hends
        · -- a connection is kept only behind a whole body, where the decoder is gone again
          obtain ⟨rfl, hbehind⟩ := hends
          obtain ⟨hfeed, hreader⟩ := hwhole hbehind
          obtain ⟨hinStep, hunbroken, htrail⟩ :=
            ih (count + dispatched.length) feed after hfeed hreader
          exact .items hinside hgone ⟨hinStep, hunbroken, htrail⟩ fun _ => hbehind
        · exact .items hinside hgone (paced_nil fun _ => hends) (absurd rfl)
        · exact .items hinside hgone (paced_nil fun _ => hends) (absurd rfl)
        · exact .items hinside hgone (paced_nil (absurd rfl)) (absurd rfl)
      · have hlast : ∀ {run : ConnectionRun β}, (run.outcome ≠ .waiting → run.feed = feed.next.2) →
            Paced feed [.request feed] run := fun hfeed =>
          .request hrequest (paced_nil hfeed) (absurd rfl)
        rcases hnext : feed.next with ⟨message | fault | _ | _, next⟩
        all_goals rw [hnext] at hnone hlast
        · exact absurd rfl (hnone message)
        · refine hlast fun _ => ?_
          simp only
          split
          · rfl
          · exact feed_reject _ _ next outbox
        · exact hlast fun _ => rfl
        · exact hlast fun _ => rfl

/-- Whatever the peer sends and however the handlers go on, leave or wait, a connection reads for a
request only where no decoder is at hand, and for a piece of a body only inside that body.  So it
never comes upon data in place of a head, nor upon a head in place of data.  A read that is given up
half way comes to the same when it is made again, none is made after one that has failed, and there
are no others: each begins where the one before has left the feed. -/
theorem serve_in_step (config : ConnectionConfig) (handler : Handler β) (segments : List Bytes)
    (ending : Ending) (failure : Option WriteFailure) :
    let run := serve config handler segments ending failure
    let visits := serveVisits config handler segments ending failure
    (∀ visit ∈ visits, visit.InStep) ∧
      (∀ before visit after, visits = before ++ visit :: after → visit.Fails → after = []) ∧
      ∃ last, Trail Visit.feed Visit.left (Feed.start config.readBufferSize segments ending) visits
          last ∧
        (run.outcome ≠ .waiting → run.feed = last) := by
  intro run visits
  have hpaced : Paced _ visits run := paced_loop config handler _ 0 _ _ (Feed.sound_start _ _ _) rfl
  refine ⟨hpaced.inStep, fun before visit after hvisits hfails => ?_, hpaced.trail⟩
  have hunbroken := hpaced.unbroken
  rw [hvisits, List.pairwise_append, List.pairwise_cons] at hunbroken
  exact List.eq_nil_iff_forall_not_mem.mpr fun later hlater =>
    hunbroken.2.1.1 later hlater hfails

-- the first handler leaves a piece and the end to be skipped, the second body breaks off behind a
-- piece
example :
    let handler : Handler Unit := fun _ _ => .read fun _ => .done ⟨(), .ok default⟩
    let head := "POST / HTTP/1.1\r\nTransfer-Encoding: chunked\r\n\r\n"
    let input := head ++ "2\r\nab\r\n1\r\nc\r\n0\r\n\r\n" ++ head ++ "2\r\nabX"
    (serveVisits .standard handler [Bytes.ofText input] .eof none).map
        (fun visit => match visit with
          | .request _ => "head"
          | .item _ => "item") =
      ["head", "item", "item", "item", "head", "item", "item"] := by
  decide +kernel

end Connection

end Turnpike
