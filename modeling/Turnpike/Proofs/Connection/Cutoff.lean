import Turnpike.Proofs.Connection.Pipeline
import Turnpike.Proofs.Connection.Script

/-!
A writer that fails after so many octets beside one that never does.  Up to the failure the two runs
are the same; what is accepted is the front of what the other run writes, and behind the failure
nothing is read or handed out any more.
-/

namespace Turnpike

namespace Sink

/-- The same peer behind a writer that never fails. -/
def unlimited (sink : Sink) : Sink := { sink with failure := none }

/-- The writer fails so, and has not failed yet. -/
structure Within (sink : Sink) (failure : WriteFailure) : Prop where
  fails : sink.failure = some failure
  room : sink.written.length ≤ failure.after

variable {sink : Sink} {failure : WriteFailure}

theorem write_of_room (h : sink.Within failure) {bytes : Bytes}
    (hroom : sink.written.length + bytes.length ≤ failure.after) :
    sink.write bytes = (.ok (), sink.accept bytes) := by
  have hfits : bytes.length ≤ failure.after - sink.written.length := by omega
  simp only [write, h.fails, if_pos hfits]

theorem write_of_no_room (h : sink.Within failure) {bytes : Bytes}
    (hroom : failure.after < sink.written.length + bytes.length) :
    ∃ next, sink.write bytes = (.error failure.fault, next) ∧
      next.written = (sink.written ++ bytes).take failure.after := by
  have hover : ¬bytes.length ≤ failure.after - sink.written.length := by
    have hwithin := h.room
    omega
  refine ⟨sink.accept (bytes.take (failure.after - sink.written.length)), ?_, ?_⟩
  · simp only [write, h.fails, if_neg hover]
  · rw [written_accept, List.take_append, List.take_of_length_le h.room]

end Sink

namespace Outbox

def unlimited (outbox : Outbox) : Outbox := { outbox with sink := outbox.sink.unlimited }

variable {failure : WriteFailure}

/-- What sending comes to before a writer that fails so, where before one that never fails it comes
to `whole`. -/
inductive Beside (failure : WriteFailure) (whole : Sent) : Sent → Prop where
  | same {result : Except ResponseFault Unit} {outbox : Outbox}
      (within : outbox.sink.Within failure) (sent : whole = (result, outbox.unlimited)) :
      Beside failure whole (result, outbox)
  | refused {outbox : Outbox} (short : failure.after < whole.2.sink.written.length)
      (taken : outbox.sink.written = whole.2.sink.written.take failure.after) :
      Beside failure whole (.error (.io failure.fault), outbox)

/-- Sending that knows of its writer only what the writer says of each octet string. -/
structure Steady (send : Outbox → Sent) : Prop where
  grows : ∀ outbox : Outbox, outbox.Grows (send outbox).2
  beside : ∀ {failure : WriteFailure} {outbox : Outbox}, outbox.sink.Within failure →
    Beside failure (send outbox.unlimited) (send outbox)

theorem steady_of_sink {send : Outbox → Sent} (hsink : ∀ outbox, (send outbox).2.sink = outbox.sink)
    (hunlimited : ∀ outbox, send outbox.unlimited =
      ((send outbox).1, (send outbox).2.unlimited)) : Steady send where
  grows := by
    intro outbox
    exact ⟨hsink outbox ▸ List.prefix_rfl, by rw [hsink]⟩
  beside := by
    intro failure outbox h
    exact .same (by rwa [hsink]) (hunlimited outbox)

/-- How sending goes on may depend on all of an outbox but its writer. -/
theorem steady_of_view {send : Outbox → Sent}
    (h : ∀ outbox, ∃ step, Steady step ∧ send outbox = step outbox ∧
      send outbox.unlimited = step outbox.unlimited) : Steady send where
  grows := by
    intro outbox
    obtain ⟨step, hstep, hsend, -⟩ := h outbox
    rw [hsend]
    exact hstep.grows outbox
  beside := by
    intro failure outbox hwithin
    obtain ⟨step, hstep, hsend, hunlimited⟩ := h outbox
    rw [hsend, hunlimited]
    exact hstep.beside hwithin

theorem steady_nothing : Steady fun outbox => (.ok (), outbox) :=
  steady_of_sink (fun _ => rfl) fun _ => rfl

theorem Steady.andThen {send next : Outbox → Sent} (h : Steady send) (hnext : Steady next) :
    Steady fun outbox => (send outbox).andThen next where
  grows := by
    intro outbox
    have hsend := h.grows outbox
    rcases hsent : send outbox with ⟨fault | _, middle⟩
    · rwa [hsent] at hsend
    · rw [hsent] at hsend
      exact hsend.trans (hnext.grows middle)
  beside := by
    intro failure outbox hwithin
    have hbeside := h.beside hwithin
    rcases hsent : send outbox with ⟨result, middle⟩
    rw [hsent] at hbeside
    cases hbeside with
    | same hmiddle hwhole =>
        rw [hwhole]
        cases result with
        | error fault => exact .same hmiddle rfl
        | ok _ => exact hnext.beside hmiddle
    | refused hshort htaken =>
        -- what comes behind only adds to what was already too much
        have hgrows : (send outbox.unlimited).2.sink.written <+:
            ((send outbox.unlimited).andThen next).2.sink.written := by
          rcases send outbox.unlimited with ⟨fault | _, middle⟩
          · exact List.prefix_rfl
          · exact (hnext.grows middle).written
        refine .refused (Nat.lt_of_lt_of_le hshort hgrows.length_le) ?_
        rw [htaken]
        obtain ⟨more, hmore⟩ := hgrows
        rw [← hmore, List.take_append_of_le_length (Nat.le_of_lt hshort)]

theorem steady_writeNow (bytes : Bytes) : Steady fun outbox => outbox.writeNow bytes where
  grows := fun outbox => grows_writeNow outbox bytes
  beside := by
    intro failure outbox h
    have hwhole : outbox.unlimited.writeNow bytes =
        (.ok (), ({ outbox with sink := outbox.sink.accept bytes } : Outbox).unlimited) := rfl
    rw [hwhole]
    by_cases hroom : outbox.sink.written.length + bytes.length ≤ failure.after
    · simp only [writeNow, Sink.write_of_room h hroom]
      refine .same ⟨h.fails, ?_⟩ rfl
      simpa using hroom
    · obtain ⟨next, hwrite, hwritten⟩ := Sink.write_of_no_room h (Nat.lt_of_not_le hroom)
      simp only [writeNow, hwrite]
      refine .refused ?_ hwritten
      simpa [unlimited, Sink.unlimited] using hroom

theorem steady_flush : Steady flush := by
  refine steady_of_view fun outbox => ?_
  cases hempty : outbox.buffer.isEmpty with
  | true =>
      refine ⟨_, steady_nothing, ?_, ?_⟩
      · simp only [flush, hempty, if_true]
      · simp only [flush, unlimited, hempty, if_true]
  | false =>
      have hcleared : Steady fun outbox => (.ok (), { outbox with buffer := [] }) :=
        steady_of_sink (fun _ => rfl) fun _ => rfl
      refine ⟨_, (steady_writeNow outbox.buffer).andThen hcleared, ?_, ?_⟩
      · simp only [flush, hempty, Bool.false_eq_true, if_false]
      · simp only [flush, unlimited, hempty, Bool.false_eq_true, if_false]

theorem steady_flushIfFull : Steady flushIfFull := by
  refine steady_of_view fun outbox => ?_
  by_cases hfull : outbox.buffer.length ≥ fullSize
  · exact ⟨flush, steady_flush, if_pos hfull, if_pos hfull⟩
  · exact ⟨_, steady_nothing, if_neg hfull, if_neg hfull⟩

theorem steady_put (message : Message ResponseHead) : Steady fun outbox => outbox.put message := by
  refine steady_of_sink ?_ ?_
  · intro outbox
    unfold put
    rcases outbox.writer.encode message with ⟨flaw | bytes, writer⟩ <;> rfl
  · intro outbox
    simp only [put, unlimited]
    rcases outbox.writer.encode message with ⟨flaw | bytes, writer⟩ <;> rfl

theorem steady_feed (message : Message ResponseHead) : Steady fun outbox => outbox.feed message :=
  steady_flushIfFull.andThen (steady_put message)

theorem steady_send (message : Message ResponseHead) : Steady fun outbox => outbox.send message :=
  (steady_feed message).andThen steady_flush

theorem steady_feedFrames (frames : List (Except HttpFault Frame)) :
    Steady fun outbox => outbox.feedFrames frames := by
  induction frames with
  | nil => exact steady_nothing
  | cons frame frames ih =>
      match frame with
      | .error fault => exact steady_of_sink (fun _ => rfl) fun _ => rfl
      | .ok (.trailers fields) => exact ih
      | .ok (.data data) =>
          simp only [feedFrames_data]
          exact (steady_feed _).andThen ih

theorem steady_sendParts (head : ResponseHead) (hint : SizeHint)
    (frames : List (Except HttpFault Frame)) (isHead : Bool) :
    Steady fun outbox => outbox.sendParts head hint frames isHead := by
  have hdiscarded : Steady fun outbox => (.ok (), outbox.discardBody) :=
    steady_of_sink (fun _ => rfl) fun _ => rfl
  have hbody : Steady fun outbox =>
      (outbox.feedFrames frames).andThen fun outbox => outbox.send (.item .eof) :=
    (steady_feedFrames frames).andThen (steady_send _)
  unfold sendParts
  simp only
  split
  · exact (steady_send _).andThen hdiscarded
  · exact (steady_feed _).andThen hbody

theorem steady_sendResponse (response : Response) (isHead : Bool) :
    Steady fun outbox => outbox.sendResponse response isHead :=
  steady_sendParts _ _ _ _

end Outbox

def Processed.dispatched : Processed β → List (Dispatched β)
  | .answered _ dispatched _ _ | .failed _ dispatched _ _ | .waiting dispatched _ _ => dispatched

namespace Connection

/-- A run whose writer fails, beside one whose writer never does. -/
structure Truncates (failure : WriteFailure) (whole run : ConnectionRun β) : Prop where
  written : run.written = whole.written.take failure.after
  dispatched : run.dispatched <+: whole.dispatched
  refused : failure.after < whole.written.length →
    run.outcome = .failed (.response (.io failure.fault))
  accepted : whole.written.length ≤ failure.after →
    run.dispatched = whole.dispatched ∧ run.outcome = whole.outcome

/-- The writing half of a connection from some point on, whose runs a failing writer cuts off. -/
structure CutsOff (play : Outbox → ConnectionRun β) : Prop where
  grows : ∀ outbox : Outbox, outbox.sink.written <+: (play outbox).written
  truncates : ∀ {failure : WriteFailure} {outbox : Outbox}, outbox.sink.Within failure →
    Truncates failure (play outbox.unlimited) (play outbox)

/-- Goes on unless sending has failed. -/
def afterSent (dispatched : List (Dispatched β)) (feed : Feed)
    (next : Outbox → ConnectionRun β) : Sent → ConnectionRun β
  | (.ok (), outbox) => next outbox
  | (.error fault, outbox) => ⟨dispatched, .failed (.response fault), outbox, feed⟩

theorem truncates_of_within {failure : WriteFailure} {whole run : ConnectionRun β}
    (h : run.outbox.sink.Within failure) (hwritten : whole.written = run.written)
    (hdispatched : whole.dispatched = run.dispatched) (houtcome : whole.outcome = run.outcome) :
    Truncates failure whole run := by
  have hroom : run.written.length ≤ failure.after := h.room
  refine ⟨?_, ?_, ?_, ?_⟩
  · rw [hwritten, List.take_of_length_le hroom]
  · exact hdispatched ▸ List.prefix_rfl
  · intro hshort
    rw [hwritten] at hshort
    exact absurd hroom (Nat.not_le_of_lt hshort)
  · exact fun _ => ⟨hdispatched.symm, houtcome.symm⟩

theorem cutsOff_stop (dispatched : List (Dispatched β)) (outcome : Outcome) (feed : Feed) :
    CutsOff fun outbox => ⟨dispatched, outcome, outbox, feed⟩ where
  grows := fun _ => List.prefix_rfl
  truncates := fun h => truncates_of_within h rfl rfl rfl

theorem cutsOff_shutdown (dispatched : List (Dispatched β)) (outcome : Outcome) (feed : Feed) :
    CutsOff fun outbox => ⟨dispatched, outcome, outbox.shutdown, feed⟩ where
  grows := fun _ => List.prefix_rfl
  truncates := fun h => truncates_of_within ⟨h.fails, h.room⟩ rfl rfl rfl

theorem CutsOff.prepend {play : Outbox → ConnectionRun β} (h : CutsOff play)
    (dispatched : List (Dispatched β)) :
    CutsOff fun outbox =>
      { play outbox with dispatched := dispatched ++ (play outbox).dispatched } where
  grows := h.grows
  truncates := by
    intro failure outbox hwithin
    have hplay := h.truncates hwithin
    refine ⟨hplay.written, ?_, hplay.refused, ?_⟩
    · exact (List.prefix_append_right_inj dispatched).mpr hplay.dispatched
    · intro hroom
      obtain ⟨hdispatched, houtcome⟩ := hplay.accepted hroom
      exact ⟨congrArg (dispatched ++ ·) hdispatched, houtcome⟩

theorem CutsOff.afterSent {next : Outbox → ConnectionRun β} (h : CutsOff next) {send : Outbox → Sent}
    (hsend : Outbox.Steady send) {dispatched : List (Dispatched β)} (feed : Feed)
    (hfront : ∀ outbox, dispatched <+: (next outbox).dispatched) :
    CutsOff fun outbox => afterSent dispatched feed next (send outbox) := by
  have hgrows : ∀ sent : Sent, sent.2.sink.written <+:
      (Connection.afterSent dispatched feed next sent).written := by
    rintro ⟨fault | _, outbox⟩
    · exact List.prefix_rfl
    · exact h.grows outbox
  refine ⟨?_, ?_⟩
  · intro outbox
    exact (hsend.grows outbox).written.trans (hgrows (send outbox))
  · intro failure outbox hwithin
    have hbeside := hsend.beside hwithin
    rcases hsent : send outbox with ⟨result, after⟩
    rw [hsent] at hbeside
    cases hbeside with
    | same hafter hwhole =>
        rw [hwhole]
        cases result with
        | error fault => exact truncates_of_within hafter rfl rfl rfl
        | ok _ => exact h.truncates hafter
    | refused hshort htaken =>
        obtain ⟨more, hmore⟩ := hgrows (send outbox.unlimited)
        have hlength := Nat.lt_of_lt_of_le hshort (List.IsPrefix.length_le ⟨more, hmore⟩)
        refine ⟨?_, ?_, fun _ => rfl, fun hroom => absurd hroom (Nat.not_le_of_lt hlength)⟩
        · rw [← hmore, List.take_append_of_le_length (Nat.le_of_lt hshort)]
          exact htaken
        · rcases send outbox.unlimited with ⟨fault | _, whole⟩
          · exact List.prefix_rfl
          · exact hfront whole

theorem goOn_answered (next : Outbox → ConnectionRun β) (keep : Next)
    (dispatched : List (Dispatched β)) (feed : Feed) (sent : Sent) :
    goOn next (answered keep dispatched feed sent) =
      afterSent dispatched feed
        (fun outbox => { next outbox with dispatched := dispatched ++ (next outbox).dispatched })
        sent := by
  rcases sent with ⟨fault | _, outbox⟩ <;> rfl

theorem reject_eq_afterSent (status : Status) (fault : RequestFault) (feed : Feed)
    (outbox : Outbox) :
    (reject status fault feed outbox : ConnectionRun β) =
      afterSent [] feed (fun after => ⟨[], .failed (.request fault), after.shutdown, feed⟩)
        (outbox.sendResponse ((Response.ofStatus status .empty).marked .close .http11) false) := by
  unfold reject
  rcases hsent : outbox.sendResponse ((Response.ofStatus status .empty).marked .close .http11) false
    with ⟨sendFault | _, after⟩
  · simp only [hsent, afterSent]
  · simp only [hsent, afterSent]

theorem cutsOff_reject (status : Status) (fault : RequestFault) (feed : Feed) :
    CutsOff fun outbox => (reject status fault feed outbox : ConnectionRun β) := by
  simp only [reject_eq_afterSent]
  exact (cutsOff_shutdown [] _ feed).afterSent (Outbox.steady_sendResponse _ false) feed
    fun _ => List.prefix_rfl

namespace Turn

theorem steady_invite (turn : Turn β) : Outbox.Steady turn.invite := by
  unfold invite
  split
  · exact Outbox.steady_writeNow _
  · exact Outbox.steady_nothing

variable {next : Outbox → ConnectionRun β}

theorem goOn_play (turn : Turn β) (outbox : Outbox) :
    goOn next (turn.play outbox) =
      afterSent [] turn.arrived (fun invited => goOn next (turn.respond invited))
        (turn.invite outbox) := by
  unfold play
  rcases turn.invite outbox with ⟨fault | _, invited⟩ <;> rfl

theorem cutsOff_unanswered (turn : Turn β) :
    CutsOff fun outbox => goOn next (turn.unanswered outbox) := by
  unfold unanswered
  split <;> exact cutsOff_stop _ _ _

theorem cutsOff_respond (turn : Turn β) (h : CutsOff next) :
    CutsOff fun outbox => goOn next (turn.respond outbox) := by
  unfold respond
  cases turn.final? with
  | none => exact turn.cutsOff_unanswered
  | some response =>
      simp only [goOn_answered]
      exact (h.prepend turn.dispatched).afterSent (Outbox.steady_sendResponse response _) turn.feed
        fun _ => List.prefix_append ..

theorem cutsOff_play (turn : Turn β) (h : CutsOff next) :
    CutsOff fun outbox => goOn next (turn.play outbox) := by
  simp only [goOn_play]
  exact (turn.cutsOff_respond h).afterSent turn.steady_invite turn.arrived fun _ => List.nil_prefix

end Turn

namespace Script

theorem cutsOff_play (script : Script β) : CutsOff script.play := by
  induction script with
  | stopped outcome feed => exact cutsOff_stop [] outcome feed
  | rejected status fault feed => exact cutsOff_reject status fault feed
  | last turn closes => exact turn.cutsOff_play (cutsOff_shutdown [] .closed turn.feed)
  | kept turn keeps later ih => exact turn.cutsOff_play ih

end Script

/-! When a request is handed out. -/

namespace Turn

variable {next : Outbox → ConnectionRun β} {outbox : Outbox}

theorem eq_singleton_of_dispatched {turn : Turn β} {i : Nat} {one : Dispatched β}
    (h : turn.dispatched[i]? = some one) : i = 0 ∧ turn.dispatched = [one] := by
  have hsingleton : ∀ {only : Dispatched β}, [only][i]? = some one → i = 0 ∧ [only] = [one] := by
    intro only honly
    obtain ⟨hi, rfl⟩ := List.getElem?_eq_some_iff.mp honly
    obtain rfl : i = 0 := Nat.lt_one_iff.mp hi
    exact ⟨rfl, rfl⟩
  unfold dispatched at h ⊢
  split at h
  · simp at h
  · exact hsingleton h
  · exact hsingleton h

theorem handed_of_play (turn : Turn β) (h : outbox.Idle) {next : Outbox → ConnectionRun β}
    (hgrows : ∀ outbox : Outbox, outbox.sink.written <+: (next outbox).written) {i : Nat}
    {one : Dispatched β} (hone : (goOn next (turn.play outbox)).dispatched[i]? = some one)
    (hhere : ∀ after, (turn.dispatched ++ (next after).dispatched)[i]? = some one →
      turn.dispatched[i]? = some one) :
    i = 0 ∧ turn.dispatched = [one] ∧
      outbox.sink.written ++ turn.interim <+: (goOn next (turn.play outbox)).written := by
  cases turn.unfolds_play h next with
  | uninvited dispatched _ _ => simp [dispatched] at hone
  | unanswered _ dispatched written =>
      rw [dispatched] at hone
      obtain ⟨hi, hsame⟩ := eq_singleton_of_dispatched hone
      exact ⟨hi, hsame, written ▸ List.prefix_rfl⟩
  | brokenOff dispatched _ begun _ =>
      rw [dispatched] at hone
      obtain ⟨hi, hsame⟩ := eq_singleton_of_dispatched hone
      exact ⟨hi, hsame, begun⟩
  | @answered after _ written goes =>
      rw [goes] at hone ⊢
      obtain ⟨hi, hsame⟩ := eq_singleton_of_dispatched (hhere after hone)
      refine ⟨hi, hsame, List.IsPrefix.trans ?_ (hgrows after)⟩
      rw [written, block, ← List.append_assoc]
      exact List.prefix_append ..

end Turn

/-- What was written before it has all been accepted when a request is handed out. -/
theorem Script.handed_of_play (script : Script β) {outbox : Outbox} (h : outbox.Idle) {i : Nat}
    {one : Dispatched β} (hone : (script.play outbox).dispatched[i]? = some one) :
    ∃ turn, script.turns[i]? = some turn ∧ turn.dispatched = [one] ∧
      outbox.sink.written ++ (script.turns.take i).flatMap Turn.block ++ turn.interim <+:
        (script.play outbox).written := by
  induction script generalizing outbox i with
  | stopped outcome feed => simp [play] at hone
  | rejected status fault feed =>
      rw [play, dispatched_reject] at hone
      simp at hone
  | last turn closes =>
      simp only [play] at hone ⊢
      obtain ⟨rfl, hsame, hwritten⟩ := turn.handed_of_play h (fun _ => List.prefix_rfl) hone
        fun _ hlast => by simpa using hlast
      exact ⟨turn, rfl, hsame, by simpa using hwritten⟩
  | kept turn keeps later ih =>
      simp only [play] at hone ⊢
      obtain ⟨_, _, -, -, hdispatched⟩ := Turn.dispatched_of_keepAlive keeps
      cases i with
      | zero =>
          obtain ⟨-, hsame, hwritten⟩ := turn.handed_of_play h later.cutsOff_play.grows hone
            fun _ hfirst => by simpa [hdispatched] using hfirst
          exact ⟨turn, rfl, hsame, by simpa using hwritten⟩
      | succ i =>
          cases turn.unfolds_play h later.play with
          | uninvited dispatched _ _ => simp [dispatched] at hone
          | unanswered _ dispatched _ => simp [dispatched, hdispatched] at hone
          | brokenOff dispatched _ _ _ => simp [dispatched, hdispatched] at hone
          | answered idle written goes =>
              rw [goes, hdispatched] at hone
              obtain ⟨other, hother, hsame, hwritten⟩ := ih idle hone
              refine ⟨other, hother, hsame, ?_⟩
              rw [written, List.append_assoc outbox.sink.written] at hwritten
              rw [goes, turns, List.take_succ_cons, List.flatMap_cons]
              exact hwritten

/-! Only the handlers of the requests that are handed out are run. -/

theorem dispatched_dispatch (keepAlive : Bool) (head : RequestHead) (size : PayloadSize)
    (activity : Activity (Handled β)) (feed : Feed) (outbox : Outbox) :
    ∃ one, (dispatch keepAlive head size activity feed outbox).dispatched = [one] := by
  have hanswered : ∀ next (one : Dispatched β) feed sent,
      (answered next [one] feed sent).dispatched = [one] := by
    rintro next one feed ⟨fault | _, after⟩ <;> rfl
  unfold dispatch
  split
  · exact ⟨_, rfl⟩
  · split
    · exact ⟨_, rfl⟩
    · next received channel _ =>
      unfold conclude
      cases received with
      | ok received => exact ⟨_, hanswered ..⟩
      | error fault =>
          simp only
          split
          · exact ⟨_, rfl⟩
          · exact ⟨_, hanswered ..⟩

theorem process_congr (config : ConnectionConfig)
    {handler other : RequestHead → Activity (Handled β)} {head : RequestHead} {size : PayloadSize}
    {feed : Feed} {outbox : Outbox}
    (h : (process config handler head size feed outbox).dispatched ≠ [] → other = handler) :
    process config other head size feed outbox = process config handler head size feed outbox := by
  have hdispatch : ∀ keepAlive after,
      (dispatch keepAlive head size (handler head) feed after).dispatched ≠ [] := by
    intro keepAlive after
    obtain ⟨one, hone⟩ := dispatched_dispatch keepAlive head size (handler head) feed after
    rw [hone]
    exact nofun
  unfold process at h ⊢
  simp only at h ⊢
  split at h
  · rfl
  · rw [h (hdispatch _ _)]
  · split at h
    · rw [h (hdispatch _ _)]
    · next hsome =>
      rw [if_neg hsome, if_neg hsome]
      split at h
      · rfl
      · rw [h (hdispatch _ _)]

theorem loop_congr (config : ConnectionConfig) {handler other : Handler β} {fuel count : Nat}
    {feed : Feed} {outbox : Outbox}
    (h : ∀ i < (loop config handler fuel count feed outbox).dispatched.length,
      other (count + i) = handler (count + i)) :
    loop config other fuel count feed outbox = loop config handler fuel count feed outbox := by
  induction fuel generalizing count feed outbox with
  | zero => rfl
  | succ fuel ih =>
      rcases hnext : feed.next with ⟨(⟨head, size⟩ | item) | fault | _ | _, next⟩
      · have hprocess : process config (other count) head size next outbox =
            process config (handler count) head size next outbox := by
          refine process_congr config fun hdispatched => h 0 ?_
          have hsome := List.length_pos_iff.mpr hdispatched
          simp only [loop, hnext]
          split
          all_goals
            next hcame =>
              simp only [hcame, Processed.dispatched] at hsome
              simp only [List.length_append]
              omega
        simp only [loop, hnext] at h ⊢
        rw [hprocess]
        split
        · rfl
        · rfl
        · rfl
        · next dispatched feed after hcame =>
          rw [hcame] at h
          rw [ih]
          intro i hi
          rw [Nat.add_assoc]
          refine h (dispatched.length + i) ?_
          rw [List.length_append]
          exact Nat.add_lt_add_left hi _
      all_goals simp only [loop, hnext]

/-- Beside a writer that never fails, one that fails accepts the front of the same octets, the
requests handed out are the first of the same requests, and the failure is what the connection ends
with.  A request is handed out only when all that is written before it was accepted, and the handlers
of other requests are not run. -/
theorem serve_cut_off (config : ConnectionConfig) (handler : Handler β) (segments : List Bytes)
    (ending : Ending) (failure : WriteFailure) :
    let whole := serve config handler segments ending none
    let run := serve config handler segments ending (some failure)
    let turns := (Script.ofInput config handler segments ending).turns
    run.written = whole.written.take failure.after ∧
      run.dispatched <+: whole.dispatched ∧
      (failure.after < whole.written.length →
        run.outcome = .failed (.response (.io failure.fault))) ∧
      (whole.written.length ≤ failure.after →
        run.dispatched = whole.dispatched ∧ run.outcome = whole.outcome) ∧
      (∀ (i : Nat) (one : Dispatched β), run.dispatched[i]? = some one →
        ∃ turn, turns[i]? = some turn ∧ turn.dispatched = [one] ∧
          (turns.take i).flatMap Turn.block ++ turn.interim <+: run.written) ∧
      ∀ other : Handler β, (∀ i < run.dispatched.length, other i = handler i) →
        serve config other segments ending (some failure) = run := by
  intro whole run turns
  have hwithin : (Outbox.start (some failure)).sink.Within failure := ⟨rfl, Nat.zero_le _⟩
  have hcut : Truncates failure whole run := by
    have hplay := (Script.ofInput config handler segments ending).cutsOff_play.truncates hwithin
    rw [← Script.serve_eq_play] at hplay
    have hwhole : whole = (Script.ofInput config handler segments ending).play (.start none) :=
      Script.serve_eq_play config handler segments ending none
    rw [hwhole]
    exact hplay
  refine ⟨hcut.written, hcut.dispatched, hcut.refused, hcut.accepted, ?_, ?_⟩
  · intro i one hone
    have hrun : run = (Script.ofInput config handler segments ending).play (.start (some failure)) :=
      Script.serve_eq_play config handler segments ending (some failure)
    rw [hrun] at hone ⊢
    exact Script.handed_of_play _ (Outbox.idle_start _) hone
  · intro other hother
    exact loop_congr config fun i hi => by simpa using hother i hi

end Connection

end Turnpike
