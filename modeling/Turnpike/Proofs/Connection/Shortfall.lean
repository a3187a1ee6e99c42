import Turnpike.Proofs.Client.Unfinished
import Turnpike.Proofs.Connection.Script

/-!
A response whose body falls short is the last that a connection writes.  It ends with the failure,
hands out no more requests, and the peer is never left with what looks like a whole response.
-/

namespace Turnpike

namespace Connection

/-- Where a run breaks off: in the middle of a response, or before any of it. -/
inductive EndsWithin (earlier here : List (Dispatched β)) (before : Bytes) (run : ConnectionRun β) :
    Prop where
  | begun {part : Bytes} (dispatched : run.dispatched = earlier ++ here)
      (written : run.written = before ++ part) (unfinished : Received.Unfinished part) :
      EndsWithin earlier here before run
  | missed (dispatched : run.dispatched <+: earlier) (written : run.written <+: before) :
      EndsWithin earlier here before run

theorem EndsWithin.prepend {earlier here : List (Dispatched β)} {before : Bytes}
    {run : ConnectionRun β} (h : EndsWithin earlier here before run) (first : List (Dispatched β)) :
    EndsWithin (first ++ earlier) here before { run with dispatched := first ++ run.dispatched } := by
  cases h with
  | begun dispatched written unfinished =>
      refine .begun ?_ written unfinished
      rw [dispatched, List.append_assoc]
  | missed dispatched written =>
      exact .missed ((List.prefix_append_right_inj first).mpr dispatched) written

namespace Turn

variable {turn : Turn β} {outbox : Outbox}

theorem play_unfinished (hidle : outbox.Idle) {response : Response}
    (hfinal : turn.final? = some response) (hmethod : turn.head.method.isHead = false)
    (hhead : response.head.BearsBody) (hshort : response.body.hint.FallsShort response.body.frames)
    (next : Outbox → ConnectionRun β) :
    (∃ fault, (goOn next (turn.play outbox)).outcome = .failed (.response fault)) ∧
      EndsWithin [] turn.dispatched (outbox.sink.written ++ turn.interim)
        (goOn next (turn.play outbox)) := by
  rcases turn.play_cases outbox with ⟨fault, after, hinvite, hplay⟩ | ⟨invited, hinvite, hplay⟩
  · have hwritten := turn.written_invite outbox
    rw [hinvite] at hwritten
    rw [hplay]
    exact ⟨⟨fault, rfl⟩, .missed List.prefix_rfl hwritten⟩
  · obtain ⟨hinvited, -, hwritten⟩ := invite_eq_ok hidle hinvite
    obtain ⟨fault, after, part, hsent, hpart, hunfinished⟩ :=
      Outbox.sendParts_unfinished hinvited hhead hshort
    have hbroken : invited.sendResponse response turn.head.method.isHead = (.error fault, after) := by
      rw [hmethod]
      exact hsent
    have hrun : turn.play outbox =
        .failed (.response fault) turn.dispatched turn.feed after := by
      simp only [play, hinvite, respond, hfinal, hbroken, answered]
    rw [hrun]
    refine ⟨⟨fault, rfl⟩, .begun rfl ?_ hunfinished⟩
    rw [← hwritten]
    exact hpart

end Turn

theorem Script.play_unfinished {script : Script β} {i : Nat} {turn : Turn β}
    (hturn : script.turns[i]? = some turn) {response : Response}
    (hfinal : turn.final? = some response) (hmethod : turn.head.method.isHead = false)
    (hhead : response.head.BearsBody) (hshort : response.body.hint.FallsShort response.body.frames)
    {outbox : Outbox} (hidle : outbox.Idle) :
    (∃ fault, (script.play outbox).outcome = .failed (.response fault)) ∧
      EndsWithin ((script.turns.take i).flatMap Turn.dispatched) turn.dispatched
        (outbox.sink.written ++ (script.turns.take i).flatMap Turn.block ++ turn.interim)
        (script.play outbox) := by
  induction script generalizing outbox i with
  | stopped outcome feed => simp [turns] at hturn
  | rejected status fault feed => simp [turns] at hturn
  | last found closes =>
      obtain ⟨rfl, rfl⟩ : i = 0 ∧ found = turn := by
        simpa [turns, List.getElem?_singleton] using hturn
      simpa only [turns, List.take_zero, List.flatMap_nil, List.append_nil, play] using
        Turn.play_unfinished hidle hfinal hmethod hhead hshort _
  | kept found keeps later ih =>
      cases i with
      | zero =>
          obtain rfl := Option.some.inj hturn
          simpa only [turns, List.take_zero, List.flatMap_nil, List.append_nil, play] using
            Turn.play_unfinished hidle hfinal hmethod hhead hshort _
      | succ i =>
          simp only [turns, List.take_succ_cons, List.flatMap_cons, play]
          have hbefore : outbox.sink.written ++ found.block <+:
              outbox.sink.written ++ (found.block ++ (later.turns.take i).flatMap Turn.block) ++
                turn.interim := by
            rw [← List.append_assoc, List.append_assoc]
            exact List.prefix_append ..
          cases found.unfolds_play hidle later.play with
          | uninvited dispatched outcome written =>
              refine ⟨outcome, .missed (dispatched ▸ List.nil_prefix) (written.trans ?_)⟩
              exact ((List.prefix_append_right_inj _).mpr (List.prefix_append ..)).trans hbefore
          | unanswered final _ _ => exact absurd final (Turn.final?_ne_none keeps)
          | brokenOff dispatched outcome _ written =>
              exact ⟨outcome, .missed (dispatched ▸ List.prefix_append ..) (written.trans hbefore)⟩
          | answered idle written goes =>
              obtain ⟨houtcome, hends⟩ := ih hturn idle
              rw [written, List.append_assoc outbox.sink.written] at hends
              rw [goes]
              exact ⟨houtcome, hends.prepend found.dispatched⟩

/-- A response to a request other than `HEAD` whose body fails, or ends, before it has come to what
its hint announces: the connection ends with a fault of the response and hands out no request behind
it, and no front of what is written of the response reads as one. -/
theorem serve_falls_short (config : ConnectionConfig) (handler : Handler β) (segments : List Bytes)
    (ending : Ending) (failure : Option WriteFailure) {i : Nat} {turn : Turn β}
    (hturn : (Script.ofInput config handler segments ending).turns[i]? = some turn)
    {response : Response} (hfinal : turn.final? = some response)
    (hmethod : turn.head.method.isHead = false) (hhead : response.head.BearsBody)
    (hshort : response.body.hint.FallsShort response.body.frames) :
    let run := serve config handler segments ending failure
    let earlier := (Script.ofInput config handler segments ending).turns.take i
    (∃ fault, run.outcome = .failed (.response fault)) ∧
      EndsWithin (earlier.flatMap Turn.dispatched) turn.dispatched
        (earlier.flatMap Turn.block ++ turn.interim) run := by
  intro run earlier
  have hrun : run = (Script.ofInput config handler segments ending).play (.start failure) :=
    Script.serve_eq_play config handler segments ending failure
  rw [hrun]
  exact Script.play_unfinished hturn hfinal hmethod hhead hshort (Outbox.idle_start failure)

/-- Data that looks like the end of a chunked body, and then a fault; the third request is never
handed out. -/
theorem serve_falls_short_second_of_three :
    let frames : List (Except HttpFault Frame) := [.ok (.data (Bytes.ofText "0\r\n\r\n")),
      .error (.request (.invalidBody "gone")), .ok (.data (Bytes.ofText "x"))]
    let handler : Handler Unit := fun count _ =>
      .done ⟨(), .ok (.ofStatus .ok (if count = 0 then .empty else .stream frames))⟩
    let segments := [Bytes.ofText "GET /a HTTP/1.1\r\n\r\nGET /b HTTP/1.1\r\n\r\n",
      Bytes.ofText "GET /c HTTP/1.1\r\n\r\n"]
    let run := serve .standard handler segments .eof none
    let turns := (Script.ofInput .standard handler segments .eof).turns
    ∃ turn response, turns[1]? = some turn ∧ turn.final? = some response ∧
      turn.head.method.isHead = false ∧ response.head.BearsBody ∧
      response.body.hint.FallsShort response.body.frames ∧
      (∃ fault, run.outcome = .failed (.response fault)) ∧
      EndsWithin ((turns.take 1).flatMap Turn.dispatched) turn.dispatched
        ((turns.take 1).flatMap Turn.block ++ turn.interim) run ∧
      turns.length = 3 ∧ run.dispatched.length = 2 := by
  intro frames handler segments run turns
  have hsome : (turns[1]?.bind Turn.final?).isSome = true := by decide +kernel
  obtain ⟨response, hresponse⟩ := Option.isSome_iff_exists.mp hsome
  obtain ⟨turn, hturn, hfinal⟩ := Option.bind_eq_some_iff.mp hresponse
  have hmethod : turns[1]?.map (·.head.method.isHead) = some false := by decide +kernel
  have hhead : (turns[1]?.bind Turn.final?).map Response.head = some ⟨.ok, .http11, .empty⟩ := by
    decide +kernel
  have hframes : (turns[1]?.bind Turn.final?).map (·.body.frames) = some frames := by decide +kernel
  have hhint : (turns[1]?.bind Turn.final?).map (·.body.hint) = some .unknown := by decide +kernel
  have hcounts : turns.length = 3 ∧ run.dispatched.length = 2 := by decide +kernel
  rw [hturn, Option.map_some, Option.some.injEq] at hmethod
  rw [hresponse, Option.map_some, Option.some.injEq] at hhead hframes hhint
  have hbears : response.head.BearsBody := by
    rw [hhead]
    exact ⟨by decide, by decide, by decide, Fields.wellFormed_empty, by simp [Fields.empty],
      by simp [Fields.empty]⟩
  have hshort : response.body.hint.FallsShort response.body.frames := by
    have hlacks : SizeHint.Lacks .unknown ([.ok (.data (Bytes.ofText "0\r\n\r\n"))] ++
        .error (.request (.invalidBody "gone")) :: [.ok (.data (Bytes.ofText "x"))]) := .fails (by rintro _ ⟨⟩)
    rw [hhint, hframes]
    exact ⟨hlacks, by decide, by rintro _ ⟨⟩⟩
  obtain ⟨houtcome, hends⟩ :=
    serve_falls_short .standard handler segments .eof none hturn hfinal hmethod hbears hshort
  exact ⟨turn, response, hturn, hfinal, hmethod, hbears, hshort, houtcome, hends, hcounts⟩

end Connection

end Turnpike
