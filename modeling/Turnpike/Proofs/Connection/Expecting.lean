import Turnpike.Proofs.Connection.Closing
import Turnpike.Proofs.Connection.Cutoff

/-!
Requests that expect something.  Only the first `Expect` field is looked at, so that an expectation
nobody meets is refused unless it stands behind one that is met.
-/

namespace Turnpike

def Bytes.isContinue (value : Bytes) : Bool :=
  value.equalsIgnoringCase (Bytes.ofText "100-continue")

namespace RequestHead

/-- One of its expectations cannot be met. -/
def ExpectsOther (head : RequestHead) : Prop :=
  ∃ value ∈ head.fields.all FieldName.expect, value.isContinue = false

/-- The first of its expectations can be met, but not each of them. -/
def IsPassed (head : RequestHead) : Prop :=
  head.ExpectsOther ∧ ∃ first later, head.fields.all FieldName.expect = first :: later ∧
    first.isContinue = true

/-- What is made of the expectations, by the first of them. -/
theorem expectation_cases (head : RequestHead) :
    (head.fields.all FieldName.expect = [] ∧ head.expectation = .nothing) ∨
    ∃ first later, head.fields.all FieldName.expect = first :: later ∧
      ((first.isContinue = true ∧ head.expectation = .continuation) ∨
        first.isContinue = false ∧ head.expectation = .unsupported first) := by
  unfold expectation Expectation.ofFields Fields.get?
  cases hvalues : head.fields.all FieldName.expect with
  | nil => exact .inl ⟨rfl, rfl⟩
  | cons first later =>
      refine .inr ⟨first, later, rfl, ?_⟩
      simp only [List.head?_cons]
      split
      · next hword => exact .inl ⟨hword, rfl⟩
      · next hother => exact .inr ⟨Bool.eq_false_iff.mpr hother, rfl⟩

theorem expectation_unsupported_iff (head : RequestHead) :
    (∃ value, head.expectation = .unsupported value) ↔ head.ExpectsOther ∧ ¬ head.IsPassed := by
  rcases head.expectation_cases with
    ⟨hnone, hexpects⟩ | ⟨first, later, hvalues, ⟨hword, hexpects⟩ | ⟨hother, hexpects⟩⟩
  · rw [hexpects]
    refine iff_of_false (by simp) ?_
    rintro ⟨⟨value, hmem, -⟩, -⟩
    rw [hnone] at hmem
    contradiction
  · rw [hexpects]
    refine iff_of_false (by simp) ?_
    rintro ⟨hexpects, hpassed⟩
    exact hpassed ⟨hexpects, first, later, hvalues, hword⟩
  · refine iff_of_true ⟨first, hexpects⟩ ⟨⟨first, by simp [hvalues], hother⟩, ?_⟩
    rintro ⟨-, front, rest, hsame, hword⟩
    obtain ⟨rfl, -⟩ := List.cons.inj (hvalues.symm.trans hsame)
    rw [hother] at hword
    contradiction

theorem expectation_continuation_iff {head : RequestHead} (h : ¬ head.ExpectsOther) :
    head.expectation = .continuation ↔ head.fields.all FieldName.expect ≠ [] := by
  rcases head.expectation_cases with
    ⟨hnone, hexpects⟩ | ⟨first, later, hvalues, ⟨hword, hexpects⟩ | ⟨hother, -⟩⟩
  · simp [hnone, hexpects]
  · simp [hvalues, hexpects]
  · exact absurd ⟨first, by simp [hvalues], hother⟩ h

end RequestHead

namespace Connection

namespace Turn

/-- The request is answered in the handler's place, its body is left where it is, and nothing is
handed out or written behind it. -/
structure IsRefused (turn : Turn β) (before after : List (Turn β)) (run : ConnectionRun β) :
    Prop where
  unhanded : turn.dispatched = []
  uninvited : turn.interim = []
  answer : ∃ response, turn.final? = some response ∧ response.head.status = .expectationFailed ∧
    response.SaysClose
  unread : turn.feed = turn.arrived
  last : after = []
  dispatched : run.dispatched <+: before.flatMap Turn.dispatched
  written : run.written <+: (before ++ [turn]).flatMap Turn.block

variable {config : ConnectionConfig} {handler : Handler β} {count : Nat} {feed : Feed}
  {turn : Turn β}

theorem Arises.refused_of_unsupported (h : turn.Arises config handler count feed) {value : Bytes}
    (hunmet : turn.head.expectation = .unsupported value) :
    turn.course = .refused value ∧ turn.feed = turn.arrived := by
  have htaken := h.taken
  unfold take at htaken
  rw [hunmet] at htaken
  exact ⟨congrArg Turn.course htaken, congrArg Turn.feed htaken⟩

theorem isEncodable_of_refused {turn : Turn β} {value : Bytes} (hcourse : turn.course = .refused value)
    {response : Response} (hfinal : turn.final? = some response) :
    response.IsEncodable turn.head.method.isHead := by
  simp only [final?, plain?, hcourse, Option.map_some, Option.some.injEq] at hfinal
  obtain rfl := hfinal
  exact (Response.isEncodable_ofBytes rfl rfl _).marked _ _

theorem Arises.dispatched_ne_nil (h : turn.Arises config handler count feed)
    (hmet : ∀ value, turn.head.expectation ≠ .unsupported value) : turn.dispatched ≠ [] := by
  unfold dispatched
  split
  · next value hcourse =>
    rcases h.course_cases with ⟨other, hunmet, -⟩ | ⟨-, hfollow, -⟩
    · exact absurd hunmet (hmet other)
    · exact absurd (hfollow.symm.trans hcourse) (follow_ne_refused _ _ _ value)
  · simp
  · simp

theorem isAwaited_iff {turn : Turn β} (h : ¬ turn.head.ExpectsOther) :
    turn.isAwaited = true ↔
      turn.head.fields.all FieldName.expect ≠ [] ∧ turn.size.isEmpty = false := by
  rw [← RequestHead.expectation_continuation_iff h, isAwaited, Bool.and_eq_true, beq_iff_eq,
    Bool.not_eq_true']

theorem interim_eq_continueLine_iff {turn : Turn β} :
    turn.interim = Outbox.continueLine ↔ turn.isAwaited = true := by
  unfold interim
  split
  · next hawaited => exact iff_of_true rfl hawaited
  · next hawaited => exact iff_of_false (by decide) hawaited

end Turn

namespace Script

/-- A script whose last turn is answered, played to a peer that accepts everything, ends there. -/
theorem closed_play (script : Script β) {outbox : Outbox} (hready : outbox.Ready)
    (hidle : outbox.Idle) {before : List (Turn β)} {turn : Turn β}
    (hturns : script.turns = before ++ [turn]) (hcloses : turn.next = .close)
    (hanswered : turn.final? ≠ none)
    (hencodable : ∀ other ∈ script.turns, ∀ response, other.final? = some response →
      response.IsEncodable other.head.method.isHead) :
    let run := script.play outbox
    run.outcome = .closed ∧ run.feed = turn.feed ∧ run.outbox.sink.isShutdown = true ∧
      run.written = outbox.sink.written ++ script.turns.flatMap Turn.block := by
  induction script generalizing outbox before with
  | stopped outcome feed => simp [turns] at hturns
  | rejected status fault feed => simp [turns] at hturns
  | last other closes =>
      obtain rfl : other = turn := by
        rcases List.singleton_eq_append_iff.mp hturns with ⟨-, hsame⟩ | ⟨-, hnil⟩
        · exact (List.cons.inj hsame).1.symm
        · contradiction
      obtain ⟨after, hwritten, hplay⟩ := other.play_writes hready hidle
        (hencodable other List.mem_cons_self)
      obtain ⟨-, -, -, hplay⟩ := hplay.resolve_left fun hnone => hanswered hnone.1
      rw [turns, List.flatMap_singleton, ← hwritten]
      simp only [play, hplay, goOn]
      exact ⟨trivial, trivial, rfl, rfl⟩
  | kept other keeps later ih =>
      cases before with
      | nil =>
          obtain ⟨rfl, -⟩ := List.cons.inj hturns
          rw [keeps] at hcloses
          contradiction
      | cons first before =>
          obtain ⟨-, hlater⟩ := List.cons.inj hturns
          obtain ⟨after, hwritten, hplay⟩ := other.play_writes hready hidle
            (hencodable other List.mem_cons_self)
          have hkept := Turn.final?_ne_none keeps
          obtain ⟨-, hafter, hstill, hplay⟩ := hplay.resolve_left fun hnone => hkept hnone.1
          rw [turns, List.flatMap_cons, ← List.append_assoc, ← hwritten]
          simp only [play, hplay, goOn]
          exact ih hafter hstill hlater fun one hone => hencodable one (List.mem_cons_of_mem _ hone)

/-- As many requests are handed out as there are turns, where each but the last keeps the connection. -/
theorem length_dispatched_before (script : Script β) {before after : List (Turn β)} {turn : Turn β}
    (hturns : script.turns = before ++ turn :: after) :
    (before.flatMap Turn.dispatched).length = before.length := by
  induction script generalizing before with
  | stopped outcome feed => simp [turns] at hturns
  | rejected status fault feed => simp [turns] at hturns
  | last other closes =>
      rcases List.singleton_eq_append_iff.mp hturns with ⟨rfl, -⟩ | ⟨-, hnil⟩
      · rfl
      · contradiction
  | kept other keeps later ih =>
      cases before with
      | nil => rfl
      | cons first before =>
          obtain ⟨rfl, hlater⟩ := List.cons.inj hturns
          obtain ⟨_, _, -, -, hdispatched⟩ := Turn.dispatched_of_keepAlive keeps
          rw [List.flatMap_cons, List.length_append, ih hlater, hdispatched, List.length_singleton,
            List.length_cons, Nat.add_comm]

end Script

/-- A handler that is not run does not matter. -/
theorem serve_congr (config : ConnectionConfig) {handler other : Handler β} (segments : List Bytes)
    (ending : Ending) (failure : Option WriteFailure)
    (h : ∀ i < (serve config handler segments ending failure).dispatched.length,
      other i = handler i) :
    serve config other segments ending failure = serve config handler segments ending failure :=
  loop_congr config fun i hi => by simpa using h i hi

section Refused

variable {config : ConnectionConfig} {handler : Handler β} {segments : List Bytes} {ending : Ending}
  {failure : Option WriteFailure} {before after : List (Turn β)} {turn : Turn β}

theorem isRefused_of_unsupported
    (hturns : (Script.ofInput config handler segments ending).turns = before ++ turn :: after)
    {value : Bytes} (hunmet : turn.head.expectation = .unsupported value) :
    turn.IsRefused before after (serve config handler segments ending failure) := by
  obtain ⟨feed, harises⟩ := arises_of_turns hturns
  obtain ⟨hcourse, hunread⟩ := harises.refused_of_unsupported hunmet
  have hunhanded : turn.dispatched = [] := by simp only [Turn.dispatched, hcourse]
  have hcloses : turn.next = .close := by simp only [Turn.next, hcourse]
  have huninvited : turn.interim = [] := by simp [Turn.interim, Turn.isAwaited, hunmet]
  have hfinal : turn.final? =
      some ((Response.unknownExpectation value).marked turn.next turn.head.version) := by
    simp only [Turn.final?, Turn.plain?, hcourse, Option.map_some]
  obtain ⟨hlast, hdispatched, hwritten⟩ := Script.within_play_of_closes _
    (Outbox.idle_start failure) hturns hcloses
  rw [← Script.serve_eq_play] at hdispatched hwritten
  rw [List.flatMap_append, List.flatMap_singleton, hunhanded, List.append_nil] at hdispatched
  exact ⟨hunhanded, huninvited, ⟨_, hfinal, rfl, Turn.saysClose_of_final? hcloses hfinal⟩,
    hunread, hlast, hdispatched, hwritten⟩

/-- What the handler would make of a refused request does not matter. -/
theorem serve_congr_of_refused
    (hturns : (Script.ofInput config handler segments ending).turns = before ++ turn :: after)
    (hrefused : turn.IsRefused before after (serve config handler segments ending failure))
    {other : Handler β} (h : ∀ i < before.length, other i = handler i) :
    serve config other segments ending failure = serve config handler segments ending failure := by
  refine serve_congr config segments ending failure ?_
  intro i hi
  apply h
  have hlength := hrefused.dispatched.length_le
  rw [Script.length_dispatched_before _ hturns] at hlength
  exact Nat.lt_of_lt_of_le hi hlength

/-- To a peer that accepts everything a refusal is written whole, and the connection ends. -/
theorem closed_of_unsupported
    (hturns : (Script.ofInput config handler segments ending).turns = before ++ turn :: [])
    {value : Bytes} (hunmet : turn.head.expectation = .unsupported value)
    (hearlier : ∀ earlier ∈ before, ∀ response, earlier.final? = some response →
      response.IsEncodable earlier.head.method.isHead) :
    let run := serve config handler segments ending none
    run.outcome = .closed ∧ run.feed = turn.arrived ∧ run.outbox.sink.isShutdown = true ∧
      run.written = (before ++ [turn]).flatMap Turn.block := by
  intro run
  obtain ⟨feed, harises⟩ := arises_of_turns hturns
  obtain ⟨hcourse, hunread⟩ := harises.refused_of_unsupported hunmet
  have hcloses : turn.next = .close := by simp only [Turn.next, hcourse]
  have hanswered : turn.final? ≠ none := by simp [Turn.final?, Turn.plain?, hcourse]
  have hencodable : ∀ other ∈ (Script.ofInput config handler segments ending).turns,
      ∀ response, other.final? = some response →
        response.IsEncodable other.head.method.isHead := by
    intro other hother response hfinal
    rw [hturns] at hother
    rcases List.mem_append.mp hother with hbefore | hlast
    · exact hearlier other hbefore response hfinal
    · obtain rfl := List.mem_singleton.mp hlast
      exact Turn.isEncodable_of_refused hcourse hfinal
  obtain ⟨houtcome, hfeed, hshutdown, hwritten⟩ := Script.closed_play _ Outbox.ready_start
    (Outbox.idle_start none) hturns hcloses hanswered hencodable
  rw [← Script.serve_eq_play] at houtcome hfeed hshutdown hwritten
  rw [hturns] at hwritten
  exact ⟨houtcome, hfeed.trans hunread, hshutdown, hwritten⟩

/-- What stands in front of a request, its interim response included, is written when it is handed
out. -/
theorem interim_of_dispatched
    (hturns : (Script.ofInput config handler segments ending).turns = before ++ turn :: after)
    {one : Dispatched β}
    (hone : (serve config handler segments ending failure).dispatched[before.length]? = some one) :
    turn.dispatched = [one] ∧ before.flatMap Turn.block ++ turn.interim <+:
      (serve config handler segments ending failure).written := by
  rw [Script.serve_eq_play] at hone ⊢
  obtain ⟨other, hother, hdispatched, hwritten⟩ := Script.handed_of_play _
    (Outbox.idle_start failure) hone
  rw [hturns, List.getElem?_append_right (Nat.le_refl _), Nat.sub_self] at hother
  obtain rfl : turn = other := Option.some.inj hother
  rw [hturns, List.take_left] at hwritten
  exact ⟨hdispatched, hwritten⟩

end Refused

/-- A request that expects something else is refused, its body unread, and is the last, unless its
first expectation can be met.  One whose expectations can all be met is asked for its body exactly if
there is one, and is handed out only when that has been written. -/
theorem serve_expecting (config : ConnectionConfig) (handler : Handler β) (segments : List Bytes)
    (ending : Ending) (failure : Option WriteFailure) {before after : List (Turn β)} {turn : Turn β}
    (hturns : (Script.ofInput config handler segments ending).turns = before ++ turn :: after) :
    let run := serve config handler segments ending failure
    (turn.head.ExpectsOther →
      (turn.IsRefused before after run ↔ ¬ turn.head.IsPassed) ∧
      (¬ turn.head.IsPassed →
        (∀ other : Handler β, (∀ i < before.length, other i = handler i) →
          serve config other segments ending failure = run) ∧
        (failure = none → (∀ earlier ∈ before, ∀ response, earlier.final? = some response →
            response.IsEncodable earlier.head.method.isHead) →
          run.outcome = .closed ∧ run.feed = turn.arrived ∧ run.outbox.sink.isShutdown = true ∧
            run.written = (before ++ [turn]).flatMap Turn.block))) ∧
    (¬ turn.head.ExpectsOther →
      (turn.interim = Outbox.continueLine ↔
        turn.head.fields.all FieldName.expect ≠ [] ∧ turn.size.isEmpty = false) ∧
      (∀ one, run.dispatched[before.length]? = some one → turn.dispatched = [one] ∧
        before.flatMap Turn.block ++ turn.interim <+: run.written)) := by
  intro run
  constructor
  · intro hexpects
    have hunmet : ¬ turn.head.IsPassed → ∃ value, turn.head.expectation = .unsupported value :=
      fun hpassed => turn.head.expectation_unsupported_iff.mpr ⟨hexpects, hpassed⟩
    refine ⟨⟨?_, ?_⟩, ?_⟩
    · intro hrefused hpassed
      obtain ⟨feed, harises⟩ := arises_of_turns hturns
      refine harises.dispatched_ne_nil ?_ hrefused.unhanded
      intro value hvalue
      exact (turn.head.expectation_unsupported_iff.mp ⟨value, hvalue⟩).2 hpassed
    · intro hpassed
      obtain ⟨value, hvalue⟩ := hunmet hpassed
      exact isRefused_of_unsupported hturns hvalue
    · intro hpassed
      obtain ⟨value, hvalue⟩ := hunmet hpassed
      have hrefused : turn.IsRefused before after run := isRefused_of_unsupported hturns hvalue
      refine ⟨fun other hother => serve_congr_of_refused hturns hrefused hother, ?_⟩
      rintro rfl hearlier
      obtain rfl := hrefused.last
      exact closed_of_unsupported hturns hvalue hearlier
  · intro hexpects
    rw [Turn.interim_eq_continueLine_iff, Turn.isAwaited_iff hexpects]
    exact ⟨Iff.rfl, fun one hone => interim_of_dispatched hturns hone⟩

/-- A body is asked for by the first of two requests; what the second expects is refused, and what
stands behind it is not read. -/
theorem serve_expecting_second_refused :
    let handler : Handler Unit := fun _ _ => .done ⟨(), .ok (.ofStatus .ok .empty)⟩
    let segments := [Bytes.ofText "POST /a HTTP/1.1\r\nExpect: 100-continue\r\n",
      Bytes.ofText "Expect: 100-Continue\r\nContent-Length: 2\r\n\r\nhiHEAD /b HTTP/1.1\r\n",
      Bytes.ofText "Expect: magic\r\nContent-Length: 2\r\n\r\nhiGET /c HTTP/1.1\r\n\r\n"]
    let run := serve .standard handler segments .eof none
    ∃ first second : Turn Unit,
      (Script.ofInput .standard handler segments .eof).turns = [first] ++ second :: [] ∧
      ¬ first.head.ExpectsOther ∧ first.interim = Outbox.continueLine ∧
      second.head.ExpectsOther ∧ ¬ second.head.IsPassed ∧
      second.IsRefused [first] [] run ∧ run.dispatched.length = 1 := by
  intro handler segments run
  have hheads : (Script.ofInput .standard handler segments .eof).turns.map (fun turn =>
      (turn.head.fields.all FieldName.expect, turn.size)) =
        [([Bytes.ofText "100-continue", Bytes.ofText "100-Continue"], .length 2),
          ([Bytes.ofText "magic"], .length 2)] := by decide +kernel
  have hlength := congrArg List.length hheads
  rw [List.length_map] at hlength
  have hdispatched : run.dispatched.length = 1 := by decide +kernel
  have hserve : ∀ {before after turn},
      (Script.ofInput .standard handler segments .eof).turns = before ++ turn :: after →
      (turn.head.ExpectsOther → (turn.IsRefused before after run ↔ ¬ turn.head.IsPassed)) ∧
      (¬ turn.head.ExpectsOther → (turn.interim = Outbox.continueLine ↔
        turn.head.fields.all FieldName.expect ≠ [] ∧ turn.size.isEmpty = false)) := by
    intro before after turn hturns
    have hboth := serve_expecting .standard handler segments .eof none hturns
    exact ⟨fun hexpects => (hboth.1 hexpects).1, fun hexpects => (hboth.2 hexpects).1⟩
  clear_value run
  generalize (Script.ofInput .standard handler segments .eof).turns = turns at *
  obtain ⟨first, second, rfl⟩ := List.length_eq_two.mp hlength
  simp only [List.map_cons, List.map_nil, List.cons.injEq, Prod.mk.injEq, and_true] at hheads
  obtain ⟨⟨hmet, hsize⟩, hunmet, -⟩ := hheads
  have hfirst : ¬ first.head.ExpectsOther := by
    rintro ⟨value, hmem, hother⟩
    rw [hmet] at hmem
    simp only [List.mem_cons, List.not_mem_nil, or_false] at hmem
    rcases hmem with rfl | rfl
    · exact absurd hother (by decide)
    · exact absurd hother (by decide)
  have hsecond : second.head.ExpectsOther :=
    ⟨Bytes.ofText "magic", by simp [hunmet], by decide⟩
  have hpassed : ¬ second.head.IsPassed := by
    rintro ⟨-, value, later, hvalues, hword⟩
    obtain ⟨rfl, -⟩ := List.cons.inj (hunmet.symm.trans hvalues)
    exact absurd hword (by decide)
  have hfront : [first, second] = [] ++ first :: [second] := rfl
  have hsplit : [first, second] = [first] ++ second :: [] := rfl
  refine ⟨first, second, hsplit, hfirst, ?_, hsecond, hpassed,
    ((hserve hsplit).1 hsecond).mpr hpassed, hdispatched⟩
  refine ((hserve hfront).2 hfirst).mpr ⟨by simp [hmet], ?_⟩
  rw [hsize]
  rfl

/-- What nobody meets stands behind what is met: the body is asked for and the request handed out. -/
theorem serve_expecting_passed :
    let handler : Handler Unit := fun _ _ => .done ⟨(), .ok (.ofStatus .ok .empty)⟩
    let segments := [Bytes.ofText "POST /a HTTP/1.1\r\nExpect: 100-continue\r\n",
      Bytes.ofText "Expect: magic\r\nContent-Length: 2\r\n\r\nhi"]
    let run := serve .standard handler segments .eof none
    ∃ only : Dispatched Unit, run.dispatched = [only] ∧ only.head.ExpectsOther ∧
      run.written = Outbox.continueLine ++
        Bytes.ofText "HTTP/1.1 200 OK\r\ncontent-length: 0\r\n\r\n" := by
  intro handler segments run
  have hheads : run.dispatched.map (fun one => one.head.fields.all FieldName.expect) =
      [[Bytes.ofText "100-continue", Bytes.ofText "magic"]] := by decide +kernel
  have hlength := congrArg List.length hheads
  rw [List.length_map] at hlength
  have hwritten : run.written = Outbox.continueLine ++
      Bytes.ofText "HTTP/1.1 200 OK\r\ncontent-length: 0\r\n\r\n" := by decide +kernel
  clear_value run
  obtain ⟨only, hrun⟩ := List.length_eq_one_iff.mp hlength
  rw [hrun] at hheads
  have hvalues : only.head.fields.all FieldName.expect = _ := List.head_eq_of_cons_eq hheads
  refine ⟨only, hrun, ⟨Bytes.ofText "magic", ?_, by decide⟩, hwritten⟩
  rw [hvalues]
  exact List.mem_cons_of_mem _ List.mem_cons_self

end Connection

end Turnpike
