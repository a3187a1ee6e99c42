import Turnpike.Proofs.Connection.Departure
import Turnpike.Proofs.Connection.Extent
import Turnpike.Proofs.Connection.Persistence
import Turnpike.Proofs.Text.Listing

/-!
Requests that ask for the connection to be closed.  A close token is obeyed wherever it stands, but
for a request of HTTP/1.0 that has a keep-alive token as well.
-/

namespace Turnpike

namespace RequestHead

theorem keepAlive_http11 {head : RequestHead} (h : head.version = .http11) :
    head.keepAlive = true ↔ ¬ head.fields.ListsConnection closeToken := by
  rw [← Fields.hasConnectionToken_close]
  simp only [keepAlive, h, Bool.not_eq_true', Bool.not_eq_true]

theorem keepAlive_http10 {head : RequestHead} (h : head.version = .http10) :
    head.keepAlive = true ↔ head.fields.ListsConnection keepAliveToken := by
  rw [← Fields.hasConnectionToken_keepAlive]
  simp only [keepAlive, h]

/-- It asks for two things at once, and the connection is kept. -/
def AsksForBoth (head : RequestHead) : Prop :=
  head.version = .http10 ∧ head.fields.ListsConnection closeToken ∧
    head.fields.ListsConnection keepAliveToken

theorem keepAlive_of_close {head : RequestHead} (h : head.fields.ListsConnection closeToken) :
    head.keepAlive = false ↔ ¬ head.AsksForBoth := by
  rw [← Bool.not_eq_true, not_iff_not]
  cases hversion : head.version with
  | http10 =>
      rw [keepAlive_http10 hversion]
      exact ⟨fun hkeep => ⟨hversion, h, hkeep⟩, fun hboth => hboth.2.2⟩
  | http11 =>
      rw [keepAlive_http11 hversion]
      refine iff_of_false (fun hnot => hnot h) ?_
      rintro ⟨hother, -⟩
      rw [hversion] at hother
      contradiction
  | _ =>
      refine iff_of_false (by simp [keepAlive, hversion]) ?_
      rintro ⟨hother, -⟩
      rw [hversion] at hother
      contradiction

end RequestHead

/-- The head that is written says that the connection is closed. -/
def Response.SaysClose (response : Response) : Prop :=
  (response.head.fields.framed (.ofHint response.body.hint)).ListsConnection closeToken

theorem Response.saysClose_marked (response : Response) (version : Version) :
    (response.marked .close version).SaysClose := by
  rw [SaysClose, ← Fields.hasConnectionToken_close, Fields.hasConnectionToken_framed]
  exact (Fields.hasConnectionToken_marked _ _ _).mpr (.inl rfl)

namespace Connection

namespace Turn

theorem saysClose_of_final? {turn : Turn β} (hcloses : turn.next = .close) {response : Response}
    (hfinal : turn.final? = some response) : response.SaysClose := by
  obtain ⟨plain, -, rfl⟩ := Option.map_eq_some_iff.mp hfinal
  rw [hcloses]
  exact plain.saysClose_marked turn.head.version

/-- The connection goes on behind a request that persists and is received to its end. -/
theorem next_eq_keepAlive_iff (turn : Turn β) :
    turn.next = .keepAlive ↔
      turn.keepAlive = true ∧ ∃ handled left, turn.course = .handled handled (.ok ()) left := by
  constructor
  · intro hnext
    obtain ⟨handled, left, hcourse, hkeep, -⟩ := dispatched_of_keepAlive hnext
    exact ⟨hkeep, handled, left, hcourse⟩
  · rintro ⟨hkeep, handled, left, hcourse⟩
    simp only [next, hcourse, hkeep, if_true]

/-- The request is not to persist, its response says so as far as there is one, and nothing is handed
out or written behind it. -/
structure IsObeyed (turn : Turn β) (before after : List (Turn β)) (run : ConnectionRun β) :
    Prop where
  keepAlive : turn.head.keepAlive = false
  answer : ∀ response, turn.final? = some response → response.SaysClose
  last : after = []
  dispatched : run.dispatched <+: (before ++ [turn]).flatMap Turn.dispatched
  written : run.written <+: (before ++ [turn]).flatMap Turn.block

end Turn

theorem arises_of_turns {config : ConnectionConfig} {handler : Handler β} {segments : List Bytes}
    {ending : Ending} {before after : List (Turn β)} {turn : Turn β}
    (hturns : (Script.ofInput config handler segments ending).turns = before ++ turn :: after) :
    ∃ feed, turn.Arises config handler before.length feed := by
  have harises := Script.arises_ofInput config handler segments ending
  obtain ⟨feed, -, hturn⟩ := harises.turns before.length turn (by simp [hturns])
  rw [Nat.zero_add] at hturn
  exact ⟨feed, hturn⟩

/-- A request with a close token is the last, and answered as such, unless it is of HTTP/1.0 and has
a keep-alive token as well.  Without a close token a request persists by its version, and the
connection goes on behind it as soon as its body is received. -/
theorem serve_asked_to_close (config : ConnectionConfig) (handler : Handler β)
    (segments : List Bytes) (ending : Ending) (failure : Option WriteFailure)
    {before after : List (Turn β)} {turn : Turn β}
    (hturns : (Script.ofInput config handler segments ending).turns = before ++ turn :: after) :
    let run := serve config handler segments ending failure
    (turn.head.fields.ListsConnection closeToken →
      (turn.IsObeyed before after run ↔ ¬ turn.head.AsksForBoth)) ∧
    (¬ turn.head.fields.ListsConnection closeToken →
      (turn.head.version = .http11 → turn.head.keepAlive = true) ∧
      (turn.head.version = .http10 →
        (turn.head.keepAlive = true ↔ turn.head.fields.ListsConnection keepAliveToken))) ∧
    (turn.next = .keepAlive ↔ config.keepAlive = true ∧ turn.head.keepAlive = true ∧
      ∃ handled left, turn.course = .handled handled (.ok ()) left) := by
  intro run
  obtain ⟨feed, harises⟩ := arises_of_turns hturns
  have hnext : turn.next = .keepAlive ↔ config.keepAlive = true ∧ turn.head.keepAlive = true ∧
      ∃ handled left, turn.course = .handled handled (.ok ()) left := by
    rw [turn.next_eq_keepAlive_iff, harises.keepAlive_eq, Bool.and_eq_true, and_assoc]
  refine ⟨?_, ?_, hnext⟩
  · intro hclose
    rw [← RequestHead.keepAlive_of_close hclose]
    constructor
    · exact Turn.IsObeyed.keepAlive
    · intro hkeep
      have hcloses : turn.next = .close := by
        cases hcase : turn.next with
        | close => rfl
        | keepAlive =>
            rw [(hnext.mp hcase).2.1] at hkeep
            contradiction
      obtain ⟨hlast, hdispatched, hwritten⟩ := Script.within_play_of_closes _
        (Outbox.idle_start failure) hturns hcloses
      rw [← Script.serve_eq_play] at hdispatched hwritten
      exact ⟨hkeep, fun response => Turn.saysClose_of_final? hcloses, hlast, hdispatched, hwritten⟩
  · intro hclose
    exact ⟨fun hversion => (RequestHead.keepAlive_http11 hversion).mpr hclose,
      RequestHead.keepAlive_http10⟩

/-- The second of three requests has its close token in the second of its fields. -/
theorem serve_asked_to_close_second_of_three :
    let handler : Handler Unit := fun _ _ => .done ⟨(), .ok (.ofStatus .ok .empty)⟩
    let segments := [Bytes.ofText "GET /a HTTP/1.1\r\n\r\nGET /b HTTP/1.1\r\nConnection: upgrade\r\n",
      Bytes.ofText "Connection: te ,\tCLOSE\r\n\r\nGET /c HTTP/1.1\r\n\r\n"]
    let run := serve .standard handler segments .eof none
    ∃ first second : Turn Unit,
      (Script.ofInput .standard handler segments .eof).turns = [first] ++ second :: [] ∧
      second.head.fields.ListsConnection closeToken ∧ ¬ second.head.AsksForBoth ∧
      second.IsObeyed [first] [] run ∧ run.dispatched.length = 2 := by
  intro handler segments run
  have hheads : (Script.ofInput .standard handler segments .eof).turns.map (fun turn =>
      (turn.head.version, turn.head.fields.hasConnectionToken closeToken)) =
        [(.http11, false), (.http11, true)] := by decide +kernel
  have hlength := congrArg List.length hheads
  rw [List.length_map] at hlength
  have hdispatched : run.dispatched.length = 2 := by decide +kernel
  have hserve : ∀ {before after turn},
      (Script.ofInput .standard handler segments .eof).turns = before ++ turn :: after →
      turn.head.fields.ListsConnection closeToken →
      (turn.IsObeyed before after run ↔ ¬ turn.head.AsksForBoth) := fun hturns =>
    (serve_asked_to_close .standard handler segments .eof none hturns).1
  clear_value run
  generalize (Script.ofInput .standard handler segments .eof).turns = turns at *
  obtain ⟨first, second, rfl⟩ := List.length_eq_two.mp hlength
  simp only [List.map_cons, List.map_nil, List.cons.injEq, Prod.mk.injEq, and_true] at hheads
  obtain ⟨-, hversion, hlisted⟩ := hheads
  have hclose := Fields.hasConnectionToken_close.mp hlisted
  have hboth : ¬ second.head.AsksForBoth := by
    rintro ⟨hother, -⟩
    rw [hversion] at hother
    contradiction
  have hsplit : [first, second] = [first] ++ second :: [] := rfl
  exact ⟨first, second, hsplit, hclose, hboth, (hserve hsplit hclose).mpr hboth, hdispatched⟩

/-- Both tokens in a request of HTTP/1.0: it persists, and the next request is handed out. -/
theorem serve_asked_for_both :
    let handler : Handler Unit := fun _ _ => .done ⟨(), .ok (.ofStatus .ok .empty)⟩
    let segments := [Bytes.ofText
      "GET /a HTTP/1.0\r\nConnection: close, keep-alive\r\n\r\nGET /b HTTP/1.0\r\n\r\n"]
    let run := serve .standard handler segments .eof none
    ∃ first second : Dispatched Unit, run.dispatched = [first, second] ∧
      first.head.fields.ListsConnection closeToken ∧ first.head.keepAlive = true ∧
      run.written = Bytes.ofText ("HTTP/1.1 200 OK\r\nconnection: keep-alive\r\ncontent-length: 0\r\n\r\n" ++
        "HTTP/1.1 200 OK\r\nconnection: close\r\ncontent-length: 0\r\n\r\n") := by
  intro handler segments run
  have hheads : run.dispatched.map (fun one =>
      (one.head.fields.hasConnectionToken closeToken, one.head.keepAlive)) =
        [(true, true), (false, false)] := by decide +kernel
  have hlength := congrArg List.length hheads
  rw [List.length_map] at hlength
  have hwritten : run.written = Bytes.ofText
      ("HTTP/1.1 200 OK\r\nconnection: keep-alive\r\ncontent-length: 0\r\n\r\n" ++
        "HTTP/1.1 200 OK\r\nconnection: close\r\ncontent-length: 0\r\n\r\n") := by decide +kernel
  clear_value run
  obtain ⟨first, second, hrun⟩ := List.length_eq_two.mp hlength
  rw [hrun] at hheads
  simp only [List.map_cons, List.map_nil, List.cons.injEq, Prod.mk.injEq] at hheads
  obtain ⟨⟨hlisted, hkeep⟩, -⟩ := hheads
  exact ⟨first, second, hrun, Fields.hasConnectionToken_close.mp hlisted, hkeep, hwritten⟩

end Connection

end Turnpike
