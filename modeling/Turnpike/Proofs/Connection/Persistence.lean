import Mathlib.Data.List.Basic
import Turnpike.Proofs.Connection.Script

/-!
What a response tells the peer of the connection, and what becomes of the connection.  The two agree
but for a handler that asks for the close of a connection that is kept.
-/

namespace Turnpike

namespace Fields

theorem hasConnectionToken_congr {fields other : Fields}
    (h : ∀ value, value ∈ fields.all FieldName.connection ↔ value ∈ other.all FieldName.connection)
    (token : Bytes) : fields.hasConnectionToken token = other.hasConnectionToken token := by
  rw [Bool.eq_iff_iff]
  simp only [hasConnectionToken, connectionTokens, List.any_flatMap, List.any_eq_true, h]

theorem hasConnectionToken_insert (fields : Fields) (value token : Bytes) :
    (fields.insert FieldName.connection value).hasConnectionToken token =
      ((value.splitOn Byte.comma).map Bytes.trim).any fun item => item.equalsIgnoringCase token := by
  rw [Bool.eq_iff_iff]
  simp only [hasConnectionToken, connectionTokens, List.any_flatMap, List.any_eq_true,
    mem_all_insert, exists_eq_left]

theorem hasConnectionToken_framed (fields : Fields) (size : PayloadSize) (token : Bytes) :
    (fields.framed size).hasConnectionToken token = fields.hasConnectionToken token := by
  have hlength : FieldName.connection ≠ FieldName.contentLength := by decide
  have hcoding : FieldName.connection ≠ FieldName.transferEncoding := by decide
  refine hasConnectionToken_congr ?_ token
  intro value
  cases size with
  | length octets => exact (mem_all_insert_of_ne hlength).trans (mem_all_erase_of_ne hcoding)
  | chunked => exact (mem_all_insert_of_ne hcoding).trans (mem_all_erase_of_ne hlength)
  | empty => exact (mem_all_insert_of_ne hlength).trans (mem_all_erase_of_ne hcoding)

/-- A mark takes the place of what was said of the connection before, if there is a mark at all. -/
theorem hasConnectionToken_marked (fields : Fields) (next : Next) (version : Version) :
    (fields.marked next version).hasConnectionToken closeToken = true ↔
      next = .close ∨ version ≠ .http10 ∧ fields.hasConnectionToken closeToken = true := by
  have hclose : (fields.insert FieldName.connection closeToken).hasConnectionToken closeToken =
      true := by
    rw [hasConnectionToken_insert]
    decide
  have hkeep : (fields.insert FieldName.connection keepAliveToken).hasConnectionToken closeToken =
      false := by
    rw [hasConnectionToken_insert]
    decide
  cases next with
  | close => exact iff_of_true hclose (.inl rfl)
  | keepAlive => cases version <;> simp [marked, hkeep]

end Fields

namespace Connection

/-- A final response that was written completely, with the outbox as it was then. -/
structure Final (β : Type) where
  plain : Response
  next : Next
  version : Version
  isHead : Bool
  interim : Bytes
  dispatched : List (Dispatched β)
  feed : Feed
  outbox : Outbox

namespace Final

def response (final : Final β) : Response := final.plain.marked final.next final.version

def octets (final : Final β) : Bytes := final.interim ++ final.response.octets final.isHead

/-- Read in the head as it is written. -/
def saysClose (final : Final β) : Bool :=
  let response := final.response
  (response.head.fields.framed (.ofHint response.body.hint)).hasConnectionToken closeToken

/-- The response comes with a close token of its own, and nothing that replaces it. -/
def IsMisleading (final : Final β) : Prop :=
  final.next = .keepAlive ∧ final.version ≠ .http10 ∧
    final.plain.head.fields.hasConnectionToken closeToken = true

theorem saysClose_iff (final : Final β) :
    final.saysClose = true ↔ final.next = .close ∨
      final.version ≠ .http10 ∧ final.plain.head.fields.hasConnectionToken closeToken = true := by
  rw [saysClose, Fields.hasConnectionToken_framed]
  exact Fields.hasConnectionToken_marked _ _ _

end Final

/-- The peer's end is shut behind this response, and nothing is read, handed out or written after
it. -/
structure EndsWith (run : ConnectionRun β) (final : Final β) (dispatched : List (Dispatched β)) :
    Prop where
  isShutdown : run.outbox.sink.isShutdown = true
  written : run.written = final.outbox.sink.written
  feed : run.feed = final.feed
  dispatched : run.dispatched = dispatched

structure Final.Follows (final : Final β) (outbox : Outbox) : Prop where
  idle : final.outbox.Idle
  isShutdown : final.outbox.sink.isShutdown = outbox.sink.isShutdown
  written : final.outbox.sink.written = outbox.sink.written ++ final.octets
  nonempty : final.octets ≠ []

theorem Final.follows_of_sendResponse {final : Final β} {outbox invited : Outbox}
    (hidle : invited.Idle) (hopen : invited.sink.isShutdown = outbox.sink.isShutdown)
    (hinvited : invited.sink.written = outbox.sink.written ++ final.interim)
    (hsent : invited.sendResponse final.response final.isHead = (.ok (), final.outbox)) :
    final.Follows outbox := by
  obtain ⟨hafter, hwritten⟩ := Outbox.sendResponse_written hidle hsent
  have hgrows := Outbox.grows_of_sendResponse hidle hsent
  refine ⟨hafter, hgrows.isShutdown.trans hopen, ?_, ?_⟩
  · rw [hwritten, hinvited, List.append_assoc]
    rfl
  · intro hnil
    exact Outbox.octets_ne_nil_of_sendResponse hidle.writer hsent (List.append_eq_nil_iff.mp hnil).2

namespace Turn

/-- Its final response, if it is written completely. -/
def finalOn? (turn : Turn β) (outbox : Outbox) : Option (Final β) :=
  match turn.play outbox with
  | .answered _ _ _ after =>
    turn.plain?.map fun plain =>
      ⟨plain, turn.next, turn.head.version, turn.head.method.isHead, turn.interim, turn.dispatched,
        turn.feed, after⟩
  | .failed _ _ _ _ | .waiting _ _ _ => none

/-- Nothing is answered, and whatever would follow the turn is not reached. -/
def Ends (turn : Turn β) (outbox : Outbox) : Prop :=
  turn.finalOn? outbox = none ∧ ∃ run : ConnectionRun β, outbox.Grows run.outbox ∧
    ∀ next : Outbox → ConnectionRun β, goOn next (turn.play outbox) = run

theorem ends_of_play {turn : Turn β} {outbox after : Outbox} {dispatched : List (Dispatched β)}
    {feed : Feed} (hgrows : outbox.Grows after)
    (h : (∃ fault, turn.play outbox = .failed fault dispatched feed after) ∨
      turn.play outbox = .waiting dispatched feed after) : turn.Ends outbox := by
  have hgoOn : ∃ outcome, ∀ next : Outbox → ConnectionRun β,
      goOn next (turn.play outbox) = ⟨dispatched, outcome, after, feed⟩ := by
    rcases h with ⟨fault, h⟩ | h
    · exact ⟨.failed fault, fun next => by rw [h]; rfl⟩
    · exact ⟨.waiting, fun next => by rw [h]; rfl⟩
  obtain ⟨outcome, hgoOn⟩ := hgoOn
  refine ⟨?_, _, hgrows, hgoOn⟩
  rcases h with ⟨fault, h⟩ | h <;> simp only [finalOn?, h]

theorem finalOn?_cases (turn : Turn β) {outbox : Outbox} (h : outbox.Idle) :
    (∃ final, turn.finalOn? outbox = some final ∧ final.Follows outbox ∧ final.next = turn.next ∧
      final.feed = turn.feed ∧ ∀ next : Outbox → ConnectionRun β,
        goOn next (turn.play outbox) =
          { next final.outbox with
            dispatched := final.dispatched ++ (next final.outbox).dispatched }) ∨
    turn.Ends outbox := by
  have hgrows := turn.grows_invite outbox
  rcases turn.play_cases outbox with ⟨fault, after, hinvite, hplay⟩ | ⟨invited, hinvite, hplay⟩
  all_goals rw [hinvite] at hgrows
  · exact .inr (ends_of_play hgrows (.inl ⟨_, hplay⟩))
  · obtain ⟨hidle, hopen, hinvited⟩ := invite_eq_ok h hinvite
    rcases hplay with ⟨hfinal, hplay⟩ | ⟨response, hfinal, ⟨fault, after, hsent, hplay⟩ |
      ⟨after, hsent, hplay⟩⟩
    · obtain ⟨-, ⟨_, fault, _, -, -, hleft⟩ | ⟨-, hleft⟩⟩ := unanswered_cases hfinal
      · exact .inr (ends_of_play hgrows (.inl ⟨_, hplay.trans (hleft invited)⟩))
      · exact .inr (ends_of_play hgrows (.inr (hplay.trans (hleft invited))))
    · have hsending := Outbox.grows_of_sendResponse hidle hsent
      exact .inr (ends_of_play (hgrows.trans hsending) (.inl ⟨_, hplay⟩))
    · obtain ⟨plain, hplain, rfl⟩ := Option.map_eq_some_iff.mp hfinal
      refine .inl ⟨_, by simp only [finalOn?, hplain, hplay, Option.map_some]; rfl, ?_, rfl, rfl, ?_⟩
      · exact Final.follows_of_sendResponse hidle hopen hinvited hsent
      · intro next
        rw [hplay]
        rfl

end Turn

namespace Script

/-- All final responses that are written completely, in their order. -/
def finals : Script β → Outbox → List (Final β)
  | .stopped _ _, _ => []
  | .rejected status _ feed, outbox =>
    let response := Response.ofStatus status .empty
    match outbox.sendResponse (response.marked .close .http11) false with
    | (.ok (), after) => [⟨response, .close, .http11, false, [], [], feed, after⟩]
    | (.error _, _) => []
  | .last turn _, outbox => (turn.finalOn? outbox).toList
  | .kept turn _ later, outbox =>
    match turn.finalOn? outbox with
    | some final => final :: later.finals final.outbox
    | none => []

theorem finals_rejected (status : Status) (fault : RequestFault) (feed : Feed) (outbox : Outbox) :
    (rejected status fault feed : Script β).finals outbox =
      match outbox.sendResponse ((Response.ofStatus status .empty).marked .close .http11) false with
      | (.ok (), after) =>
        [⟨Response.ofStatus status .empty, .close, .http11, false, [], [], feed, after⟩]
      | (.error _, _) => [] := rfl

theorem finals_last (turn : Turn β) (closes : turn.next = .close) (outbox : Outbox) :
    (last turn closes).finals outbox = (turn.finalOn? outbox).toList := rfl

theorem finals_kept (turn : Turn β) (keeps : turn.next = .keepAlive) (later : Script β)
    (outbox : Outbox) :
    (kept turn keeps later).finals outbox =
      match turn.finalOn? outbox with
      | some final => final :: later.finals final.outbox
      | none => [] := rfl

/-- There is one response at most, and it closes the connection. -/
def Short (script : Script β) (outbox : Outbox) : Prop :=
  (script.finals outbox = [] ∧ outbox.Grows (script.play outbox).outbox) ∨
    ∃ final outcome, script.finals outbox = [final] ∧ final.Follows outbox ∧ final.next = .close ∧
      script.play outbox = ⟨final.dispatched, outcome, final.outbox.shutdown, final.feed⟩

theorem short_stopped (outcome : Outcome) (feed : Feed) (outbox : Outbox) :
    (stopped outcome feed : Script β).Short outbox := .inl ⟨rfl, .refl outbox⟩

theorem short_rejected (status : Status) (fault : RequestFault) (feed : Feed) {outbox : Outbox}
    (h : outbox.Idle) : (rejected status fault feed : Script β).Short outbox := by
  simp only [Short, finals_rejected, play, reject]
  rcases hsent : outbox.sendResponse ((Response.ofStatus status .empty).marked .close .http11) false
    with ⟨sendFault | _, after⟩
  · exact .inl ⟨rfl, Outbox.grows_of_sendResponse h hsent⟩
  · refine .inr ⟨_, .failed (.request fault), rfl, ?_, rfl, rfl⟩
    exact Final.follows_of_sendResponse h rfl (List.append_nil _).symm hsent

theorem short_last {turn : Turn β} (closes : turn.next = .close) {outbox : Outbox}
    (h : outbox.Idle) : (last turn closes).Short outbox := by
  simp only [Short, finals_last, play]
  rcases turn.finalOn?_cases h with
    ⟨final, hfinal, hfollows, hnext, hfeed, hplay⟩ | ⟨hnone, run, hgrows, hplay⟩
  · refine .inr ⟨final, .closed, by rw [hfinal]; rfl, hfollows, hnext.trans closes, ?_⟩
    rw [hplay, hfeed, List.append_nil]
  · rw [hnone, hplay]
    exact .inl ⟨rfl, hgrows⟩

theorem finals_of_kept (turn : Turn β) (keeps : turn.next = .keepAlive) (later : Script β)
    {outbox : Outbox} (h : outbox.Idle) :
    let script : Script β := .kept turn keeps later
    (script.finals outbox = [] ∧ outbox.Grows (script.play outbox).outbox) ∨
      ∃ final, script.finals outbox = final :: later.finals final.outbox ∧ final.Follows outbox ∧
        final.next = .keepAlive ∧ script.play outbox =
          { later.play final.outbox with
            dispatched := final.dispatched ++ (later.play final.outbox).dispatched } := by
  simp only [finals_kept, play]
  rcases turn.finalOn?_cases h with
    ⟨final, hfinal, hfollows, hnext, -, hplay⟩ | ⟨hnone, run, hgrows, hplay⟩
  · rw [hfinal, hplay]
    exact .inr ⟨final, rfl, hfollows, hnext.trans keeps, rfl⟩
  · rw [hnone, hplay]
    exact .inl ⟨rfl, hgrows⟩

theorem finals_induction {motive : Script β → (outbox : Outbox) → outbox.Idle → Prop}
    (silent : ∀ script outbox h, script.finals outbox = [] →
      outbox.Grows (script.play outbox).outbox → motive script outbox h)
    (closing : ∀ script outbox h final outcome, script.finals outbox = [final] →
      final.Follows outbox → final.next = .close →
      script.play outbox = ⟨final.dispatched, outcome, final.outbox.shutdown, final.feed⟩ →
      motive script outbox h)
    (keeping : ∀ script later outbox h final,
      script.finals outbox = final :: later.finals final.outbox →
      ∀ hfollows : final.Follows outbox, final.next = .keepAlive → script.play outbox =
        { later.play final.outbox with
          dispatched := final.dispatched ++ (later.play final.outbox).dispatched } →
      motive later final.outbox hfollows.idle → motive script outbox h)
    (script : Script β) (outbox : Outbox) (h : outbox.Idle) : motive script outbox h := by
  have hshort : ∀ {script : Script β} {outbox : Outbox} (h : outbox.Idle), script.Short outbox →
      motive script outbox h := by
    rintro script outbox h (⟨hfinals, hgrows⟩ | ⟨final, outcome, hfinals, hfollows, hnext, hplay⟩)
    · exact silent script outbox h hfinals hgrows
    · exact closing script outbox h final outcome hfinals hfollows hnext hplay
  induction script generalizing outbox with
  | stopped outcome feed => exact hshort h (short_stopped outcome feed outbox)
  | rejected status fault feed => exact hshort h (short_rejected status fault feed h)
  | last turn closes => exact hshort h (short_last closes h)
  | kept turn keeps later ih =>
      rcases finals_of_kept turn keeps later h with
        ⟨hfinals, hgrows⟩ | ⟨final, hfinals, hfollows, hnext, hplay⟩
      · exact silent _ outbox h hfinals hgrows
      -- behind its response the outbox is idle again, which is all that the later turns build on
      · exact keeping _ later outbox h final hfinals hfollows hnext hplay (ih _ hfollows.idle)

theorem finals_prefix (script : Script β) {outbox : Outbox} (h : outbox.Idle) :
    outbox.sink.written ++ (script.finals outbox).flatMap Final.octets <+:
        (script.play outbox).written ∧
      (script.finals outbox).flatMap Final.dispatched <+: (script.play outbox).dispatched := by
  induction script, outbox, h using finals_induction with
  | silent script outbox _ hfinals hgrows =>
      rw [hfinals, List.flatMap_nil, List.append_nil]
      exact ⟨hgrows.written, List.nil_prefix⟩
  | closing script outbox _ final outcome hfinals hfollows _ hplay =>
      have hwritten : (script.play outbox).written = final.outbox.sink.written := by
        rw [hplay]
        rfl
      rw [hfinals, hwritten, hfollows.written, List.flatMap_singleton, List.flatMap_singleton, hplay]
      exact ⟨List.prefix_rfl, List.prefix_rfl⟩
  | keeping script later outbox _ final hfinals hfollows _ hplay ih =>
      have hwritten : (script.play outbox).written = (later.play final.outbox).written := by
        rw [hplay]
        rfl
      rw [hfinals, hwritten, List.flatMap_cons, ← List.append_assoc, ← hfollows.written, hplay,
        List.flatMap_cons]
      exact ⟨ih.1, (List.prefix_append_right_inj _).mpr ih.2⟩

/-- Nobody shuts a connection without a word. -/
theorem written_ne_of_isShutdown (script : Script β) {outbox : Outbox} (h : outbox.Idle)
    (hopen : outbox.sink.isShutdown = false)
    (hshut : (script.play outbox).outbox.sink.isShutdown = true) :
    (script.play outbox).written ≠ outbox.sink.written := by
  obtain ⟨hwhole, -⟩ := finals_prefix script h
  intro hsame
  rw [hsame] at hwhole
  have hnothing : (script.finals outbox).flatMap Final.octets = [] := by
    have hlength := hwhole.length_le
    rw [List.length_append] at hlength
    exact List.eq_nil_of_length_eq_zero (by omega)
  induction script, outbox, h using finals_induction with
  | silent script outbox _ hfinals hgrows =>
      rw [hgrows.isShutdown, hopen] at hshut
      contradiction
  | closing script outbox _ final outcome hfinals hfollows _ hplay =>
      rw [hfinals, List.flatMap_singleton] at hnothing
      exact hfollows.nonempty hnothing
  | keeping script later outbox _ final hfinals hfollows _ hplay ih =>
      rw [hfinals, List.flatMap_cons, List.append_eq_nil_iff] at hnothing
      exact hfollows.nonempty hnothing.1

/-- The connection ends with the responses that close it, and with no other. -/
theorem endsWith_iff (script : Script β) {outbox : Outbox} (h : outbox.Idle)
    (hopen : outbox.sink.isShutdown = false) {before after : List (Final β)} {final : Final β}
    (hfinals : script.finals outbox = before ++ final :: after) :
    EndsWith (script.play outbox) final ((before ++ [final]).flatMap Final.dispatched) ↔
      final.next = .close := by
  induction script, outbox, h using finals_induction generalizing before with
  | silent script outbox _ hnone _ => simp [hnone] at hfinals
  | closing script outbox _ only outcome honly _ hnext hplay =>
      rw [honly] at hfinals
      rcases List.singleton_eq_append_iff.mp hfinals with ⟨rfl, hsame⟩ | ⟨-, hnil⟩
      · obtain ⟨rfl, rfl⟩ := List.cons.inj hsame
        rw [hplay]
        exact iff_of_true ⟨rfl, rfl, rfl, (List.flatMap_singleton ..).symm⟩ hnext
      · contradiction
  | keeping script later outbox _ first hfirst hfollows hnext hplay ih =>
      rw [hfirst] at hfinals
      have hstill : first.outbox.sink.isShutdown = false := hfollows.isShutdown.trans hopen
      cases before with
      | nil =>
          obtain ⟨rfl, -⟩ := List.cons.inj hfinals
          refine iff_of_false ?_ (by rw [hnext]; exact nofun)
          intro hends
          rw [hplay] at hends
          exact later.written_ne_of_isShutdown hfollows.idle hstill hends.isShutdown hends.written
      | cons other before =>
          obtain ⟨rfl, hlater⟩ := List.cons.inj hfinals
          rw [← ih hstill hlater, hplay]
          constructor
          · intro hends
            exact ⟨hends.isShutdown, hends.written, hends.feed,
              List.append_cancel_left hends.dispatched⟩
          · intro hends
            exact ⟨hends.isShutdown, hends.written, hends.feed,
              congrArg (first.dispatched ++ ·) hends.dispatched⟩

end Script

/-- Whatever the requests, the handlers and the writer are like, a response that is written
completely says that the connection is closed if and only if the connection ends with it, unless its
handler asks for the close of a connection that is kept. -/
theorem serve_saysClose_iff (config : ConnectionConfig) (handler : Handler β)
    (segments : List Bytes) (ending : Ending) (failure : Option WriteFailure) :
    let run := serve config handler segments ending failure
    let finals := (Script.ofInput config handler segments ending).finals (.start failure)
    finals.flatMap Final.octets <+: run.written ∧
      finals.flatMap Final.dispatched <+: run.dispatched ∧
      ∀ before final after, finals = before ++ final :: after →
        let dispatched := (before ++ [final]).flatMap Final.dispatched
        (EndsWith run final dispatched ↔ final.next = .close) ∧
          ((final.saysClose = true ↔ EndsWith run final dispatched) ↔ ¬ final.IsMisleading) := by
  intro run finals
  have hidle := Outbox.idle_start failure
  have hrun : run = (Script.ofInput config handler segments ending).play (.start failure) :=
    Script.serve_eq_play config handler segments ending failure
  obtain ⟨hwritten, hdispatched⟩ :=
    Script.finals_prefix (Script.ofInput config handler segments ending) hidle
  rw [← hrun] at hwritten hdispatched
  refine ⟨hwritten, hdispatched, ?_⟩
  intro before final after hfinals dispatched
  have hends : EndsWith run final dispatched ↔ final.next = .close := by
    rw [hrun]
    exact Script.endsWith_iff _ hidle rfl hfinals
  refine ⟨hends, ?_⟩
  rw [hends, final.saysClose_iff]
  constructor
  · rintro hagree ⟨hkeep, hversion, htoken⟩
    rw [hagree.mp (.inr ⟨hversion, htoken⟩)] at hkeep
    contradiction
  · intro hfair
    constructor
    · rintro (hclose | ⟨hversion, htoken⟩)
      · exact hclose
      · cases hnext : final.next with
        | close => rfl
        | keepAlive => exact absurd ⟨hnext, hversion, htoken⟩ hfair
    · exact .inl

theorem serve_saysClose_iff_second_of_two :
    let handler : Handler Unit := fun _ _ => .done ⟨(), .ok (.ofStatus .ok .empty)⟩
    let segments :=
      [Bytes.ofText "GET /a HTTP/1.1\r\n\r\nGET /b HTTP/1.1\r\nConnection: close\r\n\r\n"]
    let run := serve .standard handler segments .eof none
    let finals := (Script.ofInput .standard handler segments .eof).finals (.start none)
    ∃ first second, finals = [first] ++ second :: [] ∧
      ¬ EndsWith run first first.dispatched ∧ first.saysClose = false ∧
      EndsWith run second (first.dispatched ++ second.dispatched) ∧ second.saysClose = true := by
  intro handler segments run finals
  have hlength : finals.length = 2 := by decide +kernel
  have hnext : finals.map Final.next = [.keepAlive, .close] := by decide +kernel
  have hsays : finals.map Final.saysClose = [false, true] := by decide +kernel
  have hserve : ∀ before final after, finals = before ++ final :: after →
      (EndsWith run final ((before ++ [final]).flatMap Final.dispatched) ↔ final.next = .close) :=
    fun before final after hfinals =>
      ((serve_saysClose_iff .standard handler segments .eof none).2.2 before final after hfinals).1
  clear_value run finals
  obtain ⟨first, second, rfl⟩ := List.length_eq_two.mp hlength
  simp only [List.map_cons, List.map_nil, List.cons.injEq, and_true] at hnext hsays
  have hfirst := hserve [] first [second] rfl
  have hsecond := hserve [first] second [] rfl
  refine ⟨first, second, rfl, ?_, hsays.1, ?_, hsays.2⟩
  · intro hends
    have hclose := hfirst.mp (by simpa using hends)
    rw [hnext.1] at hclose
    contradiction
  · simpa using hsecond.mpr hnext.2

/-- The handler of the first request asks for the close, and the second one is served all the same. -/
theorem serve_saysClose_before_second :
    let handler : Handler Unit := fun _ _ =>
      .done ⟨(), .ok ((Response.ofStatus .ok .empty).withField FieldName.connection closeToken)⟩
    let segments := [Bytes.ofText "GET /a HTTP/1.1\r\n\r\nGET /b HTTP/1.1\r\n\r\n"]
    let run := serve .standard handler segments .eof none
    let finals := (Script.ofInput .standard handler segments .eof).finals (.start none)
    ∃ first second, finals = [first, second] ∧ first.saysClose = true ∧
      ¬ EndsWith run first first.dispatched ∧ run.outbox.sink.isShutdown = false := by
  intro handler segments run finals
  have hlength : finals.length = 2 := by decide +kernel
  have hsays : finals.map Final.saysClose = [true, true] := by decide +kernel
  have hopen : run.outbox.sink.isShutdown = false := by decide +kernel
  clear_value run finals
  obtain ⟨first, second, rfl⟩ := List.length_eq_two.mp hlength
  simp only [List.map_cons, List.map_nil, List.cons.injEq, and_true] at hsays
  refine ⟨first, second, rfl, hsays.1, ?_, hopen⟩
  intro hends
  rw [hends.isShutdown] at hopen
  contradiction

end Connection

end Turnpike
