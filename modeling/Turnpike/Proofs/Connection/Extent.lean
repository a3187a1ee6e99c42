import Turnpike.Proofs.Connection.Blocks

/-!
How far a connection gets at most.  Whatever the writer does, no more is handed out and no more is
written than what the turns of its script come to, and nothing is behind a turn that closes the
connection.
-/

namespace Turnpike

namespace Connection

/-- A run from an outbox on hands out and writes no more than this. -/
structure Within (outbox : Outbox) (dispatched : List (Dispatched β)) (bytes : Bytes)
    (run : ConnectionRun β) : Prop where
  dispatched : run.dispatched <+: dispatched
  written : run.written <+: outbox.sink.written ++ bytes

theorem Turn.within_play (turn : Turn β) {outbox : Outbox} (h : outbox.Idle)
    {next : Outbox → ConnectionRun β} {dispatched : List (Dispatched β)} {bytes : Bytes}
    (hnext : ∀ after : Outbox, after.Idle → Within after dispatched bytes (next after)) :
    Within outbox (turn.dispatched ++ dispatched) (turn.block ++ bytes)
      (goOn next (turn.play outbox)) := by
  have hblock : ∀ {written : Bytes}, written <+: outbox.sink.written ++ turn.block →
      written <+: outbox.sink.written ++ (turn.block ++ bytes) := by
    intro written hwritten
    rw [← List.append_assoc]
    exact hwritten.trans (List.prefix_append ..)
  have hinterim : outbox.sink.written ++ turn.interim <+: outbox.sink.written ++ turn.block := by
    rw [List.prefix_append_right_inj]
    exact List.prefix_append ..
  cases turn.unfolds_play h next with
  | uninvited hdispatched _ hwritten =>
      exact ⟨hdispatched ▸ List.nil_prefix, hblock (hwritten.trans hinterim)⟩
  | unanswered _ hdispatched hwritten =>
      exact ⟨hdispatched ▸ List.prefix_append .., hblock (hwritten ▸ hinterim)⟩
  | brokenOff hdispatched _ _ hwritten =>
      exact ⟨hdispatched ▸ List.prefix_append .., hblock hwritten⟩
  | @answered after hafter hwritten hgoes =>
      obtain ⟨hlater, hrest⟩ := hnext after hafter
      rw [hgoes]
      constructor
      · exact (List.prefix_append_right_inj _).mpr hlater
      · rw [hwritten, List.append_assoc] at hrest
        exact hrest

namespace Script

theorem within_play (script : Script β) {outbox : Outbox} (h : outbox.Idle) :
    Within outbox (script.turns.flatMap Turn.dispatched)
      (script.turns.flatMap Turn.block ++ script.closing) (script.play outbox) := by
  induction script generalizing outbox with
  | stopped outcome feed => exact ⟨List.prefix_rfl, List.prefix_append ..⟩
  | rejected status fault feed =>
      constructor
      · rw [play, dispatched_reject]
        exact List.nil_prefix
      · have hwritten := (Outbox.sendResponse_emits h.writer
          ((Response.ofStatus status .empty).marked .close .http11) false).written
        rw [Outbox.gathered, h.buffer, List.append_nil] at hwritten
        simp only [play, reject, turns, closing, rejection?, List.flatMap_nil, List.nil_append,
          ConnectionRun.written]
        split
        · next hsent =>
          rw [hsent] at hwritten
          exact hwritten
        · next hsent =>
          rw [hsent] at hwritten
          exact hwritten
  | last turn closes =>
      have hstop : ∀ after : Outbox, after.Idle →
          Within after [] [] (⟨[], .closed, after.shutdown, turn.feed⟩ : ConnectionRun β) := by
        intro after _
        exact ⟨List.prefix_rfl, List.prefix_append ..⟩
      have hplay := turn.within_play h hstop
      rw [← List.append_nil (turn.block ++ [])] at hplay
      exact hplay
  | kept turn keeps later ih =>
      have hplay := turn.within_play h fun after hafter => ih hafter
      rw [← List.append_assoc] at hplay
      exact hplay

/-- A turn that closes the connection is the last, and nothing is refused behind it. -/
theorem eq_nil_of_closes (script : Script β) {before after : List (Turn β)} {turn : Turn β}
    (hturns : script.turns = before ++ turn :: after) (hcloses : turn.next = .close) :
    after = [] ∧ script.closing = [] := by
  induction script generalizing before with
  | stopped outcome feed => simp [turns] at hturns
  | rejected status fault feed => simp [turns] at hturns
  | last other closes =>
      rcases List.singleton_eq_append_iff.mp hturns with ⟨-, hsame⟩ | ⟨-, hnil⟩
      · exact ⟨(List.cons.inj hsame).2, rfl⟩
      · contradiction
  | kept other keeps later ih =>
      cases before with
      | nil =>
          obtain ⟨rfl, -⟩ := List.cons.inj hturns
          rw [keeps] at hcloses
          contradiction
      | cons first before => exact ih (List.cons.inj hturns).2

theorem within_play_of_closes (script : Script β) {outbox : Outbox} (h : outbox.Idle)
    {before after : List (Turn β)} {turn : Turn β}
    (hturns : script.turns = before ++ turn :: after) (hcloses : turn.next = .close) :
    after = [] ∧ Within outbox ((before ++ [turn]).flatMap Turn.dispatched)
      ((before ++ [turn]).flatMap Turn.block) (script.play outbox) := by
  obtain ⟨rfl, hclosing⟩ := script.eq_nil_of_closes hturns hcloses
  have hplay := script.within_play h
  rw [hclosing, List.append_nil, hturns] at hplay
  exact ⟨rfl, hplay⟩

end Script

end Connection

end Turnpike
