import Turnpike.Connection.Outbox

/-!
Writing to a peer that accepts all octets: what can be encoded is written.
-/

namespace Turnpike

namespace Outbox

def Accepting (outbox : Outbox) : Prop := outbox.sink.failure = none

structure Ready (outbox : Outbox) : Prop where
  accepting : outbox.Accepting
  writer : outbox.writer = .start

theorem ready_start : (start none).Ready := ⟨rfl, rfl⟩

/-- A step of writing that succeeds and leaves a certain writer. -/
def Succeeds (sent : Sent) (writer : ResponseWriter) : Prop :=
  ∃ next, sent = (.ok (), next) ∧ next.Accepting ∧ next.writer = writer

theorem Succeeds.andThen {sent : Sent} {next : Outbox → Sent} {middle writer : ResponseWriter}
    (h : Succeeds sent middle)
    (hnext : ∀ outbox : Outbox, outbox.Accepting → outbox.writer = middle →
      Succeeds (next outbox) writer) : Succeeds (sent.andThen next) writer := by
  obtain ⟨outbox, rfl, haccepting, hwriter⟩ := h
  exact hnext outbox haccepting hwriter

variable {outbox : Outbox}

theorem writeNow_succeeds (h : outbox.Accepting) (bytes : Bytes) :
    Succeeds (outbox.writeNow bytes) outbox.writer := by
  simp only [writeNow, Sink.write_of_no_failure h]
  exact ⟨_, rfl, h, rfl⟩

theorem flush_succeeds (h : outbox.Accepting) : Succeeds outbox.flush outbox.writer := by
  unfold flush
  split
  · exact ⟨outbox, rfl, h, rfl⟩
  · exact (writeNow_succeeds h outbox.buffer).andThen fun next haccepting hwriter =>
      ⟨_, rfl, haccepting, hwriter⟩

theorem flushIfFull_succeeds (h : outbox.Accepting) : Succeeds outbox.flushIfFull outbox.writer := by
  unfold flushIfFull
  split
  · exact flush_succeeds h
  · exact ⟨outbox, rfl, h, rfl⟩

theorem feed_succeeds (h : outbox.Accepting) {message : Message ResponseHead} {bytes : Bytes}
    {writer : ResponseWriter} (hencode : outbox.writer.encode message = (.ok bytes, writer)) :
    Succeeds (outbox.feed message) writer := by
  refine (flushIfFull_succeeds h).andThen fun next haccepting hwriter => ?_
  rw [← hwriter] at hencode
  simp only [put, hencode]
  exact ⟨_, rfl, haccepting, rfl⟩

theorem send_succeeds (h : outbox.Accepting) {message : Message ResponseHead} {bytes : Bytes}
    {writer : ResponseWriter} (hencode : outbox.writer.encode message = (.ok bytes, writer)) :
    Succeeds (outbox.send message) writer := by
  refine (feed_succeeds h hencode).andThen fun next haccepting hwriter => ?_
  rw [← hwriter]
  exact flush_succeeds haccepting

end Outbox

end Turnpike
