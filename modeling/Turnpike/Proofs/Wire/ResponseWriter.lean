import Mathlib.Data.List.Induction
import Turnpike.Connection.Outbox

/-!
What a refused message leaves behind.  The buffer is as it was, and so is the writer, with one
exception: a head of a version that cannot be written leaves it inside the body that the head was to
announce.  The pieces of that body are then taken although there is no head in front of them.
-/

namespace Turnpike

theorem PayloadEncoder.ofSize?_eq_none_iff {size : PayloadSize} :
    ofSize? size = none ↔ size = .empty := by
  cases size with
  | length octets | chunked => exact iff_of_false nofun nofun
  | empty => exact iff_of_true rfl rfl

/-- No body is over before its first piece, and a piece of no data fits into every one. -/
theorem PayloadEncoder.exists_encode_chunk_nil {size : PayloadSize} {encoder : PayloadEncoder}
    (h : ofSize? size = some encoder) : ∃ taken, encoder.encode (.chunk []) = .ok taken := by
  cases size with
  | length octets | chunked =>
      obtain rfl := Option.some.inj h
      exact ⟨_, rfl⟩
  | empty => contradiction

theorem ResponseHead.encode?_eq_none_iff {head : ResponseHead} {size : PayloadSize} :
    head.encode? size = none ↔ head.version ≠ .http10 ∧ head.version ≠ .http11 := by
  unfold encode?
  split
  · next h => exact iff_of_false nofun fun hversion => hversion.1 h
  · next h => exact iff_of_false nofun fun hversion => hversion.2 h
  · next h10 h11 => exact iff_of_true rfl ⟨h10, h11⟩

/-! One message. -/

namespace ResponseWriter

/-- A head that cannot be written although a body is to follow it, where a head is due. -/
def OpensUnheaded (writer : ResponseWriter) : Message ResponseHead → Prop
  | .head head size =>
    writer.body = none ∧ (head.version ≠ .http10 ∧ head.version ≠ .http11) ∧ size ≠ .empty
  | .item _ => False

theorem encode_head_of_some {writer : ResponseWriter} (hidle : writer.body = none)
    {head : ResponseHead} {size : PayloadSize} {bytes : Bytes} (h : head.encode? size = some bytes) :
    writer.encode (.head head size) = (.ok bytes, ⟨PayloadEncoder.ofSize? size⟩) := by
  simp only [encode, hidle, h]

theorem encode_head_of_none {writer : ResponseWriter} (hidle : writer.body = none)
    {head : ResponseHead} {size : PayloadSize} (h : head.encode? size = none) :
    writer.encode (.head head size) =
      (.error (.unsupportedVersion head.version), ⟨PayloadEncoder.ofSize? size⟩) := by
  simp only [encode, hidle, h]

/-- The writer that a head of an unsupported version leaves is the same as before only if no body was
to follow. -/
theorem opensUnheaded_or_kept {head : ResponseHead} {size : PayloadSize}
    (h : head.encode? size = none) :
    ¬ OpensUnheaded ⟨none⟩ (.head head size) ∧ PayloadEncoder.ofSize? size = none ∨
      OpensUnheaded ⟨none⟩ (.head head size) ∧
        ∃ encoder, PayloadEncoder.ofSize? size = some encoder := by
  have hversion := ResponseHead.encode?_eq_none_iff.mp h
  cases hsize : PayloadEncoder.ofSize? size with
  | none =>
      have hempty := PayloadEncoder.ofSize?_eq_none_iff.mp hsize
      exact .inl ⟨fun hopens => hopens.2.2 hempty, rfl⟩
  | some encoder =>
      have hbody : size ≠ .empty := by
        rintro rfl
        contradiction
      exact .inr ⟨⟨rfl, hversion, hbody⟩, encoder, rfl⟩

theorem encode_eq_error {writer next : ResponseWriter} {message : Message ResponseHead} {flaw : Flaw}
    (h : writer.encode message = (.error flaw, next)) :
    ¬ writer.OpensUnheaded message ∧ next = writer ∨
      writer.OpensUnheaded message ∧ writer.body = none ∧
        ∃ size encoder, PayloadEncoder.ofSize? size = some encoder ∧ next = ⟨some encoder⟩ := by
  rcases writer with ⟨_ | encoder⟩
  · cases message with
    | head head size =>
        cases hencoded : head.encode? size with
        | some bytes =>
            rw [encode_head_of_some rfl hencoded] at h
            cases h
        | none =>
            rw [encode_head_of_none rfl hencoded] at h
            obtain ⟨-, rfl⟩ := Prod.mk.inj h
            rcases opensUnheaded_or_kept hencoded with ⟨hkept, hsize⟩ | ⟨hopens, encoder, hsize⟩
            · exact .inl ⟨hkept, by rw [hsize]⟩
            · exact .inr ⟨hopens, rfl, size, encoder, hsize, by rw [hsize]⟩
    | item item =>
        obtain ⟨-, rfl⟩ := Prod.mk.inj h
        exact .inl ⟨id, rfl⟩
  · cases message with
    | head head size =>
        obtain ⟨-, rfl⟩ := Prod.mk.inj h
        exact .inl ⟨fun hopens => Option.some_ne_none _ hopens.1, rfl⟩
    | item item =>
        simp only [encode] at h
        split at h
        · cases h
        · obtain ⟨-, rfl⟩ := Prod.mk.inj h
          exact .inl ⟨id, rfl⟩

/-- Only a head leads from between two responses into a body. -/
theorem body_encode_of_none {writer : ResponseWriter} {message : Message ResponseHead}
    (hidle : writer.body = none) (hopen : (writer.encode message).2.body ≠ none) :
    ∃ head size, message = .head head size := by
  cases message with
  | head head size => exact ⟨head, size, rfl⟩
  | item item =>
      simp only [encode, hidle] at hopen
      contradiction

theorem encode_item_of_none {writer : ResponseWriter} (hidle : writer.body = none)
    (item : PayloadItem) : writer.encode (.item item) = (.error .noHead, writer) := by
  simp only [encode, hidle]

end ResponseWriter

namespace Outbox

theorem put_of_error {outbox : Outbox} {message : Message ResponseHead} {flaw : ResponseWriter.Flaw}
    {writer : ResponseWriter} (h : outbox.writer.encode message = (.error flaw, writer)) :
    outbox.put message = (.error flaw.fault, { outbox with writer }) := by
  simp only [put, h]

theorem put_of_ok {outbox : Outbox} {message : Message ResponseHead} {bytes : Bytes}
    {writer : ResponseWriter} (h : outbox.writer.encode message = (.ok bytes, writer)) :
    outbox.put message = (.ok (), { outbox with writer, buffer := outbox.buffer ++ bytes }) := by
  simp only [put, h]

@[simp] theorem writer_put (outbox : Outbox) (message : Message ResponseHead) :
    (outbox.put message).2.writer = (outbox.writer.encode message).2 := by
  rcases h : outbox.writer.encode message with ⟨flaw | bytes, writer⟩
  · rw [put_of_error h]
  · rw [put_of_ok h]

theorem put_eq_error {outbox next : Outbox} {message : Message ResponseHead} {fault : ResponseFault}
    (h : outbox.put message = (.error fault, next)) :
    ∃ flaw writer, outbox.writer.encode message = (.error flaw, writer) ∧
      next = { outbox with writer } := by
  rcases hencoded : outbox.writer.encode message with ⟨flaw | bytes, writer⟩
  · rw [put_of_error hencoded] at h
    exact ⟨flaw, writer, rfl, (Prod.mk.inj h).2.symm⟩
  · rw [put_of_ok hencoded] at h
    cases h

theorem buffer_put (outbox : Outbox) (message : Message ResponseHead) :
    outbox.buffer <+: (outbox.put message).2.buffer := by
  rcases h : outbox.writer.encode message with ⟨flaw | bytes, writer⟩
  · exact ⟨[], by rw [put_of_error h, List.append_nil]⟩
  · exact ⟨bytes, by rw [put_of_ok h]⟩

end Outbox

/-! Many of them. -/

/-- A use of the encoder: a message, or the word that the body just announced is not sent. -/
inductive WriterCall where
  | put (message : Message ResponseHead)
  | discardBody

namespace Outbox

def call (outbox : Outbox) : WriterCall → Sent
  | .put message => outbox.put message
  | .discardBody => (.ok (), outbox.discardBody)

def after (outbox : Outbox) (calls : List WriterCall) : Outbox :=
  calls.foldl (fun outbox call => (outbox.call call).2) outbox

/-- What each of the calls comes to, and the buffer behind it. -/
def answers (outbox : Outbox) : List WriterCall → List (Except ResponseFault Unit × Bytes)
  | [] => []
  | call :: calls =>
    ((outbox.call call).1, (outbox.call call).2.buffer) :: (outbox.call call).2.answers calls

theorem after_append (outbox : Outbox) (earlier later : List WriterCall) :
    outbox.after (earlier ++ later) = (outbox.after earlier).after later := List.foldl_append ..

theorem after_put (outbox : Outbox) (message : Message ResponseHead) (later : List WriterCall) :
    outbox.after (.put message :: later) = (outbox.put message).2.after later := rfl

theorem buffer_call (outbox : Outbox) (call : WriterCall) :
    outbox.buffer <+: (outbox.call call).2.buffer := by
  cases call with
  | put message => exact outbox.buffer_put message
  | discardBody => exact List.prefix_rfl

theorem buffer_after (outbox : Outbox) (calls : List WriterCall) :
    outbox.buffer <+: (outbox.after calls).buffer := by
  induction calls generalizing outbox with
  | nil => exact List.prefix_rfl
  | cons call calls ih => exact (outbox.buffer_call call).trans (ih (outbox.call call).2)

/-- This head came behind the earlier calls, where one was due, and the outbox has been inside the
body of that response ever since. -/
structure OpenedBy (outbox : Outbox) (earlier : List WriterCall) (head : ResponseHead)
    (size : PayloadSize) (between : List WriterCall) : Prop where
  due : (outbox.after earlier).writer.body = none
  inside : ∀ front, front <+: between →
    (outbox.after (earlier ++ .put (.head head size) :: front)).writer.body ≠ none

theorem exists_put_of_call {outbox : Outbox} {call : WriterCall} (hidle : outbox.writer.body = none)
    (hopen : (outbox.call call).2.writer.body ≠ none) :
    ∃ head size, call = .put (.head head size) := by
  cases call with
  | put message =>
      rw [call, writer_put] at hopen
      obtain ⟨head, size, rfl⟩ := ResponseWriter.body_encode_of_none hidle hopen
      exact ⟨head, size, rfl⟩
  | discardBody => contradiction

theorem exists_openedBy {outbox : Outbox} (hstart : outbox.writer = .start) {calls : List WriterCall}
    (hopen : (outbox.after calls).writer.body ≠ none) :
    ∃ earlier head size between, calls = earlier ++ .put (.head head size) :: between ∧
      outbox.OpenedBy earlier head size between := by
  induction calls using List.reverseRecOn with
  | nil =>
      refine absurd ?_ hopen
      rw [after, List.foldl_nil, hstart]
      rfl
  | append_singleton calls call ih =>
      -- the last call opens the body that is open now, or finds it open
      by_cases hidle : (outbox.after calls).writer.body = none
      · obtain ⟨head, size, rfl⟩ := exists_put_of_call hidle (by rwa [after_append] at hopen)
        refine ⟨calls, head, size, [], rfl, hidle, fun front hfront => ?_⟩
        rwa [List.prefix_nil.mp hfront]
      · obtain ⟨earlier, head, size, between, rfl, hopened⟩ := ih hidle
        refine ⟨earlier, head, size, between ++ [call], by simp, hopened.due, fun front hfront => ?_⟩
        rcases List.prefix_concat_iff.mp hfront with rfl | hwithin
        · simpa using hopen
        · exact hopened.inside front hwithin

/-- The head stands in the buffer behind what was there before it. -/
def Headed (outbox : Outbox) (earlier : List WriterCall) (head : ResponseHead) (size : PayloadSize)
    (reached : Outbox) : Prop :=
  ∃ bytes, head.encode? size = some bytes ∧ (outbox.after earlier).buffer ++ bytes <+: reached.buffer

theorem OpenedBy.headed_iff {outbox : Outbox} {earlier between : List WriterCall}
    {head : ResponseHead} {size : PayloadSize} (h : outbox.OpenedBy earlier head size between) :
    outbox.Headed earlier head size
        (outbox.after (earlier ++ .put (.head head size) :: between)) ↔
      ¬ (outbox.after earlier).writer.OpensUnheaded (.head head size) := by
  rw [after_append, after_put]
  cases hencoded : head.encode? size with
  | some bytes =>
      have hbuffer := buffer_after ((outbox.after earlier).put (.head head size)).2 between
      rw [put_of_ok (ResponseWriter.encode_head_of_some h.due hencoded)] at hbuffer ⊢
      refine iff_of_true ⟨bytes, hencoded, hbuffer⟩ fun hopens => ?_
      rw [ResponseHead.encode?_eq_none_iff.mpr hopens.2.1] at hencoded
      contradiction
  | none =>
      -- the writer is inside a body right behind the head, so the size is one that has a body
      have hinside := h.inside [] List.nil_prefix
      rw [after_append, after_put, after, List.foldl_nil, writer_put,
        ResponseWriter.encode_head_of_none h.due hencoded] at hinside
      have hsize : size ≠ .empty := by
        rintro rfl
        contradiction
      have hversion := ResponseHead.encode?_eq_none_iff.mp hencoded
      refine iff_of_false ?_ (not_not.mpr ⟨h.due, hversion, hsize⟩)
      rintro ⟨bytes, hsome, -⟩
      rw [hencoded] at hsome
      contradiction

/-- A piece of no data tells a writer that is inside a body from one that is not. -/
theorem answers_ne {outbox next : Outbox} (hidle : outbox.writer.body = none) {size : PayloadSize}
    {encoder : PayloadEncoder} (hsize : PayloadEncoder.ofSize? size = some encoder)
    (hnext : next.writer = ⟨some encoder⟩) :
    next.answers [.put (.item (.chunk []))] ≠ outbox.answers [.put (.item (.chunk []))] := by
  obtain ⟨⟨bytes, after⟩, htaken⟩ := PayloadEncoder.exists_encode_chunk_nil hsize
  have haccepted : next.writer.encode (.item (.chunk [])) =
      (.ok bytes, ResponseWriter.afterItem after) := by
    simp only [ResponseWriter.encode, hnext, htaken]
  intro h
  have hfirst : (next.put (.item (.chunk []))).1 = (outbox.put (.item (.chunk []))).1 :=
    (Prod.mk.inj (List.cons.inj h).1).1
  rw [put_of_ok haccepted,
    put_of_error (ResponseWriter.encode_item_of_none hidle (.chunk []))] at hfirst
  contradiction

/-- A refused message leaves the buffer as it was, and all that follows is answered as if it had not
been put, if and only if it is not a head that opens a body without being written.  A piece that is
taken belongs to the body of a head put before it, and that head stands in front of it under the
same condition. -/
theorem put_refused {outbox : Outbox} (hstart : outbox.writer = .start) (calls : List WriterCall)
    (message : Message ResponseHead) :
    let reached := outbox.after calls
    (∀ fault next, reached.put message = (.error fault, next) →
      next.buffer = reached.buffer ∧
      (next = reached ↔ ¬ reached.writer.OpensUnheaded message) ∧
      ((∀ later, next.answers later = reached.answers later) ↔
        ¬ reached.writer.OpensUnheaded message)) ∧
    (∀ item next, message = .item item → reached.put message = (.ok (), next) →
      ∃ earlier head size between, calls = earlier ++ .put (.head head size) :: between ∧
        outbox.OpenedBy earlier head size between ∧
        (outbox.Headed earlier head size reached ↔
          ¬ (outbox.after earlier).writer.OpensUnheaded (.head head size))) := by
  intro reached
  constructor
  · intro fault next h
    obtain ⟨flaw, writer, hencoded, hnext⟩ := put_eq_error h
    refine ⟨by rw [hnext], ?_⟩
    rcases ResponseWriter.encode_eq_error hencoded with
      ⟨hkept, rfl⟩ | ⟨hopens, hidle, size, encoder, hsize, rfl⟩
    · have hsame : next = reached := hnext
      exact ⟨iff_of_true hsame hkept, iff_of_true (fun _ => by rw [hsame]) hkept⟩
    · have hdiffers := answers_ne hidle hsize (congrArg Outbox.writer hnext)
      exact ⟨iff_of_false (fun hsame => hdiffers (by rw [hsame])) (not_not.mpr hopens),
        iff_of_false (fun hsame => hdiffers (hsame _)) (not_not.mpr hopens)⟩
  · rintro item next rfl h
    have hopen : reached.writer.body ≠ none := by
      intro hidle
      rw [put_of_error (ResponseWriter.encode_item_of_none hidle item)] at h
      cases h
    obtain ⟨earlier, head, size, between, hcalls, hopened⟩ := exists_openedBy hstart hopen
    have hheaded := hopened.headed_iff
    rw [← hcalls] at hheaded
    exact ⟨earlier, head, size, between, hcalls, hopened, hheaded⟩

/-- A piece that is longer than what is left of its body, and one that is as long. -/
theorem put_refused_too_long :
    let outbox := Outbox.start none
    let head : ResponseHead := ⟨⟨200⟩, .http11, .empty⟩
    let calls : List WriterCall :=
      [.put (.head head (.length 5)), .put (.item (.chunk (Bytes.ofText "ab")))]
    let reached := outbox.after calls
    outbox.writer = .start ∧
    (∃ fault next, reached.put (.item (.chunk (Bytes.ofText "cdef"))) = (.error fault, next) ∧
      next.buffer = reached.buffer ∧ next = reached ∧
      ∀ later, next.answers later = reached.answers later) ∧
    ∃ next, reached.put (.item (.chunk (Bytes.ofText "cde"))) = (.ok (), next) ∧
      ∃ earlier head size between, calls = earlier ++ .put (.head head size) :: between ∧
        outbox.OpenedBy earlier head size between ∧
        (outbox.Headed earlier head size reached ↔
          ¬ (outbox.after earlier).writer.OpensUnheaded (.head head size)) := by
  intro outbox head calls reached
  have hrefused : reached.put (.item (.chunk (Bytes.ofText "cdef"))) =
      (.error (ResponseWriter.Flaw.misfit (.exceeds 1)).fault, reached) := rfl
  have htaken : (reached.put (.item (.chunk (Bytes.ofText "cde")))).1 = .ok () := rfl
  have hstart : outbox.writer = .start := rfl
  obtain ⟨hbuffer, hkept, hanswers⟩ := (put_refused hstart calls _).1 _ _ hrefused
  exact ⟨hstart, ⟨_, _, hrefused, hbuffer, hkept.mpr id, hanswers.mpr id⟩, _,
    Prod.ext htaken rfl, (put_refused hstart calls _).2 _ _ rfl (Prod.ext htaken rfl)⟩

/-- A refused head of HTTP/2 announces a chunked body, and a chunk is written without any head. -/
theorem put_refused_then_chunk :
    let outbox := Outbox.start none
    let refused := outbox.put (.head ⟨⟨200⟩, .http2, .empty⟩ .chunked)
    let chunk : Message ResponseHead := .item (.chunk (Bytes.ofText "x"))
    refused.1 = .error (ResponseWriter.Flaw.unsupportedVersion .http2).fault ∧
    refused.2.writer ≠ outbox.writer ∧
    (outbox.put chunk).1 = .error ResponseWriter.Flaw.noHead.fault ∧
    (refused.2.put chunk).1 = .ok () ∧
    (refused.2.put chunk).2.buffer = Bytes.ofText "1\r\nx\r\n" := by
  exact ⟨rfl, by decide, rfl, rfl, by decide⟩

end Outbox

end Turnpike
