import Turnpike.Proofs.Connection.Outbox
import Turnpike.Proofs.Connection.Written
import Turnpike.Proofs.Payload.RoundTrip
import Turnpike.Proofs.Wire.ResponseWriter

/-!
Responses that go out whole, with any body whose pieces the encoder of its size takes.
-/

namespace Turnpike

namespace PayloadEncoder

theorem encodeAll_cons_eq_ok {encoder : PayloadEncoder} {item : PayloadItem}
    {items : List PayloadItem} {bytes : Bytes} (h : encoder.encodeAll (item :: items) = .ok bytes) :
    ∃ first next later, encoder.encode item = .ok (first, next) ∧
      next.encodeAll items = .ok later ∧ bytes = first ++ later := by
  unfold encodeAll at h
  split at h
  · contradiction
  · next first next hfirst =>
    cases hlater : next.encodeAll items with
    | error flaw =>
        rw [hlater] at h
        contradiction
    | ok later =>
        rw [hlater] at h
        exact ⟨first, next, later, hfirst, hlater, (Except.ok.inj h).symm⟩

end PayloadEncoder

theorem Sent.andThen_assoc (sent : Sent) (next later : Outbox → Sent) :
    (sent.andThen next).andThen later = sent.andThen fun outbox => (next outbox).andThen later := by
  rcases sent with ⟨fault | _, outbox⟩ <;> rfl

namespace Outbox

/-- Writing that succeeds, adds these octets and leaves this writer. -/
def Delivers (outbox : Outbox) (bytes : Bytes) (writer : ResponseWriter) (sent : Sent) : Prop :=
  ∃ next, sent = (.ok (), next) ∧ next.Accepting ∧ next.writer = writer ∧
    next.gathered = outbox.gathered ++ bytes

variable {outbox : Outbox} {bytes : Bytes} {writer : ResponseWriter}

theorem Delivers.andThen {sent : Sent} {next : Outbox → Sent} {middle : ResponseWriter} {more : Bytes}
    (h : outbox.Delivers bytes middle sent)
    (hnext : ∀ after : Outbox, after.Accepting → after.writer = middle →
      after.Delivers more writer (next after)) :
    outbox.Delivers (bytes ++ more) writer (sent.andThen next) := by
  obtain ⟨after, rfl, haccepting, hwriter, hgathered⟩ := h
  obtain ⟨last, hlast, hstill, hleft, hmore⟩ := hnext after haccepting hwriter
  exact ⟨last, hlast, hstill, hleft, by rw [hmore, hgathered, List.append_assoc]⟩

theorem delivers_of_succeeds {sent : Sent} (hsucceeds : Succeeds sent writer)
    (hemits : outbox.Emits bytes writer sent) : outbox.Delivers bytes writer sent := by
  obtain ⟨next, rfl, haccepting, hwriter⟩ := hsucceeds
  exact ⟨next, rfl, haccepting, hwriter, hemits.2.1⟩

theorem Delivers.succeeds {sent : Sent} (h : outbox.Delivers bytes writer sent) :
    Succeeds sent writer := by
  obtain ⟨next, hsent, haccepting, hwriter, -⟩ := h
  exact ⟨next, hsent, haccepting, hwriter⟩

theorem feed_delivers (h : outbox.Accepting) {message : Message ResponseHead}
    (hencode : outbox.writer.encode message = (.ok bytes, writer)) :
    outbox.Delivers bytes writer (outbox.feed message) := by
  refine delivers_of_succeeds (feed_succeeds h hencode) (feed_emits ?_)
  intro found next hfound
  obtain ⟨hsame, rfl⟩ := Prod.mk.inj (hfound.symm.trans hencode)
  exact ⟨Except.ok.inj hsame, rfl⟩

theorem send_delivers (h : outbox.Accepting) {message : Message ResponseHead}
    (hencode : outbox.writer.encode message = (.ok bytes, writer)) :
    outbox.Delivers bytes writer (outbox.send message) := by
  refine delivers_of_succeeds (send_succeeds h hencode) (send_emits ?_)
  intro found next hfound
  obtain ⟨hsame, rfl⟩ := Prod.mk.inj (hfound.symm.trans hencode)
  exact ⟨Except.ok.inj hsame, rfl⟩

/-- The pieces of a body go out one by one, as the encoder encodes them. -/
theorem feedBody_delivers (h : outbox.Accepting) {encoder : PayloadEncoder}
    (hwriter : outbox.writer = ⟨some encoder⟩) (hopen : encoder.isFinished = false)
    {frames : List (Except HttpFault Frame)} (hframes : ∀ fault, .error fault ∉ frames)
    (hencode : encoder.encodeBody (ResponseBody.dataOf frames) = .ok bytes) :
    outbox.Delivers bytes .start
      ((outbox.feedFrames frames).andThen fun outbox => outbox.send (.item .eof)) := by
  induction frames generalizing outbox encoder bytes with
  | nil =>
      obtain ⟨last, next, later, hlast, hlater, rfl⟩ := PayloadEncoder.encodeAll_cons_eq_ok hencode
      obtain rfl := Except.ok.inj hlater
      have hfinished := (PayloadEncoder.encode_eof_eq_ok hlast).2
      have hend : outbox.writer.encode (.item .eof) = (.ok last, .start) := by
        rw [hwriter]
        simp only [ResponseWriter.encode, hlast, ResponseWriter.afterItem, hfinished, if_true]
        rfl
      rw [List.append_nil]
      exact send_delivers h hend
  | cons frame frames ih =>
      have hlater : ∀ fault, .error fault ∉ frames := fun fault hfault =>
        hframes fault (List.mem_cons_of_mem _ hfault)
      rcases frame with fault | data | fields
      · exact absurd (List.mem_cons_self ..) (hframes fault)
      · obtain ⟨first, next, rest, hfirst, hrest, rfl⟩ :=
          PayloadEncoder.encodeAll_cons_eq_ok hencode
        have hstill : next.isFinished = false := by
          rw [(PayloadEncoder.encode_chunk_eq_ok hfirst).2, encoder.isFinished_taking, hopen]
        have hpiece : outbox.writer.encode (.item (.chunk data)) =
            (.ok first, ⟨some next⟩) := by
          rw [hwriter]
          simp only [ResponseWriter.encode, hfirst, ResponseWriter.afterItem, hstill,
            Bool.false_eq_true, if_false]
        rw [feedFrames_data, Sent.andThen_assoc]
        exact (feed_delivers h hpiece).andThen fun after haccepting hafter =>
          ih haccepting hafter hstill hlater hrest
      · exact ih h hwriter hopen hlater hencode

end Outbox

/-- Its version can be written, and its body comes without a fault and as long as was announced. -/
structure Response.IsEncodable (response : Response) (isHead : Bool) : Prop where
  version : response.head.version = .http10 ∨ response.head.version = .http11
  frames : isHead = false → ∀ fault, .error fault ∉ response.body.frames
  kept : isHead = false → ∀ octets, PayloadSize.ofHint response.body.hint = .length octets →
    (ResponseBody.dataOf response.body.frames).flatten.length = octets

theorem Response.isEncodable_ofBytes {response : Response} {data : Bytes}
    (hversion : response.head.version = .http11) (hbody : response.body = .ofBytes data)
    (isHead : Bool) : response.IsEncodable isHead := by
  refine ⟨.inr hversion, ?_, ?_⟩
  · intro _ fault
    rw [hbody, ResponseBody.ofBytes]
    split <;> simp [ResponseBody.frames]
  · intro _ octets hsize
    rw [hbody, ResponseBody.ofBytes] at hsize ⊢
    split at hsize
    · contradiction
    · next hdata =>
      have hlength : PayloadSize.ofLength data.length = .length octets := by
        simpa [ResponseBody.hint] using hsize
      unfold PayloadSize.ofLength at hlength
      split at hlength
      · contradiction
      · rw [if_neg hdata]
        simpa [ResponseBody.frames, ResponseBody.dataOf] using hlength

/-- A body comes without a fault, and if its hint is exact it is as long as the hint says. -/
structure SizeHint.IsKept (hint : SizeHint) (frames : List (Except HttpFault Frame)) : Prop where
  faultless : ∀ fault, .error fault ∉ frames
  words : ∀ data ∈ ResponseBody.dataOf frames, data.length < Number.wordLimit
  octets : ∀ octets, hint.octets? = some octets →
    octets < Number.wordLimit ∧ (ResponseBody.dataOf frames).flatten.length = octets

theorem PayloadSize.octets?_ofHint (hint : SizeHint) : (ofHint hint).octets? = hint.octets? := by
  unfold ofHint
  cases hint.octets? with
  | none => rfl
  | some octets => exact octets?_ofLength octets

namespace SizeHint.IsKept

variable {hint : SizeHint} {frames : List (Except HttpFault Frame)}

theorem eq_nil (h : hint.IsKept frames) (hsize : PayloadSize.ofHint hint = .empty) :
    (ResponseBody.dataOf frames).flatten = [] := by
  have hoctets := PayloadSize.octets?_ofHint hint
  rw [hsize] at hoctets
  exact List.length_eq_zero_iff.mp (h.octets 0 hoctets.symm).2

theorem writes (h : hint.IsKept frames) (hsize : PayloadSize.ofHint hint ≠ .empty) :
    ∃ bytes, PayloadEncoder.Writes (.ofHint hint) (ResponseBody.dataOf frames) bytes := by
  have hoctets := PayloadSize.octets?_ofHint hint
  cases hfound : PayloadSize.ofHint hint with
  | length octets =>
      rw [hfound] at hoctets
      exact ⟨_, PayloadEncoder.writes_length.mpr ⟨(h.octets octets hoctets.symm).2, rfl⟩⟩
  | chunked => exact ⟨_, PayloadEncoder.writes_chunked.mpr rfl⟩
  | empty => exact absurd hfound hsize

end SizeHint.IsKept

namespace Outbox

variable {outbox : Outbox} {head : ResponseHead} {hint : SizeHint}
  {frames : List (Except HttpFault Frame)} {encoded : Bytes}

theorem encode_head_of_start (hwriter : outbox.writer = .start)
    (hencoded : head.encode? (.ofHint hint) = some encoded) :
    outbox.writer.encode (.head head (.ofHint hint)) =
      (.ok encoded, ⟨PayloadEncoder.ofSize? (.ofHint hint)⟩) :=
  ResponseWriter.encode_head_of_some (congrArg ResponseWriter.body hwriter) hencoded

/-- A response that can be encoded goes out and leaves room for the next one. -/
theorem sendResponse_ready (h : outbox.Ready) {response : Response} {isHead : Bool}
    (hencodable : response.IsEncodable isHead) :
    ∃ next, outbox.sendResponse response isHead = (.ok (), next) ∧ next.Ready := by
  obtain ⟨bytes, hencoded⟩ :
      ∃ bytes, response.head.encode? (.ofHint response.body.hint) = some bytes := by
    rcases hencodable.version with hversion | hversion <;> simp [ResponseHead.encode?, hversion]
  have hhead := encode_head_of_start h.writer hencoded
  have hsent : Succeeds (outbox.sendResponse response isHead) .start := by
    unfold sendResponse sendParts
    simp only
    split
    · exact (send_succeeds h.accepting hhead).andThen fun next haccepting _ =>
        ⟨_, rfl, haccepting, rfl⟩
    · next hbody =>
      obtain ⟨hisHead, hsize⟩ := Bool.or_eq_false_iff.mp (Bool.not_eq_true _ ▸ hbody)
      obtain ⟨body, encoder, hencoder, hencode⟩ : ∃ body, PayloadEncoder.Writes
          (.ofHint response.body.hint) (ResponseBody.dataOf response.body.frames) body := by
        cases hfound : PayloadSize.ofHint response.body.hint with
        | length octets =>
            exact ⟨_, PayloadEncoder.writes_length.mpr ⟨hencodable.kept hisHead octets hfound, rfl⟩⟩
        | chunked => exact ⟨_, PayloadEncoder.writes_chunked.mpr rfl⟩
        | empty =>
            rw [hfound] at hsize
            contradiction
      rw [hencoder] at hhead
      exact (feed_succeeds h.accepting hhead).andThen fun next haccepting hwriter =>
        (feedBody_delivers haccepting hwriter (PayloadEncoder.isFinished_of_ofSize? hencoder)
          (hencodable.frames hisHead) hencode).succeeds
  obtain ⟨next, hsend, haccepting, hwriter⟩ := hsent
  exact ⟨next, hsend, haccepting, hwriter⟩

theorem sendParts_delivers_head (h : outbox.Accepting) (hwriter : outbox.writer = .start)
    (hencoded : head.encode? (.ofHint hint) = some encoded)
    (hsize : PayloadSize.ofHint hint = .empty) :
    outbox.Delivers encoded .start (outbox.sendParts head hint frames false) := by
  have hempty : (PayloadSize.ofHint hint).isEmpty = true := PayloadSize.isEmpty_iff.mpr hsize
  simp only [sendParts, hempty, Bool.or_true, if_true]
  rw [← List.append_nil encoded]
  refine (send_delivers h (encode_head_of_start hwriter hencoded)).andThen ?_
  intro after haccepting _
  exact ⟨_, rfl, haccepting, rfl, (List.append_nil _).symm⟩

theorem sendParts_delivers_body (h : outbox.Accepting) (hwriter : outbox.writer = .start)
    (hencoded : head.encode? (.ofHint hint) = some encoded) (hkept : hint.IsKept frames)
    {bytes : Bytes}
    (hwrites : PayloadEncoder.Writes (.ofHint hint) (ResponseBody.dataOf frames) bytes) :
    outbox.Delivers (encoded ++ bytes) .start (outbox.sendParts head hint frames false) := by
  have hsize : (PayloadSize.ofHint hint).isEmpty = false := by
    rw [Bool.eq_false_iff]
    intro hempty
    rw [PayloadSize.isEmpty_iff.mp hempty] at hwrites
    exact PayloadEncoder.not_writes_empty hwrites
  obtain ⟨encoder, hencoder, hbody⟩ := hwrites
  simp only [sendParts, hsize, Bool.or_self, Bool.false_eq_true, if_false]
  refine (feed_delivers h (encode_head_of_start hwriter hencoded)).andThen ?_
  intro after haccepting hafter
  rw [hencoder] at hafter
  exact feedBody_delivers haccepting hafter (PayloadEncoder.isFinished_of_ofSize? hencoder)
    hkept.faultless hbody

/-- What is delivered in full stands behind all that was written before it. -/
theorem Delivers.written {bytes : Bytes} (hidle : outbox.Idle)
    (h : outbox.Delivers bytes .start (outbox.sendParts head hint frames false)) :
    ∃ next, outbox.sendParts head hint frames false = (.ok (), next) ∧ next.Accepting ∧
      next.Idle ∧ next.sink.written = outbox.sink.written ++ bytes := by
  obtain ⟨next, hsent, haccepting, hwriter, hgathered⟩ := h
  have hbuffer := buffer_of_sendParts hsent
  simp only [gathered, hidle.buffer, hbuffer, List.append_nil] at hgathered
  exact ⟨next, hsent, haccepting, ⟨hwriter, hbuffer⟩, hgathered⟩

end Outbox

end Turnpike
