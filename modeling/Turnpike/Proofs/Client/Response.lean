import Turnpike.Proofs.Client.Head
import Turnpike.Proofs.Connection.Delivery

/-!
Responses as the client reads them.  The server frames a body by its hint, the client by the fields
of the response; unless the status says that there is no body, the two agree on where it ends.
-/

namespace Turnpike

namespace Received

open Fields

theorem get?_framed_length {fields : Fields} (h : fields.WellFormed) (octets : Nat) :
    (fields.framed (.length octets)).get? FieldName.transferEncoding = none ∧
      (fields.framed (.length octets)).get? FieldName.contentLength =
        some (Number.decimal octets) := by
  have hne : FieldName.transferEncoding ≠ FieldName.contentLength := by decide
  have herased := h.erase FieldName.transferEncoding
  simp only [get?, framed, herased.all_insert, herased.all_insert_of_ne hne, h.all_erase]
  exact ⟨rfl, rfl⟩

/-- The framing field that goes with a hint. -/
theorem get?_framed {fields : Fields} (h : fields.WellFormed) (hint : SizeHint) :
    (PayloadSize.ofHint hint = .chunked ∧
      (fields.framed (.ofHint hint)).get? FieldName.transferEncoding =
        some (Bytes.ofText "chunked")) ∨
    ∃ octets, hint.octets? = some octets ∧ PayloadSize.ofHint hint = .ofLength octets ∧
      (fields.framed (.ofHint hint)).get? FieldName.transferEncoding = none ∧
      (fields.framed (.ofHint hint)).get? FieldName.contentLength =
        some (Number.decimal octets) := by
  unfold PayloadSize.ofHint
  cases hoctets : hint.octets? with
  | none =>
      refine .inl ⟨rfl, ?_⟩
      rw [get?, framed, (h.erase _).all_insert]
      rfl
  | some octets =>
      have hframed : fields.framed (.ofLength octets) = fields.framed (.length octets) := by
        unfold PayloadSize.ofLength
        split
        · next hzero =>
          subst hzero
          rfl
        · rfl
      refine .inr ⟨octets, rfl, rfl, ?_⟩
      simp only [hframed]
      exact get?_framed_length h octets

theorem framing?_of_chunked {fields : Fields}
    (h : fields.get? FieldName.transferEncoding = some (Bytes.ofText "chunked")) :
    framing? fields = .ok (some .chunked) := by
  simp only [framing?, h, Option.any_some, Bytes.equalsIgnoringCase_iff, if_true]

theorem framing?_of_length {fields : Fields} {octets : Nat} (hword : octets < Number.wordLimit)
    (hcoding : fields.get? FieldName.transferEncoding = none)
    (hlength : fields.get? FieldName.contentLength = some (Number.decimal octets)) :
    framing? fields = .ok (some (.ofLength octets)) := by
  simp only [framing?, hcoding, hlength, Number.unsigned?_decimal hword, Option.any_none,
    Bool.false_eq_true, if_false]

/-- The framing field is read as the size that it was written for. -/
theorem framing?_framed {fields : Fields} (h : fields.WellFormed) {hint : SizeHint}
    (hword : ∀ octets, hint.octets? = some octets → octets < Number.wordLimit) :
    framing? (fields.framed (.ofHint hint)) = .ok (some (.ofHint hint)) := by
  rcases get?_framed h hint with ⟨hsize, hcoding⟩ | ⟨octets, hoctets, hsize, hcoding, hlength⟩
  · rw [framing?_of_chunked hcoding, hsize]
  · rw [framing?_of_length (hword octets hoctets) hcoding hlength, hsize]

theorem framedBody_written {size : PayloadSize} {chunks : List Bytes} {bytes : Bytes}
    (hwords : ∀ data ∈ chunks, data.length < Number.wordLimit)
    (hwrites : PayloadEncoder.Writes size chunks bytes) (rest : Bytes) (isClosed : Bool) :
    framedBody ⟨bytes ++ rest, isClosed⟩ size = .ok (chunks.flatten, ⟨rest, isClosed⟩) := by
  obtain ⟨decoder, hdrain⟩ := PayloadDecoder.drain_written hwords hwrites rest
  have hdata := hdrain.data
  simp only [List.flatten_cons, List.flatten_nil, List.append_nil] at hdata
  simp only [framedBody, hdrain.stop, hdata, hdrain.rest]
  rfl

theorem framedBody_empty (rest : Bytes) (isClosed : Bool) :
    framedBody ⟨rest, isClosed⟩ .empty = .ok ([], ⟨rest, isClosed⟩) := by
  have hnone : (PayloadDecoder.ofSize .empty).drain rest = ⟨[], .eof, .empty, rest⟩ :=
    PayloadDecoder.drain_of_eof rfl
  simp only [framedBody, hnone]
  rfl

theorem response_of_final {octets rest : Bytes} {isClosed isHead : Bool} {head : ResponseHead}
    (hread : ResponseHead.read octets = .done head rest) (hfinal : 200 ≤ head.status.code) :
    response ⟨octets, isClosed⟩ isHead = responseAfter ⟨rest, isClosed⟩ head isHead := by
  have hhead : Received.head ⟨octets, isClosed⟩ = .ok (head, ⟨rest, isClosed⟩) :=
    head_of_read hread (Nat.le_trans (by decide) hfinal)
  have hlate : head.status.isInformational = false := by
    simp only [Status.isInformational, Bool.and_eq_false_iff, decide_eq_false_iff_not]
    omega
  simp only [response, responseWithin, hhead, hlate, Bool.false_eq_true, if_false]

/-- With a status that has no body nothing is looked for. -/
theorem body_of_empty {status : Status} {fields : Fields} (h : fields.WellFormed) {hint : SizeHint}
    (hsize : PayloadSize.ofHint hint = .empty) (rest : Bytes) (isClosed : Bool) :
    body ⟨rest, isClosed⟩ status (fields.framed (.ofHint hint)) false =
      .ok ([], ⟨rest, isClosed⟩) := by
  have hword : ∀ octets, hint.octets? = some octets → octets < Number.wordLimit := by
    intro octets hoctets
    have hzero := PayloadSize.octets?_ofHint hint
    rw [hsize, hoctets] at hzero
    obtain rfl := Option.some.inj hzero
    decide
  have hframing := framing?_framed h hword
  rw [hsize] at hframing ⊢
  unfold body
  split
  · rfl
  · simp only [hframing, framedBody_empty]

theorem body_of_written {status : Status} {fields : Fields} (h : fields.WellFormed)
    {hint : SizeHint} {frames : List (Except HttpFault Frame)} (hkept : hint.IsKept frames)
    (hbody : isBodiless status false = false) {bytes : Bytes}
    (hwrites : PayloadEncoder.Writes (.ofHint hint) (ResponseBody.dataOf frames) bytes)
    (rest : Bytes) (isClosed : Bool) :
    body ⟨bytes ++ rest, isClosed⟩ status (fields.framed (.ofHint hint)) false =
      .ok ((ResponseBody.dataOf frames).flatten, ⟨rest, isClosed⟩) := by
  have hframing := framing?_framed h fun octets hoctets => (hkept.octets octets hoctets).1
  simp only [body, hbody, Bool.false_eq_true, if_false, hframing]
  exact framedBody_written hkept.words hwrites rest isClosed

theorem responseAfter_of_body {received rest : Received} {head : ResponseHead} {isHead : Bool}
    {data : Bytes} (h : received.body head.status head.fields isHead = .ok (data, rest)) :
    received.responseAfter head isHead = .ok (⟨head.status, head.fields, data⟩, rest) := by
  rw [responseAfter, h]

end Received

/-- A head that the client has room for. -/
structure ResponseHead.Readable (head : ResponseHead) (size : PayloadSize) : Prop where
  version : head.version = .http10 ∨ head.version = .http11
  final : 200 ≤ head.status.code
  status : head.status.code ≤ 999
  fields : head.fields.Writable
  count : (head.fields.framed size).count ≤ maxFields

namespace Outbox

open Received

/-- What is written for a response is read as its status, its fields as framed and its data, and
nothing behind it is touched, unless it is a body with a status that has none. -/
theorem response_sendParts {outbox : Outbox} (haccepting : outbox.Accepting) (hidle : outbox.Idle)
    {head : ResponseHead} {hint : SizeHint} {frames : List (Except HttpFault Frame)}
    (hhead : head.Readable (.ofHint hint)) (hkept : hint.IsKept frames)
    (hbody : isBodiless head.status false = true → PayloadSize.ofHint hint = .empty) :
    ∃ next bytes, outbox.sendParts head hint frames false = (.ok (), next) ∧
      next.sink.written = outbox.sink.written ++ bytes ∧
      (∀ rest isClosed, response ⟨bytes ++ rest, isClosed⟩ false =
        .ok (⟨head.status, head.fields.framed (.ofHint hint),
          (ResponseBody.dataOf frames).flatten⟩, ⟨rest, isClosed⟩)) ∧
      ∀ name, name ≠ FieldName.contentLength → name ≠ FieldName.transferEncoding →
        (head.fields.framed (.ofHint hint)).all name = head.fields.all name := by
  have hwellFormed := hhead.fields.wellFormed
  have hother : ∀ name, name ≠ FieldName.contentLength → name ≠ FieldName.transferEncoding →
      (head.fields.framed (.ofHint hint)).all name = head.fields.all name :=
    fun name hlength hcoding => hwellFormed.all_framed hlength hcoding _
  obtain ⟨encoded, hencoded, hread⟩ := ResponseHead.read_encoded hhead.version
    (Nat.le_trans (by decide) hhead.final) hhead.status hhead.fields hhead.count
  by_cases hsize : PayloadSize.ofHint hint = .empty
  · obtain ⟨next, hsent, -, -, hwritten⟩ :=
      (sendParts_delivers_head haccepting hidle.writer hencoded hsize).written hidle
    refine ⟨next, encoded, hsent, hwritten, fun rest isClosed => ?_, hother⟩
    rw [response_of_final (hread rest) hhead.final, hkept.eq_nil hsize]
    exact responseAfter_of_body (body_of_empty hwellFormed hsize rest isClosed)
  · obtain ⟨bytes, hwrites⟩ := hkept.writes hsize
    have hcarries : isBodiless head.status false = false := by
      rw [Bool.eq_false_iff]
      exact fun hbodiless => hsize (hbody hbodiless)
    obtain ⟨next, hsent, -, -, hwritten⟩ :=
      (sendParts_delivers_body haccepting hidle.writer hencoded hkept hwrites).written hidle
    refine ⟨next, encoded ++ bytes, hsent, hwritten, fun rest isClosed => ?_, hother⟩
    rw [List.append_assoc, response_of_final (hread (bytes ++ rest)) hhead.final]
    exact responseAfter_of_body (body_of_written hwellFormed hkept hcarries hwrites rest isClosed)

/-- A counted body in two pieces with trailers between them, read in front of other octets. -/
theorem response_sendParts_two_pieces :
    let head : ResponseHead := ⟨.ok, .http10, ⟨[(Bytes.ofText "x-a", [[], Bytes.ofText "b c"])]⟩⟩
    let frames : List (Except HttpFault Frame) :=
      [.ok (.data (Bytes.ofText "ab")), .ok (.trailers .empty), .ok (.data (Bytes.ofText "c"))]
    (start none).Accepting ∧ (start none).Idle ∧ head.Readable (.ofHint (.ofExact 3)) ∧
    (SizeHint.ofExact 3).IsKept frames ∧
    (isBodiless head.status false = true → PayloadSize.ofHint (.ofExact 3) = .empty) ∧
    ∃ next bytes, (start none).sendParts head (.ofExact 3) frames false = (.ok (), next) ∧
      next.sink.written = bytes ∧
      response ⟨bytes ++ Bytes.ofText "HTTP", false⟩ false =
        .ok (⟨.ok, head.fields.framed (.length 3), Bytes.ofText "abc"⟩,
          ⟨Bytes.ofText "HTTP", false⟩) := by
  intro head frames
  have hfields : head.fields.Writable :=
    ⟨⟨by decide, by decide⟩,
      by
        intro group hgroup
        obtain rfl := List.mem_singleton.mp hgroup
        exact ⟨by decide, List.all_eq_true.mp (by decide), by decide⟩,
      by
        intro group hgroup value hvalue
        obtain rfl := List.mem_singleton.mp hgroup
        rcases List.mem_cons.mp hvalue with rfl | hsecond
        · exact ⟨nofun, nofun, nofun⟩
        · obtain rfl := List.mem_singleton.mp hsecond
          exact ⟨List.all_eq_true.mp (by decide), by unfold Bytes.IsTight; decide +kernel⟩⟩
  have hhead : head.Readable (.ofHint (.ofExact 3)) :=
    ⟨.inl rfl, by decide, by decide, hfields, by decide⟩
  have hkept : (SizeHint.ofExact 3).IsKept frames := by
    refine ⟨by simp [frames], by decide, ?_⟩
    intro octets hoctets
    obtain rfl := Option.some.inj hoctets
    decide
  have hbody : isBodiless head.status false = true → PayloadSize.ofHint (.ofExact 3) = .empty := by
    decide
  have haccepting : (start none).Accepting := rfl
  obtain ⟨next, bytes, hsent, hwritten, hread, -⟩ :=
    response_sendParts haccepting (idle_start none) hhead hkept hbody
  exact ⟨haccepting, idle_start none, hhead, hkept, hbody, next, bytes, hsent, hwritten, hread _ _⟩

/-- A body with status 204 is written, but not read: it stands in front of what comes next. -/
theorem response_sendParts_no_content :
    let head : ResponseHead := ⟨.noContent, .http11, .empty⟩
    let frames : List (Except HttpFault Frame) := [.ok (.data (Bytes.ofText "x"))]
    head.Readable (.ofHint (.ofExact 1)) ∧ (SizeHint.ofExact 1).IsKept frames ∧
    ∃ next, (start none).sendParts head (.ofExact 1) frames false = (.ok (), next) ∧
      response ⟨next.sink.written ++ Bytes.ofText "HTTP", false⟩ false =
        .ok (⟨.noContent, head.fields.framed (.length 1), []⟩, ⟨Bytes.ofText "xHTTP", false⟩) := by
  intro head frames
  have hhead : head.Readable (.ofHint (.ofExact 1)) :=
    ⟨.inr rfl, by decide, by decide, ⟨Fields.wellFormed_empty, by simp [head, Fields.empty],
      by simp [head, Fields.empty]⟩, by decide⟩
  have hkept : (SizeHint.ofExact 1).IsKept frames := by
    refine ⟨by simp [frames], by decide, ?_⟩
    intro octets hoctets
    obtain rfl := Option.some.inj hoctets
    decide
  have haccepting : (start none).Accepting := rfl
  have hwrites : PayloadEncoder.Writes (.ofHint (.ofExact 1)) (ResponseBody.dataOf frames)
      (Bytes.ofText "x") := PayloadEncoder.writes_length.mpr ⟨by decide, by decide⟩
  obtain ⟨encoded, hencoded, hread⟩ := ResponseHead.read_encoded hhead.version (by decide)
    hhead.status hhead.fields hhead.count
  obtain ⟨next, hsent, -, -, hwritten⟩ := (sendParts_delivers_body haccepting rfl hencoded hkept
    hwrites).written (idle_start none)
  have hrest : Bytes.ofText "x" ++ Bytes.ofText "HTTP" = Bytes.ofText "xHTTP" := by decide
  refine ⟨hhead, hkept, next, hsent, ?_⟩
  rw [hwritten, List.append_assoc, List.append_assoc, hrest]
  rw [show (start none).sink.written = [] from rfl, List.nil_append,
    response_of_final (hread _) hhead.final]
  exact responseAfter_of_body rfl

end Outbox

end Turnpike
