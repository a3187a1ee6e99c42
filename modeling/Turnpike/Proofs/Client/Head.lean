import Turnpike.Client.Response
import Turnpike.Proofs.Wire.ResponseHead

/-!
Heads of responses as the client reads them.  Whatever framing fields a handler has set, the client
finds the one that goes with the size of the body, and the other fields as they were.
-/

namespace Turnpike

namespace Received

open Fields

theorem head_of_read {octets rest : Bytes} {isClosed : Bool} {head : ResponseHead}
    (hread : ResponseHead.read octets = .done head rest) (hleast : minStatus ≤ head.status.code) :
    Received.head ⟨octets, isClosed⟩ = .ok (head, ⟨rest, isClosed⟩) := by
  simp only [Received.head, hread, if_neg (Nat.not_lt.mpr hleast)]
  rfl

/-- A head that has room is written, and it is read back from in front of anything: its status, its
own values under each name, one framing field, which is that of the size, and nothing more. -/
theorem head_encoded {head : ResponseHead} {size : PayloadSize}
    (hversion : head.version = .http10 ∨ head.version = .http11)
    (hleast : minStatus ≤ head.status.code) (hmost : head.status.code ≤ 999)
    (hfields : head.fields.Writable)
    (hcount : (head.fields.framed size).count ≤ ResponseHead.maxFields) :
    ∃ bytes, head.encode? size = some bytes ∧ ∀ rest isClosed,
      ∃ found, Received.head ⟨bytes ++ rest, isClosed⟩ = .ok (found, ⟨rest, isClosed⟩) ∧
        found.status = head.status ∧
        (∀ name ∈ framingNames, found.fields.all name =
          if name = (framingField size).1 then [(framingField size).2] else []) ∧
        ∀ name ∉ framingNames, found.fields.all name = head.fields.all name := by
  obtain ⟨bytes, hencoded, hread⟩ :=
    ResponseHead.read_encoded hversion hleast hmost hfields hcount
  refine ⟨bytes, hencoded, fun rest isClosed => ?_⟩
  refine ⟨_, head_of_read (hread rest) hleast, rfl, fun name hname => ?_, fun name hname => ?_⟩
  · exact hfields.wellFormed.all_framed_of_mem hname
  · exact hfields.wellFormed.all_framed_of_not_mem hname size

/-- Two lengths and a coding of the handler, a value that is empty and one with octets above ASCII,
in front of what looks like one more field. -/
theorem head_encoded_conflicting_framing :
    let head : ResponseHead := ⟨⟨404⟩, .http10,
      ⟨[(FieldName.contentLength, [Bytes.ofText "7", Bytes.ofText "8"]),
        (FieldName.transferEncoding, [Bytes.ofText "gzip"]),
        (Bytes.ofText "x-a", [[], [255, 58, 32, 9, 128]])]⟩⟩
    (head.version = .http10 ∨ head.version = .http11) ∧ minStatus ≤ head.status.code ∧
    head.status.code ≤ 999 ∧ head.fields.Writable ∧
    (head.fields.framed .chunked).count ≤ ResponseHead.maxFields ∧
    ∃ bytes found, head.encode? .chunked = some bytes ∧
      Received.head ⟨bytes ++ Bytes.ofText "x-b: c\r\n\r\n", false⟩ =
        .ok (found, ⟨Bytes.ofText "x-b: c\r\n\r\n", false⟩) ∧
      found.status = ⟨404⟩ ∧ found.fields.all FieldName.contentLength = [] ∧
      found.fields.all FieldName.transferEncoding = [Bytes.ofText "chunked"] ∧
      found.fields.all (Bytes.ofText "x-a") = [[], [255, 58, 32, 9, 128]] ∧
      found.fields.all (Bytes.ofText "x-b") = [] := by
  intro head
  have hversion : head.version = .http10 ∨ head.version = .http11 := .inl rfl
  have hfields : head.fields.Writable := by decide +kernel
  have hcount : (head.fields.framed .chunked).count ≤ ResponseHead.maxFields := by decide
  obtain ⟨bytes, hencoded, hread⟩ :=
    head_encoded hversion (by decide) (by decide) hfields hcount
  obtain ⟨found, hfound, hstatus, hframing, hothers⟩ := hread (Bytes.ofText "x-b: c\r\n\r\n") false
  refine ⟨hversion, by decide, by decide, hfields, hcount, bytes, found, hencoded, hfound, hstatus,
    ?_, ?_, ?_, ?_⟩
  · exact (hframing _ (by decide)).trans (by decide)
  · exact (hframing _ (by decide)).trans (by decide)
  · exact (hothers _ (by decide)).trans (by decide)
  · exact (hothers _ (by decide)).trans (by decide)

end Received

end Turnpike
