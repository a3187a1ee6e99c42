import Turnpike.Payload.Encoder
import Turnpike.Proofs.Payload.Feeding
import Turnpike.Proofs.Text.Digits

/-!
Bodies written and read back.  A counted body is written if its pieces add up to its count, a chunked
one always; the decoder of the same size then finds the data again and stops where the body stops.
-/

namespace Turnpike

namespace PayloadEncoder

/-- What the pieces come to one after the other, as long as none is refused. -/
def encodeAll : PayloadEncoder → List PayloadItem → Except Flaw Bytes
  | _, [] => .ok []
  | encoder, item :: items =>
    match encoder.encode item with
    | .error flaw => .error flaw
    | .ok (bytes, next) => (next.encodeAll items).map (bytes ++ ·)

def encodeBody (encoder : PayloadEncoder) (chunks : List Bytes) : Except Flaw Bytes :=
  encoder.encodeAll (chunks.map .chunk ++ [.eof])

/-- Between two chunks a counted body is so many octets short. -/
theorem encodeBody_length (octets : Nat) (chunks : List Bytes) (bytes : Bytes) :
    (length octets false).encodeBody chunks = .ok bytes ↔
      chunks.flatten.length = octets ∧ bytes = chunks.flatten := by
  unfold encodeBody
  induction chunks generalizing octets bytes with
  | nil =>
      by_cases hshort : octets > 0
      · have hrefused : (length octets false).encode .eof = .error (.short octets) := if_pos hshort
        simp only [List.map_nil, List.nil_append, encodeAll, hrefused]
        constructor
        · nofun
        · rintro ⟨rfl, -⟩
          contradiction
      · obtain rfl : octets = 0 := by omega
        have hdone : (length 0 false).encode .eof = .ok ([], .length 0 true) := rfl
        simp [encodeAll, hdone, Except.map, eq_comm]
  | cons data chunks ih =>
      by_cases hlong : data.length > octets
      · have hrefused : (length octets false).encode (.chunk data) =
            .error (.exceeds (data.length - octets)) := if_pos hlong
        simp only [List.map_cons, List.cons_append, encodeAll, hrefused]
        constructor
        · nofun
        · rintro ⟨hlength, -⟩
          simp only [List.flatten_cons, List.length_append] at hlength
          omega
      · have hkept : (length octets false).encode (.chunk data) =
            .ok (data, .length (octets - data.length) false) := if_neg hlong
        simp only [List.map_cons, List.cons_append, encodeAll, hkept, List.flatten_cons,
          List.length_append]
        rcases hrest : encodeAll (length (octets - data.length) false)
          (chunks.map PayloadItem.chunk ++ [PayloadItem.eof]) with flaw | rest
        · constructor
          · nofun
          · rintro ⟨hlength, -⟩
            have hwritten := (ih (octets - data.length) chunks.flatten).mpr ⟨by omega, rfl⟩
            rw [hrest] at hwritten
            contradiction
        · obtain ⟨hlength, rfl⟩ := (ih _ _).mp hrest
          simp only [Except.map, Except.ok.injEq]
          constructor
          · rintro rfl
            exact ⟨by omega, rfl⟩
          · rintro ⟨-, rfl⟩
            rfl

theorem encodeBody_chunked (chunks : List Bytes) :
    (chunked false).encodeBody chunks = .ok (chunks.flatMap chunk ++ lastChunk) := by
  unfold encodeBody
  induction chunks with
  | nil => rfl
  | cons data chunks ih =>
      have hkept : (chunked false).encode (.chunk data) = .ok (chunk data, .chunked false) := rfl
      simp only [List.map_cons, List.cons_append, encodeAll, hkept, ih, Except.map,
        List.flatMap_cons, List.append_assoc]

/-- What a body of the size is written as; a size without a body has no encoder. -/
def Writes (size : PayloadSize) (chunks : List Bytes) (bytes : Bytes) : Prop :=
  ∃ encoder, ofSize? size = some encoder ∧ encoder.encodeBody chunks = .ok bytes

theorem writes_length {octets : Nat} {chunks : List Bytes} {bytes : Bytes} :
    Writes (.length octets) chunks bytes ↔
      chunks.flatten.length = octets ∧ bytes = chunks.flatten := by
  simp [Writes, ofSize?, encodeBody_length]

theorem writes_chunked {chunks : List Bytes} {bytes : Bytes} :
    Writes .chunked chunks bytes ↔ bytes = chunks.flatMap chunk ++ lastChunk := by
  simp [Writes, ofSize?, encodeBody_chunked, eq_comm]

theorem not_writes_empty {chunks : List Bytes} {bytes : Bytes} : ¬ Writes .empty chunks bytes := by
  simp [Writes, ofSize?]

end PayloadEncoder

/-! The framing of chunks. -/

namespace ChunkedDecoder

open PayloadEncoder Number

/-- The digits of a size that fits a word are read as the size. -/
theorem decode_hexadecimal {octets : Nat} (hword : octets < wordLimit) (rest : Bytes) :
    decode .sizeStart (hexadecimal octets ++ rest) = decode (.size octets) rest := by
  unfold hexadecimal
  refine digits_induction (by decide : 1 < 16) (motive := fun octets ds => octets < wordLimit →
    ∀ rest, decode .sizeStart (ds.map digitByte ++ rest) = decode (.size octets) rest)
    ?single ?concat octets hword rest
  case single =>
    intro d hd _ rest
    refine decode_cons ?_ rest
    simp only [step, hexValue?_digitByte hd]
  case concat =>
    intro octets d ds hd ih hword rest
    rw [List.map_append, List.append_assoc, ih (by omega)]
    refine decode_cons ?_ rest
    simp only [step, hexValue?_digitByte hd, addDigit, if_pos hword]

theorem decode_sizeLine {octets : Nat} (hword : octets < wordLimit) (rest : Bytes) :
    decode .sizeStart (hexadecimal octets ++ lineEnd ++ rest) =
      decode (if octets = 0 then .trailerStart else .data octets) rest := by
  have hcr : (size octets).step Byte.cr = .ok (.sizeLf octets) := rfl
  have hlf : (sizeLf octets).step Byte.lf =
      .ok (if octets = 0 then .trailerStart else .data octets) := rfl
  rw [List.append_assoc, decode_hexadecimal hword]
  exact (decode_cons hcr _).trans (decode_cons hlf rest)

theorem decode_dataEnd (rest : Bytes) : decode .dataCr (lineEnd ++ rest) = decode .sizeStart rest := by
  have hcr : dataCr.step Byte.cr = .ok .dataLf := rfl
  have hlf : dataLf.step Byte.lf = .ok .sizeStart := rfl
  exact (decode_cons hcr _).trans (decode_cons hlf rest)

theorem decode_chunk {data : Bytes} (hdata : data ≠ []) (hword : data.length < wordLimit)
    (rest : Bytes) :
    decode .sizeStart (chunk data ++ rest) =
      ⟨.ok (some (.chunk data)), .dataCr, lineEnd ++ rest⟩ := by
  have hsize : data.length ≠ 0 := by simpa using hdata
  have hempty : data.isEmpty = false := by simpa using hdata
  have hshape : chunk data ++ rest =
      hexadecimal data.length ++ lineEnd ++ (data ++ (lineEnd ++ rest)) := by
    simp only [chunk, hempty, Bool.false_eq_true, if_false, List.append_assoc]
  have hafter : afterData data.length data.length = .dataCr := if_pos (Nat.le_refl _)
  rw [hshape, decode_sizeLine hword, if_neg hsize, decode_data _ (by simp [hdata]),
    List.take_left, List.drop_left, hafter]

theorem decode_lastChunk (rest : Bytes) :
    decode .sizeStart (lastChunk ++ rest) = ⟨.ok (some .eof), .done, rest⟩ := by
  have hword : 0 < wordLimit := by decide
  have hcr : trailerStart.step Byte.cr = .ok .endLf := rfl
  have hlf : endLf.step Byte.lf = .ok .done := rfl
  rw [lastChunk, List.append_assoc, decode_sizeLine hword, if_pos rfl]
  exact ((decode_cons hcr _).trans (decode_cons hlf rest)).trans (decode_done rest)

end ChunkedDecoder

namespace PayloadDecoder

open PayloadEncoder Number

theorem decode_chunked {state next : ChunkedDecoder} {bytes rest : Bytes}
    {outcome : Except RequestFault (Option PayloadItem)}
    (h : state.decode bytes = ⟨outcome, next, rest⟩) :
    (chunked state).decode bytes = ⟨outcome, .chunked next, rest⟩ := by
  rw [decode, h]
  rfl

/-- A chunk on the wire is a piece of its data; one of no data is not on the wire at all. -/
theorem drain_chunk {data : Bytes} (hword : data.length < wordLimit) (rest : Bytes) :
    ((chunked .start).drain (chunk data ++ rest)).Agrees
      (((chunked .start).drain rest).after [data]) := by
  have hstart : (chunked .start).IsProper := isProper_ofSize .chunked
  by_cases hdata : data = []
  · subst hdata
    exact ⟨by simp [Drained.after, chunk], rfl, rfl, rfl⟩
  · have hdecode := decode_chunked (ChunkedDecoder.decode_chunk hdata hword rest)
    have hend : (chunked .dataCr).decode (lineEnd ++ rest) = (chunked .start).decode rest := by
      rw [decode, ChunkedDecoder.decode_dataEnd]
      rfl
    have hproper := isProper_next hstart hdecode
    have hdrain := drain_of_chunk_after hstart hdecode
    rw [drain_congr hproper hstart hend] at hdrain
    rw [hdrain]
    exact .refl _

theorem drain_chunks {chunks : List Bytes} (hwords : ∀ data ∈ chunks, data.length < wordLimit)
    (rest : Bytes) :
    ((chunked .start).drain (chunks.flatMap chunk ++ lastChunk ++ rest)).Agrees
      ⟨[chunks.flatten], .eof, .chunked .done, rest⟩ := by
  simp only [List.append_assoc]
  induction chunks with
  | nil =>
      have hlast : (chunked .start).drain (lastChunk ++ rest) = ⟨[], .eof, .chunked .done, rest⟩ :=
        drain_of_eof (decode_chunked (ChunkedDecoder.decode_lastChunk rest))
      rw [List.flatMap_nil, List.nil_append, hlast]
      exact ⟨rfl, rfl, rfl, rfl⟩
  | cons data chunks ih =>
      have hfirst := hwords data (List.mem_cons_self ..)
      have hlater := ih fun other hother => hwords other (List.mem_cons_of_mem _ hother)
      have hdrain := drain_chunk hfirst (chunks.flatMap chunk ++ (lastChunk ++ rest))
      rw [List.flatMap_cons, List.append_assoc]
      exact hdrain.trans ((hlater.after [data]).trans ⟨by simp [Drained.after], rfl, rfl, rfl⟩)

theorem drain_counted {octets : Nat} {data : Bytes} (hlength : data.length = octets)
    (rest : Bytes) :
    ((length octets).drain (data ++ rest)).Agrees ⟨[data], .eof, .length 0, rest⟩ := by
  have hproper : (length octets).IsProper := isProper_ofSize (.length octets)
  have hdone : (length 0).decode rest = ⟨.ok (some .eof), .length 0, rest⟩ := rfl
  by_cases hzero : octets = 0
  · subst hzero
    obtain rfl := List.length_eq_zero_iff.mp hlength
    rw [List.nil_append, drain_of_eof hdone]
    exact ⟨rfl, rfl, rfl, rfl⟩
  · have hne : data ++ rest ≠ [] := by
      intro hnil
      simp [(List.append_eq_nil_iff.mp hnil).1] at hlength
      omega
    have hdata : (length octets).decode (data ++ rest) =
        ⟨.ok (some (.chunk data)), .length 0, rest⟩ := by
      rw [decode, decodeLength_of_ne hzero hne, ← hlength, List.take_left, List.drop_left,
        List.length_append, Nat.sub_add_eq, Nat.sub_self, Nat.zero_sub]
      rfl
    rw [drain_of_chunk_after hproper hdata, drain_of_eof hdone]
    exact .refl _

theorem drain_written {size : PayloadSize} {chunks : List Bytes} {bytes : Bytes}
    (hwords : ∀ data ∈ chunks, data.length < wordLimit) (hwritten : Writes size chunks bytes)
    (rest : Bytes) :
    ∃ decoder, ((ofSize size).drain (bytes ++ rest)).Agrees
      ⟨[chunks.flatten], .eof, decoder, rest⟩ := by
  cases size with
  | length octets =>
      obtain ⟨hlength, rfl⟩ := writes_length.mp hwritten
      exact ⟨_, drain_counted hlength rest⟩
  | chunked =>
      obtain rfl := writes_chunked.mp hwritten
      exact ⟨_, drain_chunks hwords rest⟩
  | empty => exact absurd hwritten not_writes_empty

/-- A counted body is written if and only if it is as long as announced, a chunked one always.  What
is written is read back, however it arrives and whatever comes behind it; that a size without a body
has no encoder goes with a decoder that takes nothing. -/
theorem drainFeeds_written {chunks : List Bytes}
    (hwords : ∀ data ∈ chunks, data.length < wordLimit) :
    (∀ octets, (∃ bytes, Writes (.length octets) chunks bytes) ↔ chunks.flatten.length = octets) ∧
    (∃ bytes, Writes .chunked chunks bytes) ∧
    (∀ size bytes, Writes size chunks bytes → ∀ feeds rest, feeds.flatten = bytes ++ rest →
      let drained := (ofSize size).drainFeeds [] feeds
      drained.chunks.flatten = chunks.flatten ∧ drained.stop = .eof ∧ drained.rest = rest) ∧
    PayloadEncoder.ofSize? .empty = none ∧
    ∀ feeds, let drained := (ofSize .empty).drainFeeds [] feeds
      drained.chunks.flatten = [] ∧ drained.stop = .eof ∧ drained.rest = feeds.flatten := by
  refine ⟨fun octets => ?counted, ?chunked, ?read, rfl, fun feeds => ?none⟩
  case counted =>
    constructor
    · intro hwritten
      obtain ⟨bytes, hwritten⟩ := hwritten
      exact (writes_length.mp hwritten).1
    · intro hlength
      exact ⟨_, writes_length.mpr ⟨hlength, rfl⟩⟩
  case chunked => exact ⟨_, writes_chunked.mpr rfl⟩
  case read =>
    intro size bytes hwritten feeds rest hfeeds
    have hfed := agrees_drainFeeds feeds (isProper_ofSize size) []
    obtain ⟨decoder, hdrain⟩ := drain_written hwords hwritten rest
    rw [List.nil_append, hfeeds] at hfed
    have hread := hfed.trans hdrain
    exact ⟨hread.data.trans (by simp), hread.stop, hread.rest⟩
  case none =>
    have hfed := agrees_drainFeeds feeds (isProper_ofSize .empty) []
    have hnone : (ofSize .empty).drain feeds.flatten = ⟨[], .eof, .empty, feeds.flatten⟩ :=
      drain_of_eof rfl
    rw [List.nil_append, hnone] at hfed
    exact ⟨hfed.data, hfed.stop, hfed.rest⟩

/-- Two chunks that look like framing, and an empty one between them; the feeds cut a size line, the
data and the end of the body. -/
theorem drainFeeds_written_with_empty_chunk :
    let chunks := [Bytes.ofText "\r\n", [], Bytes.ofText "0"]
    let counted := Bytes.ofText "\r\n0"
    let chunked := Bytes.ofText "2\r\n\r\n\r\n1\r\n0\r\n0\r\n\r\n"
    let feeds := [Bytes.ofText "2\r", Bytes.ofText "\n\r\n\r\n1\r\n0", [],
      Bytes.ofText "\r\n0\r\n\r", Bytes.ofText "\nGET"]
    (∀ data ∈ chunks, data.length < wordLimit) ∧
    Writes (.length 3) chunks counted ∧ Writes .chunked chunks chunked ∧
    feeds.flatten = chunked ++ Bytes.ofText "GET" ∧
    ((ofSize (.length 3)).drainFeeds [] [counted ++ Bytes.ofText "GET"]).rest = Bytes.ofText "GET" ∧
    ((ofSize .chunked).drainFeeds [] feeds).chunks.flatten = counted ∧
    ((ofSize .chunked).drainFeeds [] feeds).rest = Bytes.ofText "GET" := by
  intro chunks counted chunked feeds
  have hwords : ∀ data ∈ chunks, data.length < wordLimit := by decide
  have hcounted : Writes (.length 3) chunks counted := writes_length.mpr (by decide)
  have hchunked : Writes .chunked chunks chunked := writes_chunked.mpr (by decide)
  have hfeeds : feeds.flatten = chunked ++ Bytes.ofText "GET" := by decide
  obtain ⟨-, -, hread, -⟩ := drainFeeds_written hwords
  obtain ⟨-, -, hleft⟩ := hread _ _ hcounted [counted ++ Bytes.ofText "GET"] _
    (List.append_nil _)
  obtain ⟨hdata, -, hrest⟩ := hread _ _ hchunked feeds _ hfeeds
  have hcontent : chunks.flatten = counted := by decide
  exact ⟨hwords, hcounted, hchunked, hfeeds, hleft, hdata.trans hcontent, hrest⟩

end PayloadDecoder

end Turnpike
