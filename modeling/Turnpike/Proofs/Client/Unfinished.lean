import Turnpike.Proofs.Client.Response

/-!
Responses that break off.  A body that fails, or ends too early, leaves no octets behind that the
client could take for a response: the framing of the body tells that something is missing, whatever
the data looks like.
-/

namespace Turnpike

/-! Bodies without their end. -/

namespace PayloadDecoder

/-- The front of a body of this size, with octets missing. -/
def IsFront (size : PayloadSize) (front : Bytes) : Prop :=
  ∃ missing, missing ≠ [] ∧ ((ofSize size).drain (front ++ missing)).stop = .eof ∧
    ((ofSize size).drain (front ++ missing)).rest = []

variable {size : PayloadSize} {front : Bytes}

theorem IsFront.of_append {before more : Bytes} (h : IsFront size (before ++ more)) :
    IsFront size before := by
  obtain ⟨missing, hmissing, hstop, hrest⟩ := h
  rw [List.append_assoc] at hstop hrest
  exact ⟨more ++ missing, by simp [hmissing], hstop, hrest⟩

theorem IsFront.stop (h : IsFront size front) : ((ofSize size).drain front).stop = .more := by
  obtain ⟨missing, hmissing, hstop, hrest⟩ := h
  exact stop_of_front (isProper_ofSize size) hmissing hstop hrest

/-- What pieces are encoded as, as long as they are fewer than announced or nothing is announced. -/
theorem isFront_pieces {encoder : PayloadEncoder}
    (hencoder : PayloadEncoder.ofSize? size = some encoder) {pieces : List Bytes}
    (hwords : ∀ data ∈ pieces, data.length < Number.wordLimit)
    (hshort : ∀ octets, size = .length octets → pieces.flatten.length < octets) :
    IsFront size (pieces.flatMap encoder.piece) := by
  cases size with
  | length octets =>
      obtain rfl := Option.some.inj hencoder
      have hless := hshort octets rfl
      have hlength : (pieces.flatten ++
          List.replicate (octets - pieces.flatten.length) 0).length = octets := by
        rw [List.length_append, List.length_replicate]
        omega
      have hdrain := drain_counted hlength []
      rw [List.append_nil] at hdrain
      rw [PayloadEncoder.piece_length, List.flatMap_id]
      refine ⟨_, ?_, hdrain.stop, hdrain.rest⟩
      rw [ne_eq, List.replicate_eq_nil_iff]
      omega
  | chunked =>
      obtain rfl := Option.some.inj hencoder
      have hdrain := drain_chunks hwords []
      rw [List.append_nil] at hdrain
      exact ⟨PayloadEncoder.lastChunk, by simp [PayloadEncoder.lastChunk, PayloadEncoder.lineEnd],
        hdrain.stop, hdrain.rest⟩
  | empty => contradiction

end PayloadDecoder

/-! What the client makes of them. -/

/-- A head behind which the client looks for a body, with fields such as a map of fields can hold. -/
structure ResponseHead.BearsBody (head : ResponseHead) : Prop where
  final : 200 ≤ head.status.code
  status : head.status.code ≤ 999
  carries : Received.isBodiless head.status false = false
  fields : head.fields.Encodable

namespace Received

open Fields Wire

/-- No front of these octets reads as a response to a request other than `HEAD`, whether more may
come or the connection is closed there. -/
def Unfinished (octets : Bytes) : Prop :=
  ∀ front isClosed answer, front <+: octets → response ⟨front, isClosed⟩ false ≠ .ok answer

theorem Unfinished.of_append {front more : Bytes} (h : Unfinished (front ++ more)) :
    Unfinished front :=
  fun first isClosed answer hfirst =>
    h first isClosed answer (hfirst.trans (List.prefix_append front more))

theorem exists_read_of_response {octets : Bytes} {isClosed isHead : Bool}
    {answer : ClientResponse × Received} (h : response ⟨octets, isClosed⟩ isHead = .ok answer) :
    ∃ head rest, ResponseHead.read octets = .done head rest := by
  unfold response responseWithin Received.head at h
  cases hread : ResponseHead.read octets with
  | done head rest => exact ⟨head, rest, rfl⟩
  | more => simp [hread] at h
  | bad flaw => simp [hread] at h

theorem unfinished_nil : Unfinished [] := by
  intro front isClosed answer hfront hanswer
  obtain rfl := List.prefix_nil.mp hfront
  obtain ⟨head, rest, hread⟩ := exists_read_of_response hanswer
  contradiction

theorem unfinished_of_bad {octets : Bytes} {flaw : Flaw} (h : ResponseHead.read octets = .bad flaw) :
    Unfinished octets := by
  intro front isClosed answer hfront hanswer
  obtain ⟨later, rfl⟩ := hfront
  obtain ⟨head, rest, hread⟩ := exists_read_of_response hanswer
  rw [incremental_read.done_append hread later] at h
  contradiction

theorem unfinished_of_front {octets front : Bytes} {head : ResponseHead} {size : PayloadSize}
    (hread : ResponseHead.read octets = .done head front) (hfinal : 200 ≤ head.status.code)
    (hcarries : isBodiless head.status false = false)
    (hframing : framing? head.fields = .ok (some size)) (hfront : PayloadDecoder.IsFront size front) :
    Unfinished octets := by
  intro start isClosed answer hstart hanswer
  obtain ⟨later, rfl⟩ := hstart
  obtain ⟨found, rest, hfound⟩ := exists_read_of_response hanswer
  -- the head that is read from a front is the head of all, and its body a front of the body
  have hsame := incremental_read.done_append hfound later
  obtain ⟨rfl, rfl⟩ := Reading.done.inj (hread.symm.trans hsame)
  have hstop := hfront.of_append.stop
  rw [response_of_final hfound hfinal] at hanswer
  simp only [responseAfter, body, hcarries, Bool.false_eq_true, if_false, hframing, framedBody,
    hstop] at hanswer
  contradiction

theorem get?_trimmed {fields : Fields} (h : fields.Encodable) (name : FieldName) :
    fields.trimmed.get? name = (fields.get? name).map Bytes.trim := by
  rw [get?, h.all_trimmed, List.head?_map, get?]

/-- Blanks around the values of other fields do not touch the framing. -/
theorem framing?_trimmed {fields : Fields} (h : fields.Encodable) {hint : SizeHint}
    (hword : ∀ octets, hint.octets? = some octets → octets < Number.wordLimit) :
    framing? (fields.framed (.ofHint hint)).trimmed = .ok (some (.ofHint hint)) := by
  have htrimmed := get?_trimmed (h.framed (.ofHint hint))
  rcases get?_framed h.wellFormed hint with
    ⟨hsize, hcoding⟩ | ⟨octets, hoctets, hsize, hcoding, hlength⟩
  · rw [hsize] at hcoding htrimmed ⊢
    refine framing?_of_chunked ?_
    rw [htrimmed, hcoding, Option.map_some, isValue_chunked.tight.trim_eq]
  · rw [framing?_of_length (hword octets hoctets) ?_ ?_, hsize]
    · rw [htrimmed, hcoding, Option.map_none]
    · rw [htrimmed, hlength, Option.map_some, (isValue_decimal octets).tight.trim_eq]

theorem unfinished_encoded {head : ResponseHead} (hhead : head.BearsBody) {hint : SizeHint}
    (hword : ∀ octets, hint.octets? = some octets → octets < Number.wordLimit)
    {encoded : Bytes} (hencoded : head.encode? (.ofHint hint) = some encoded) {front : Bytes}
    (hfront : PayloadDecoder.IsFront (.ofHint hint) front) : Unfinished (encoded ++ front) := by
  rcases ResponseHead.read_of_encode? (Nat.le_trans (by decide) hhead.final) hhead.status
    hhead.fields hencoded front with hread | hbad
  · exact unfinished_of_front hread hhead.final hhead.carries (framing?_trimmed hhead.fields hword)
      hfront
  · exact unfinished_of_bad hbad

end Received

/-! What is written of them. -/

/-- A body that fails before all that was announced of it has come, or ends before. -/
inductive SizeHint.Lacks (hint : SizeHint) : List (Except HttpFault Frame) → Prop where
  | fails {before after : List (Except HttpFault Frame)} {fault : HttpFault}
      (short : ∀ octets, hint.octets? = some octets →
        (ResponseBody.dataOf before).flatten.length < octets) :
      Lacks hint (before ++ .error fault :: after)
  | ends {frames : List (Except HttpFault Frame)} {octets : Nat} (known : hint.octets? = some octets)
      (short : (ResponseBody.dataOf frames).flatten.length < octets) : Lacks hint frames

/-- Such a body, with lengths such as a word can hold. -/
structure SizeHint.FallsShort (hint : SizeHint) (frames : List (Except HttpFault Frame)) :
    Prop where
  lacks : hint.Lacks frames
  words : ∀ data ∈ ResponseBody.dataOf frames, data.length < Number.wordLimit
  octets : ∀ octets, hint.octets? = some octets → octets < Number.wordLimit

theorem SizeHint.Lacks.size_ne_empty {hint : SizeHint} {frames : List (Except HttpFault Frame)}
    (h : hint.Lacks frames) : PayloadSize.ofHint hint ≠ .empty := by
  intro hempty
  have hoctets := PayloadSize.octets?_ofHint hint
  rw [hempty] at hoctets
  cases h with
  | fails short => exact absurd (short 0 hoctets.symm) (Nat.not_lt_zero _)
  | ends known short =>
      obtain rfl := Option.some.inj (hoctets.trans known)
      exact absurd short (Nat.not_lt_zero _)

namespace Outbox

/-- Writing that fails, with no more than these octets gone out. -/
def Breaks (outbox : Outbox) (bytes : Bytes) (sent : Sent) : Prop :=
  ∃ fault next, sent = (.error fault, next) ∧ outbox.Grows next ∧
    next.sink.written <+: outbox.gathered ++ bytes

variable {outbox : Outbox} {bytes : Bytes} {writer : ResponseWriter}

theorem Breaks.andThen {sent : Sent} (h : outbox.Breaks bytes sent) (next : Outbox → Sent) :
    outbox.Breaks bytes (sent.andThen next) := by
  obtain ⟨fault, after, rfl, hgrows, hwritten⟩ := h
  exact ⟨fault, after, rfl, hgrows, hwritten⟩

theorem Emits.breaks {sent : Sent} {next : Outbox → Sent} {more : Bytes}
    (h : outbox.Emits bytes writer sent)
    (hnext : ∀ after : Outbox, after.writer = writer → after.Breaks more (next after)) :
    outbox.Breaks (bytes ++ more) (sent.andThen next) := by
  rcases sent with ⟨fault | _, after⟩
  · refine ⟨fault, after, rfl, h.1, h.2.trans ?_⟩
    rw [← List.append_assoc]
    exact List.prefix_append ..
  · obtain ⟨hgrows, hgathered, hwriter⟩ := h
    obtain ⟨fault, last, hlast, hstill, hwritten⟩ := hnext after hwriter
    refine ⟨fault, last, hlast, hgrows.trans hstill, ?_⟩
    rwa [hgathered, List.append_assoc] at hwritten

theorem breaks_of_refused (fault : ResponseFault) {next : Outbox} (hsame : next.sink = outbox.sink) :
    outbox.Breaks [] (.error fault, next) :=
  ⟨fault, next, rfl, ⟨hsame ▸ List.prefix_rfl, by rw [hsame]⟩, hsame ▸ written_gathered outbox []⟩

theorem feed_breaks {message : Message ResponseHead}
    (hrefused : ∀ found, (outbox.writer.encode message).1 ≠ .ok found) :
    outbox.Breaks [] (outbox.feed message) := by
  refine (flushIfFull_emits outbox).breaks ?_
  intro after hafter
  rw [← hafter] at hrefused
  unfold put
  rcases hfound : after.writer.encode message with ⟨flaw | found, next⟩
  · exact breaks_of_refused _ rfl
  · exact absurd (congrArg Prod.fst hfound) (hrefused found)

theorem feedFrames_append (outbox : Outbox) (before after : List (Except HttpFault Frame)) :
    outbox.feedFrames (before ++ after) =
      (outbox.feedFrames before).andThen fun next => next.feedFrames after := by
  induction before generalizing outbox with
  | nil => rfl
  | cons frame before ih =>
      match frame with
      | .error fault => rfl
      | .ok (.trailers fields) => exact ih outbox
      | .ok (.data data) =>
          rw [List.cons_append, feedFrames_data, feedFrames_data, Sent.andThen_assoc]
          exact congrArg _ (funext ih)

theorem send_eof_breaks {octets : Nat} (hwriter : outbox.writer = ⟨some (.length octets false)⟩)
    (hshort : 0 < octets) : outbox.Breaks [] (outbox.send (.item .eof)) := by
  refine (feed_breaks fun found => ?_).andThen flush
  have hrefused : (PayloadEncoder.length octets false).encode .eof = .error (.short octets) :=
    if_pos hshort
  rw [hwriter]
  simp only [ResponseWriter.encode, hrefused]
  simp

/-- The pieces of a body that falls short go out up to the fault, or all of them without an end. -/
theorem feedBody_breaks {hint : SizeHint} {frames : List (Except HttpFault Frame)}
    (h : hint.FallsShort frames) {encoder : PayloadEncoder}
    (hencoder : PayloadEncoder.ofSize? (.ofHint hint) = some encoder) :
    ∃ front, PayloadDecoder.IsFront (.ofHint hint) front ∧
      ∀ outbox : Outbox, outbox.writer = ⟨some encoder⟩ → outbox.Breaks front
        ((outbox.feedFrames frames).andThen fun outbox => outbox.send (.item .eof)) := by
  have hopen := PayloadEncoder.isFinished_of_ofSize? hencoder
  have hexact : ∀ octets, PayloadSize.ofHint hint = .length octets → hint.octets? = some octets := by
    intro octets hsize
    rw [← PayloadSize.octets?_ofHint, hsize]
    rfl
  obtain ⟨hlacks, hwords, -⟩ := h
  cases hlacks with
  | @fails before after fault short =>
      have hbefore : ∀ data ∈ ResponseBody.dataOf before, data.length < Number.wordLimit := by
        intro data hdata
        refine hwords data ?_
        rw [ResponseBody.dataOf, List.filterMap_append]
        exact List.mem_append_left _ hdata
      refine ⟨_, PayloadDecoder.isFront_pieces hencoder hbefore
        fun octets hsize => short octets (hexact octets hsize), ?_⟩
      intro outbox hwriter
      have hbroken := (feedFrames_emits hopen before hwriter).breaks fun next _ =>
        breaks_of_refused (bodyFailed fault) rfl
      rw [List.append_nil] at hbroken
      rw [feedFrames_append]
      exact hbroken.andThen _
  | @ends _ octets known short =>
      have hsize : PayloadSize.ofHint hint = .length octets := by
        simp only [PayloadSize.ofHint, known]
        exact if_neg (Nat.ne_zero_of_lt short)
      obtain rfl : encoder = .length octets false := by
        rw [hsize] at hencoder
        exact (Option.some.inj hencoder).symm
      refine ⟨_, PayloadDecoder.isFront_pieces hencoder hwords ?_, ?_⟩
      · intro other hother
        obtain rfl := PayloadSize.length.inj (hsize.symm.trans hother)
        exact short
      · intro outbox hwriter
        have hbroken := (feedFrames_emits hopen frames hwriter).breaks fun next hnext => by
          rw [PayloadEncoder.foldl_taking_length] at hnext
          exact send_eof_breaks hnext (Nat.sub_pos_of_lt short)
        rwa [List.append_nil] at hbroken

/-- Whatever the writer does, nothing is left of the response that the client could take for it. -/
theorem sendParts_unfinished (hidle : outbox.Idle) {head : ResponseHead} (hhead : head.BearsBody)
    {hint : SizeHint} {frames : List (Except HttpFault Frame)} (hshort : hint.FallsShort frames) :
    ∃ fault next part, outbox.sendParts head hint frames false = (.error fault, next) ∧
      next.sink.written = outbox.sink.written ++ part ∧ Received.Unfinished part := by
  have hsize := hshort.lacks.size_ne_empty
  obtain ⟨encoder, hencoder⟩ := PayloadEncoder.exists_ofSize? hsize
  obtain ⟨front, hfront, hbody⟩ := feedBody_breaks hshort hencoder
  have hbroken : ∃ bytes, Received.Unfinished bytes ∧
      outbox.Breaks bytes (outbox.sendParts head hint frames false) := by
    have hnonempty : (PayloadSize.ofHint hint).isEmpty = false := by
      simpa [PayloadSize.isEmpty] using hsize
    simp only [sendParts, hnonempty, Bool.or_self, Bool.false_eq_true, if_false]
    cases hencoded : head.encode? (.ofHint hint) with
    | none =>
        refine ⟨[], Received.unfinished_nil, (feed_breaks fun found => ?_).andThen _⟩
        rw [hidle.writer]
        simp only [ResponseWriter.encode, ResponseWriter.start, hencoded]
        simp
    | some encoded =>
        have hhead := encode_head_of_start hidle.writer hencoded
        rw [hencoder] at hhead
        refine ⟨encoded ++ front, Received.unfinished_encoded ‹_› hshort.octets hencoded hfront, ?_⟩
        refine (feed_emits fun found next hfound => ?_).breaks hbody
        obtain ⟨hsame, rfl⟩ := Prod.mk.inj (hfound.symm.trans hhead)
        exact ⟨Except.ok.inj hsame, rfl⟩
  obtain ⟨bytes, hunfinished, fault, next, hsent, hgrows, hwritten⟩ := hbroken
  obtain ⟨part, hpart⟩ := hgrows.written
  rw [← hpart, gathered, hidle.buffer, List.append_nil, List.prefix_append_right_inj] at hwritten
  obtain ⟨more, rfl⟩ := hwritten
  exact ⟨fault, next, part, hsent, hpart.symm, hunfinished.of_append⟩

end Outbox

end Turnpike
