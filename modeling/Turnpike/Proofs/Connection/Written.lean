import Turnpike.Connection.Outbox

/-!
The octets of a response on their way to the peer.  Wherever the buffer goes out, a response that is
written completely adds the octets of its head and of its framed body behind those before it.
-/

namespace Turnpike

/-! What an encoder makes of the pieces that it takes. -/

namespace PayloadEncoder

def piece : PayloadEncoder → Bytes → Bytes
  | .length _ _, data => data
  | .chunked _, data => chunk data

theorem piece_length (remaining : Nat) (finished : Bool) : (length remaining finished).piece = id := rfl

def taking : PayloadEncoder → Bytes → PayloadEncoder
  | .length remaining finished, data => .length (remaining - data.length) finished
  | .chunked finished, _ => .chunked finished

def last : PayloadEncoder → Bytes
  | .length _ _ => []
  | .chunked _ => lastChunk

@[simp] theorem piece_taking (encoder : PayloadEncoder) (data : Bytes) :
    (encoder.taking data).piece = encoder.piece := by
  cases encoder <;> rfl

@[simp] theorem last_taking (encoder : PayloadEncoder) (data : Bytes) :
    (encoder.taking data).last = encoder.last := by
  cases encoder <;> rfl

theorem isFinished_taking (encoder : PayloadEncoder) (data : Bytes) :
    (encoder.taking data).isFinished = encoder.isFinished := by
  cases encoder <;> rfl

theorem last_foldl_taking (encoder : PayloadEncoder) (pieces : List Bytes) :
    (pieces.foldl taking encoder).last = encoder.last := by
  induction pieces generalizing encoder with
  | nil => rfl
  | cons data pieces ih => rw [List.foldl_cons, ih, last_taking]

theorem foldl_taking_length (remaining : Nat) (finished : Bool) (pieces : List Bytes) :
    pieces.foldl taking (length remaining finished) =
      length (remaining - pieces.flatten.length) finished := by
  induction pieces generalizing remaining with
  | nil => rfl
  | cons data pieces ih =>
      rw [List.foldl_cons, taking, ih, List.flatten_cons, List.length_append, Nat.sub_add_eq]

theorem encode_chunk_eq_ok {encoder next : PayloadEncoder} {data found : Bytes}
    (h : encoder.encode (.chunk data) = .ok (found, next)) :
    found = encoder.piece data ∧ next = encoder.taking data := by
  match encoder with
  | .length remaining finished =>
      simp only [encode] at h
      split at h
      · contradiction
      · obtain ⟨rfl, rfl⟩ := Prod.mk.inj (Except.ok.inj h)
        exact ⟨rfl, rfl⟩
  | .chunked true => contradiction
  | .chunked false =>
      obtain ⟨rfl, rfl⟩ := Prod.mk.inj (Except.ok.inj h)
      exact ⟨rfl, rfl⟩

theorem encode_eof_eq_ok {encoder next : PayloadEncoder} {found : Bytes}
    (h : encoder.encode .eof = .ok (found, next)) :
    found = encoder.last ∧ next.isFinished = true := by
  match encoder with
  | .length remaining finished =>
      simp only [encode] at h
      split at h
      · contradiction
      · obtain ⟨rfl, rfl⟩ := Prod.mk.inj (Except.ok.inj h)
        exact ⟨rfl, rfl⟩
  | .chunked true => contradiction
  | .chunked false =>
      obtain ⟨rfl, rfl⟩ := Prod.mk.inj (Except.ok.inj h)
      exact ⟨rfl, rfl⟩

theorem exists_ofSize? {size : PayloadSize} (h : size ≠ .empty) :
    ∃ encoder, ofSize? size = some encoder := by
  cases size with
  | length octets => exact ⟨_, rfl⟩
  | chunked => exact ⟨_, rfl⟩
  | empty => contradiction

theorem isFinished_of_ofSize? {size : PayloadSize} {encoder : PayloadEncoder}
    (h : ofSize? size = some encoder) : encoder.isFinished = false := by
  cases size with
  | length octets =>
      obtain rfl := Option.some.inj h
      rfl
  | chunked =>
      obtain rfl := Option.some.inj h
      rfl
  | empty => contradiction

end PayloadEncoder

theorem ResponseWriter.encode_item_eq_ok {encoder : PayloadEncoder} {item : PayloadItem}
    {found : Bytes} {next : ResponseWriter}
    (h : ResponseWriter.encode ⟨some encoder⟩ (.item item) = (.ok found, next)) :
    ∃ after, encoder.encode item = .ok (found, after) ∧ next = afterItem after := by
  simp only [encode] at h
  split at h
  · next octets after hafter =>
    obtain ⟨hfound, rfl⟩ := Prod.mk.inj h
    obtain rfl := Except.ok.inj hfound
    exact ⟨after, hafter, rfl⟩
  · simp at h

namespace ResponseBody

def dataOf (frames : List (Except HttpFault Frame)) : List Bytes :=
  frames.filterMap fun frame => match frame with
    | .ok (.data data) => some data
    | .ok (.trailers _) | .error _ => none

def framed (body : ResponseBody) : Bytes :=
  match PayloadSize.ofHint body.hint with
  | .length _ => (dataOf body.frames).flatten
  | .chunked => (dataOf body.frames).flatMap PayloadEncoder.chunk ++ PayloadEncoder.lastChunk
  | .empty => []

theorem framed_eq {body : ResponseBody} {encoder : PayloadEncoder}
    (h : PayloadEncoder.ofSize? (.ofHint body.hint) = some encoder) :
    body.framed = (dataOf body.frames).flatMap encoder.piece ++ encoder.last := by
  unfold framed
  split
  · next octets hsize =>
    rw [hsize] at h
    obtain rfl := Option.some.inj h
    rw [PayloadEncoder.piece_length, List.flatMap_id]
    exact (List.append_nil _).symm
  · next hsize =>
    rw [hsize] at h
    obtain rfl := Option.some.inj h
    rfl
  · next hsize =>
    rw [hsize] at h
    contradiction

end ResponseBody

def Response.octets (response : Response) (isHead : Bool) : Bytes :=
  (response.head.encode? (.ofHint response.body.hint)).getD [] ++
    if isHead then [] else response.body.framed

theorem Sent.andThen_eq_ok {sent : Sent} {next : Outbox → Sent} {after : Outbox}
    (h : sent.andThen next = (.ok (), after)) :
    ∃ middle, sent = (.ok (), middle) ∧ next middle = (.ok (), after) := by
  rcases sent with ⟨fault | _, middle⟩
  · cases h
  · exact ⟨middle, rfl, h⟩

namespace Sink

theorem write_eq_ok {sink next : Sink} {bytes : Bytes} (h : sink.write bytes = (.ok (), next)) :
    next = sink.accept bytes := by
  unfold write at h
  split at h
  · exact (Prod.mk.inj h).2.symm
  · simp only at h
    split at h
    · exact (Prod.mk.inj h).2.symm
    · simp at h

@[simp] theorem isShutdown_write (sink : Sink) (bytes : Bytes) :
    (sink.write bytes).2.isShutdown = sink.isShutdown := by
  unfold write
  split
  · rfl
  · simp only
    split <;> rfl

end Sink

namespace Outbox

/-- All that was written, whether it has gone out or not. -/
def gathered (outbox : Outbox) : Bytes := outbox.sink.written ++ outbox.buffer

/-- What has gone out is not taken back, and the peer's end is not shut. -/
structure Grows (outbox next : Outbox) : Prop where
  written : outbox.sink.written <+: next.sink.written
  isShutdown : next.sink.isShutdown = outbox.sink.isShutdown

theorem Grows.refl (outbox : Outbox) : outbox.Grows outbox := ⟨List.prefix_rfl, rfl⟩

theorem Grows.trans {outbox middle next : Outbox} (h : outbox.Grows middle)
    (hnext : middle.Grows next) : outbox.Grows next :=
  ⟨h.written.trans hnext.written, hnext.isShutdown.trans h.isShutdown⟩

/-- Writing that adds these octets and leaves this writer, if it succeeds; otherwise no more of them
than these have gone out. -/
def Emits (outbox : Outbox) (bytes : Bytes) (writer : ResponseWriter) : Sent → Prop
  | (.ok (), next) =>
    outbox.Grows next ∧ next.gathered = outbox.gathered ++ bytes ∧ next.writer = writer
  | (.error _, next) => outbox.Grows next ∧ next.sink.written <+: outbox.gathered ++ bytes

variable {outbox : Outbox} {bytes : Bytes} {writer : ResponseWriter}

theorem written_gathered (outbox : Outbox) (bytes : Bytes) :
    outbox.sink.written <+: outbox.gathered ++ bytes :=
  (List.prefix_append ..).trans (List.prefix_append ..)

theorem Emits.grows {sent : Sent} (h : outbox.Emits bytes writer sent) : outbox.Grows sent.2 := by
  rcases sent with ⟨fault | _, next⟩
  · exact h.1
  · exact h.1

theorem Emits.written {sent : Sent} (h : outbox.Emits bytes writer sent) :
    sent.2.sink.written <+: outbox.gathered ++ bytes := by
  rcases sent with ⟨fault | _, next⟩
  · exact h.2
  · rw [← h.2.1]
    exact List.prefix_append ..

theorem emits_of_refused (fault : ResponseFault) (next : Outbox) (hsame : next.sink = outbox.sink) :
    outbox.Emits bytes writer (.error fault, next) :=
  ⟨⟨hsame ▸ List.prefix_rfl, by rw [hsame]⟩, hsame ▸ written_gathered outbox bytes⟩

theorem Emits.andThen {sent : Sent} {next : Outbox → Sent} {middle : ResponseWriter} {more : Bytes}
    (h : outbox.Emits bytes middle sent)
    (hnext : ∀ after : Outbox, after.writer = middle → after.Emits more writer (next after)) :
    outbox.Emits (bytes ++ more) writer (sent.andThen next) := by
  rcases sent with ⟨fault | _, after⟩
  · refine ⟨h.1, h.2.trans ?_⟩
    rw [← List.append_assoc]
    exact List.prefix_append ..
  · obtain ⟨hgrows, hgathered, hwriter⟩ := h
    have hlast := hnext after hwriter
    change outbox.Emits (bytes ++ more) writer (next after)
    rcases hsent : next after with ⟨fault | _, last⟩
    · rw [hsent] at hlast
      refine ⟨hgrows.trans hlast.1, ?_⟩
      rw [← List.append_assoc, ← hgathered]
      exact hlast.2
    · rw [hsent] at hlast
      obtain ⟨hmore, hadded, hleft⟩ := hlast
      exact ⟨hgrows.trans hmore, by rw [hadded, hgathered, List.append_assoc], hleft⟩

theorem grows_writeNow (outbox : Outbox) (bytes : Bytes) : outbox.Grows (outbox.writeNow bytes).2 := by
  obtain ⟨taken, -, hwritten⟩ := outbox.sink.written_write bytes
  have hshutdown := outbox.sink.isShutdown_write bytes
  unfold writeNow
  rcases hwrite : outbox.sink.write bytes with ⟨fault | _, sink⟩
  all_goals
    rw [hwrite] at hwritten hshutdown
    exact ⟨⟨taken, hwritten.symm⟩, hshutdown⟩

theorem written_writeNow (outbox : Outbox) (bytes : Bytes) :
    (outbox.writeNow bytes).2.sink.written <+: outbox.sink.written ++ bytes := by
  obtain ⟨taken, htaken, hwritten⟩ := outbox.sink.written_write bytes
  have hfront : outbox.sink.written ++ taken <+: outbox.sink.written ++ bytes :=
    (List.prefix_append_right_inj _).mpr htaken
  unfold writeNow
  rcases hwrite : outbox.sink.write bytes with ⟨fault | _, sink⟩
  all_goals
    rw [hwrite] at hwritten
    rw [← hwritten] at hfront
    exact hfront

theorem writeNow_eq_ok {next : Outbox} (h : outbox.writeNow bytes = (.ok (), next)) :
    next = { outbox with sink := outbox.sink.accept bytes } := by
  unfold writeNow at h
  rcases hwrite : outbox.sink.write bytes with ⟨fault | _, sink⟩
  · simp [hwrite] at h
  · rw [hwrite] at h
    obtain rfl := (Prod.mk.inj h).2
    rw [Sink.write_eq_ok hwrite]

theorem flush_emits (outbox : Outbox) : outbox.Emits [] outbox.writer outbox.flush := by
  unfold flush
  split
  · exact ⟨.refl outbox, (List.append_nil _).symm, rfl⟩
  · have hgrows := grows_writeNow outbox outbox.buffer
    have hwritten := written_writeNow outbox outbox.buffer
    rcases hwrite : outbox.writeNow outbox.buffer with ⟨fault | _, next⟩
    · rw [hwrite] at hgrows hwritten
      exact ⟨hgrows, (List.append_nil outbox.gathered).symm ▸ hwritten⟩
    · rw [hwrite] at hgrows
      obtain rfl := writeNow_eq_ok hwrite
      refine ⟨⟨hgrows.written, hgrows.isShutdown⟩, ?_, rfl⟩
      simp [gathered]

theorem buffer_of_flush {next : Outbox} (h : outbox.flush = (.ok (), next)) : next.buffer = [] := by
  unfold flush at h
  split at h
  · next hempty =>
    obtain rfl := (Prod.mk.inj h).2
    exact List.isEmpty_iff.mp hempty
  · obtain ⟨middle, -, hnext⟩ := Sent.andThen_eq_ok h
    obtain rfl := (Prod.mk.inj hnext).2
    rfl

theorem flushIfFull_emits (outbox : Outbox) :
    outbox.Emits [] outbox.writer outbox.flushIfFull := by
  unfold flushIfFull
  split
  · exact flush_emits outbox
  · exact ⟨.refl outbox, (List.append_nil _).symm, rfl⟩

theorem feed_emits {message : Message ResponseHead}
    (hencode : ∀ found next, outbox.writer.encode message = (.ok found, next) →
      found = bytes ∧ next = writer) : outbox.Emits bytes writer (outbox.feed message) := by
  rw [← List.nil_append bytes]
  refine (flushIfFull_emits outbox).andThen ?_
  intro after hafter
  rw [← hafter] at hencode
  unfold put
  rcases hfound : after.writer.encode message with ⟨flaw | found, next⟩
  · exact emits_of_refused _ _ rfl
  · obtain ⟨rfl, rfl⟩ := hencode found next hfound
    exact ⟨⟨List.prefix_rfl, rfl⟩, (List.append_assoc ..).symm, rfl⟩

theorem send_emits {message : Message ResponseHead}
    (hencode : ∀ found next, outbox.writer.encode message = (.ok found, next) →
      found = bytes ∧ next = writer) : outbox.Emits bytes writer (outbox.send message) := by
  rw [← List.append_nil bytes]
  refine (feed_emits hencode).andThen ?_
  intro after hafter
  rw [← hafter]
  exact flush_emits after

theorem encode_head_eq_ok {head : ResponseHead} {size : PayloadSize} {found : Bytes}
    {next : ResponseWriter}
    (h : ResponseWriter.encode .start (.head head size) = (.ok found, next)) :
    found = (head.encode? size).getD [] ∧ next = ⟨PayloadEncoder.ofSize? size⟩ := by
  simp only [ResponseWriter.encode, ResponseWriter.start] at h
  split at h
  · next octets hoctets =>
    obtain ⟨hfound, rfl⟩ := Prod.mk.inj h
    obtain rfl := Except.ok.inj hfound
    exact ⟨by rw [hoctets, Option.getD_some], rfl⟩
  · simp at h

theorem feedFrames_data (outbox : Outbox) (data : Bytes) (frames : List (Except HttpFault Frame)) :
    outbox.feedFrames (.ok (.data data) :: frames) =
      (outbox.feed (.item (.chunk data))).andThen fun next => next.feedFrames frames := by
  rw [feedFrames]
  rcases outbox.feed (.item (.chunk data)) with ⟨fault | _, next⟩ <;> rfl

/-- The pieces of a body are added one by one, as long as none is refused. -/
theorem feedFrames_emits {encoder : PayloadEncoder} (hopen : encoder.isFinished = false)
    (frames : List (Except HttpFault Frame)) (hwriter : outbox.writer = ⟨some encoder⟩) :
    outbox.Emits ((ResponseBody.dataOf frames).flatMap encoder.piece)
      ⟨some ((ResponseBody.dataOf frames).foldl PayloadEncoder.taking encoder)⟩
      (outbox.feedFrames frames) := by
  induction frames generalizing outbox encoder with
  | nil => exact ⟨.refl outbox, (List.append_nil _).symm, hwriter⟩
  | cons frame frames ih =>
      match frame with
      | .error fault => exact emits_of_refused _ _ rfl
      | .ok (.trailers fields) => exact ih hopen hwriter
      | .ok (.data data) =>
          have hstill := (encoder.isFinished_taking data).trans hopen
          have hfeed : outbox.Emits (encoder.piece data) ⟨some (encoder.taking data)⟩
              (outbox.feed (.item (.chunk data))) := by
            refine feed_emits ?_
            intro found next hfound
            rw [hwriter] at hfound
            obtain ⟨later, hlater, rfl⟩ := ResponseWriter.encode_item_eq_ok hfound
            obtain ⟨rfl, rfl⟩ := PayloadEncoder.encode_chunk_eq_ok hlater
            exact ⟨rfl, by simp only [ResponseWriter.afterItem, hstill, Bool.false_eq_true, if_false]⟩
          have hwhole := hfeed.andThen fun next hnext => ih hstill hnext
          rw [encoder.piece_taking data] at hwhole
          rw [feedFrames_data]
          exact hwhole

theorem sendEof_emits {encoder : PayloadEncoder} (hwriter : outbox.writer = ⟨some encoder⟩) :
    outbox.Emits encoder.last .start (outbox.send (.item .eof)) := by
  refine send_emits ?_
  intro found next hfound
  rw [hwriter] at hfound
  obtain ⟨after, hafter, rfl⟩ := ResponseWriter.encode_item_eq_ok hfound
  obtain ⟨rfl, hfinished⟩ := PayloadEncoder.encode_eof_eq_ok hafter
  exact ⟨rfl, by rw [ResponseWriter.afterItem, if_pos hfinished]; rfl⟩

theorem sendBody_emits {body : ResponseBody} (hsize : (PayloadSize.ofHint body.hint).isEmpty = false)
    (hwriter : outbox.writer = ⟨PayloadEncoder.ofSize? (.ofHint body.hint)⟩) :
    outbox.Emits body.framed .start
      ((outbox.feedFrames body.frames).andThen fun outbox => outbox.send (.item .eof)) := by
  obtain ⟨encoder, hencoder⟩ := PayloadEncoder.exists_ofSize? (by simpa [PayloadSize.isEmpty] using hsize)
  rw [hencoder] at hwriter
  rw [ResponseBody.framed_eq hencoder]
  refine (feedFrames_emits (PayloadEncoder.isFinished_of_ofSize? hencoder) _ hwriter).andThen ?_
  intro next hnext
  rw [← PayloadEncoder.last_foldl_taking encoder (ResponseBody.dataOf body.frames)]
  exact sendEof_emits hnext

/-- Between two responses. -/
structure Idle (outbox : Outbox) : Prop where
  writer : outbox.writer = .start
  buffer : outbox.buffer = []

theorem idle_start (failure : Option WriteFailure) : (start failure).Idle := ⟨rfl, rfl⟩

theorem sendResponse_emits (hwriter : outbox.writer = .start) (response : Response) (isHead : Bool) :
    outbox.Emits (response.octets isHead) .start (outbox.sendResponse response isHead) := by
  have hhead : ∀ found next, outbox.writer.encode
      (.head response.head (.ofHint response.body.hint)) = (.ok found, next) →
        found = (response.head.encode? (.ofHint response.body.hint)).getD [] ∧
          next = ⟨PayloadEncoder.ofSize? (.ofHint response.body.hint)⟩ := by
    rw [hwriter]
    exact fun found next => encode_head_eq_ok
  unfold sendResponse sendParts Response.octets
  cases hbody : isHead || (PayloadSize.ofHint response.body.hint).isEmpty with
  | true =>
      have hnothing : (if isHead then [] else response.body.framed) = ([] : Bytes) := by
        rcases Bool.or_eq_true_iff.mp hbody with hisHead | hempty
        · rw [if_pos hisHead]
        · rw [ResponseBody.framed, PayloadSize.isEmpty_iff.mp hempty, ite_self]
      simp only [hbody, hnothing, if_true]
      refine (send_emits hhead).andThen ?_
      intro next _
      exact ⟨⟨List.prefix_rfl, rfl⟩, (List.append_nil _).symm, rfl⟩
  | false =>
      obtain ⟨hisHead, hsize⟩ := Bool.or_eq_false_iff.mp hbody
      simp only [hisHead, hsize, Bool.or_self, Bool.false_eq_true, if_false]
      exact (feed_emits hhead).andThen fun next hnext => sendBody_emits hsize hnext

theorem grows_of_sendResponse (h : outbox.Idle) {response : Response} {isHead : Bool}
    {result : Except ResponseFault Unit} {next : Outbox}
    (hsent : outbox.sendResponse response isHead = (result, next)) : outbox.Grows next := by
  have hgrows := (sendResponse_emits h.writer response isHead).grows
  rwa [hsent] at hgrows

theorem buffer_of_sendParts {head : ResponseHead} {hint : SizeHint}
    {frames : List (Except HttpFault Frame)} {isHead : Bool} {next : Outbox}
    (h : outbox.sendParts head hint frames isHead = (.ok (), next)) : next.buffer = [] := by
  unfold sendParts at h
  simp only at h
  split at h
  · obtain ⟨sent, hsend, hnext⟩ := Sent.andThen_eq_ok h
    obtain ⟨fed, -, hflush⟩ := Sent.andThen_eq_ok hsend
    obtain rfl : sent.discardBody = next := (Prod.mk.inj hnext).2
    have hbuffer : sent.buffer = [] := buffer_of_flush hflush
    exact hbuffer
  · obtain ⟨headed, -, hbody⟩ := Sent.andThen_eq_ok h
    obtain ⟨framed, -, hsend⟩ := Sent.andThen_eq_ok hbody
    obtain ⟨fed, -, hflush⟩ := Sent.andThen_eq_ok hsend
    exact buffer_of_flush hflush

/-- A response that is written completely stands behind all that was written before it. -/
theorem sendResponse_written (h : outbox.Idle) {response : Response} {isHead : Bool} {next : Outbox}
    (hsent : outbox.sendResponse response isHead = (.ok (), next)) :
    next.Idle ∧ next.sink.written = outbox.sink.written ++ response.octets isHead := by
  have hemits := sendResponse_emits h.writer response isHead
  have hbuffer := buffer_of_sendParts hsent
  rw [hsent] at hemits
  obtain ⟨-, hgathered, hwriter⟩ := hemits
  simp only [gathered, h.buffer, hbuffer, List.append_nil] at hgathered
  exact ⟨⟨hwriter, hbuffer⟩, hgathered⟩

/-! A head is never left out. -/

theorem encode?_ne_nil {head : ResponseHead} {size : PayloadSize} {found : Bytes}
    (h : head.encode? size = some found) : found ≠ [] := by
  unfold ResponseHead.encode? at h
  split at h
  · obtain rfl := Option.some.inj h
    simp [ResponseHead.statusLine, PayloadEncoder.lineEnd]
  · obtain rfl := Option.some.inj h
    simp [ResponseHead.statusLine, PayloadEncoder.lineEnd]
  · contradiction

theorem feed_head_ne_ok (hwriter : outbox.writer = .start) {head : ResponseHead} {size : PayloadSize}
    (h : head.encode? size = none) (next : Outbox) :
    outbox.feed (.head head size) ≠ (.ok (), next) := by
  intro hfeed
  obtain ⟨after, hflush, hput⟩ := Sent.andThen_eq_ok hfeed
  have hemits := flushIfFull_emits outbox
  rw [hflush] at hemits
  have hafter := hemits.2.2
  rw [hwriter] at hafter
  simp [put, hafter, ResponseWriter.encode, ResponseWriter.start, h] at hput

theorem octets_ne_nil_of_sendResponse (hwriter : outbox.writer = .start) {response : Response}
    {isHead : Bool} {next : Outbox}
    (h : outbox.sendResponse response isHead = (.ok (), next)) : response.octets isHead ≠ [] := by
  obtain ⟨headed, hfeed⟩ : ∃ headed, outbox.feed
      (.head response.head (.ofHint response.body.hint)) = (.ok (), headed) := by
    unfold sendResponse sendParts at h
    simp only at h
    split at h
    · obtain ⟨sent, hsend, -⟩ := Sent.andThen_eq_ok h
      obtain ⟨headed, hfeed, -⟩ := Sent.andThen_eq_ok hsend
      exact ⟨headed, hfeed⟩
    · obtain ⟨headed, hfeed, -⟩ := Sent.andThen_eq_ok h
      exact ⟨headed, hfeed⟩
  cases hfound : response.head.encode? (.ofHint response.body.hint) with
  | none => exact absurd hfeed (feed_head_ne_ok hwriter hfound headed)
  | some found =>
      rw [Response.octets, hfound, Option.getD_some]
      exact fun hnil => encode?_ne_nil hfound (List.append_eq_nil_iff.mp hnil).1

end Outbox

end Turnpike
