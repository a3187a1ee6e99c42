import Turnpike.Proofs.Payload.Streaming

/-!
A body that arrives feed by feed.  Its decoder comes to the same data and the same end as if all of
it had been there at once, and what comes behind the body is left alone.
-/

namespace Turnpike

namespace PayloadDecoder

def Drained.after (before : List Bytes) (drained : Drained) : Drained :=
  { drained with chunks := before ++ drained.chunks }

/-- Appends the feeds one by one to what is left of those before, and decodes all pieces each time.
What comes after the end of the body or a fault stays unread. -/
def drainFeeds (decoder : PayloadDecoder) (buffer : Bytes) : List Bytes → Drained
  | [] => decoder.drain buffer
  | feed :: feeds =>
    let drained := decoder.drain (buffer ++ feed)
    match drained.stop with
    | .more => (drainFeeds drained.decoder drained.rest feeds).after drained.chunks
    | .eof | .fault _ => { drained with rest := drained.rest ++ feeds.flatten }

/-- The same data, though not always in the same pieces. -/
structure Drained.Agrees (left right : Drained) : Prop where
  data : left.chunks.flatten = right.chunks.flatten
  stop : left.stop = right.stop
  decoder : left.decoder = right.decoder
  rest : left.rest = right.rest

namespace Drained.Agrees

theorem refl (drained : Drained) : drained.Agrees drained := ⟨rfl, rfl, rfl, rfl⟩

theorem symm {left right : Drained} (h : left.Agrees right) : right.Agrees left :=
  ⟨h.data.symm, h.stop.symm, h.decoder.symm, h.rest.symm⟩

theorem trans {left middle right : Drained} (hleft : left.Agrees middle)
    (hright : middle.Agrees right) : left.Agrees right where
  data := hleft.data.trans hright.data
  stop := hleft.stop.trans hright.stop
  decoder := hleft.decoder.trans hright.decoder
  rest := hleft.rest.trans hright.rest

theorem after (before : List Bytes) {left right : Drained} (h : left.Agrees right) :
    (left.after before).Agrees (right.after before) where
  data := by
    simp only [Drained.after, List.flatten_append, h.data]
  stop := h.stop
  decoder := h.decoder
  rest := h.rest

end Drained.Agrees

/-- Draining goes on with what comes later, unless the body is over. -/
def Drained.resume (drained : Drained) (later : Bytes) : Drained :=
  match drained.stop with
  | .more => (drained.decoder.drain (drained.rest ++ later)).after drained.chunks
  | .eof | .fault _ => { drained with rest := drained.rest ++ later }

theorem Drained.resume_after (before : List Bytes) (drained : Drained) (later : Bytes) :
    (drained.after before).resume later = (drained.resume later).after before := by
  obtain ⟨chunks, more | eof | fault, decoder, rest⟩ := drained
  · simp only [resume, after, List.append_assoc]
  · rfl
  · rfl

theorem drain_of_chunk_after {decoder next : PayloadDecoder} (hproper : decoder.IsProper)
    {bytes data rest : Bytes} (h : decoder.decode bytes = ⟨.ok (some (.chunk data)), next, rest⟩) :
    decoder.drain bytes = (next.drain rest).after [data] := drain_of_chunk hproper h

theorem drain_congr {decoder other : PayloadDecoder} (hdecoder : decoder.IsProper)
    (hother : other.IsProper) {bytes octets : Bytes}
    (h : decoder.decode bytes = other.decode octets) : decoder.drain bytes = other.drain octets := by
  rcases hdecode : other.decode octets with ⟨fault | _ | data | _, next, rest⟩
  all_goals rw [hdecode] at h
  · rw [drain_of_fault h, drain_of_fault hdecode]
  · rw [drain_of_more h, drain_of_more hdecode]
  · rw [drain_of_chunk hdecoder h, drain_of_chunk hother hdecode]
  · rw [drain_of_eof h, drain_of_eof hdecode]

theorem drain_induction {motive : PayloadDecoder → Bytes → Prop}
    (fault : ∀ {decoder bytes fault next rest}, decoder.IsProper →
      decoder.decode bytes = ⟨.error fault, next, rest⟩ → motive decoder bytes)
    (more : ∀ {decoder bytes next rest}, decoder.IsProper →
      decoder.decode bytes = ⟨.ok none, next, rest⟩ → motive decoder bytes)
    (chunk : ∀ {decoder bytes data next rest}, decoder.IsProper → next.IsProper →
      decoder.decode bytes = ⟨.ok (some (.chunk data)), next, rest⟩ → motive next rest →
        motive decoder bytes)
    (eof : ∀ {decoder bytes next rest}, decoder.IsProper →
      decoder.decode bytes = ⟨.ok (some .eof), next, rest⟩ → motive decoder bytes)
    {decoder : PayloadDecoder} (hproper : decoder.IsProper) (bytes : Bytes) :
    motive decoder bytes := by
  induction hlength : bytes.length using Nat.strongRecOn generalizing decoder bytes with
  | ind length ih =>
      subst hlength
      rcases hdecode : decoder.decode bytes with ⟨found | _ | data | _, next, rest⟩
      · exact fault hproper hdecode
      · exact more hproper hdecode
      · have hnext := isProper_next hproper hdecode
        have hless := chunk_rest_length_lt hproper hdecode
        exact chunk hproper hnext hdecode (ih _ hless hnext rest rfl)
      · exact eof hproper hdecode

/-- A cut through the octets of a body may cut a piece in two, and changes nothing else. -/
theorem agrees_drain_append {decoder : PayloadDecoder} (hproper : decoder.IsProper)
    (bytes later : Bytes) :
    ((decoder.drain bytes).resume later).Agrees (decoder.drain (bytes ++ later)) := by
  refine drain_induction (motive := fun decoder bytes =>
    ((decoder.drain bytes).resume later).Agrees (decoder.drain (bytes ++ later)))
    ?fault ?more ?chunk ?eof hproper bytes
  case fault =>
    intro decoder bytes fault next rest _ hdecode
    rw [drain_of_fault hdecode, drain_of_fault ((streaming_decode decoder).fault hdecode later)]
    exact .refl _
  case eof =>
    intro decoder bytes next rest _ hdecode
    rw [drain_of_eof hdecode, drain_of_eof ((streaming_decode decoder).eof hdecode later)]
    exact .refl _
  case more =>
    intro decoder bytes next rest hproper hdecode
    obtain ⟨rfl, hlater⟩ := (streaming_decode decoder).more hdecode
    rw [drain_of_more hdecode, drain_congr hproper (isProper_next hproper hdecode) (hlater later)]
    exact .refl _
  case chunk =>
    intro decoder bytes data next rest hproper hnext hdecode ih
    rw [drain_of_chunk_after hproper hdecode, Drained.resume_after]
    rcases (streaming_decode decoder).chunk hdecode later with
      hsame | ⟨rfl, more, beyond, left, hlater, hboth⟩
    · rw [drain_of_chunk_after hproper hsame]
      exact ih.after [data]
    · -- the piece goes on behind the cut, so that the octets at hand are used up with its first part
      obtain ⟨waiting, hnil, hwaiting⟩ :=
        (streaming_decode next).decode_nil_of_chunk hnext hlater
      have hwaits := isProper_next hnext hnil
      rw [hlater] at hwaiting
      rw [drain_of_chunk_after hproper hboth, drain_of_more hnil]
      simp only [Drained.resume, List.nil_append, drain_of_chunk_after hwaits hwaiting]
      exact ⟨by simp [Drained.after], rfl, rfl, rfl⟩

/-- A body that ends with the last of its octets asks for more at every cut before. -/
theorem stop_of_front {decoder : PayloadDecoder} (hproper : decoder.IsProper)
    {front missing : Bytes} (hmissing : missing ≠ [])
    (hstop : (decoder.drain (front ++ missing)).stop = .eof)
    (hrest : (decoder.drain (front ++ missing)).rest = []) : (decoder.drain front).stop = .more := by
  have hagrees := agrees_drain_append hproper front missing
  have hends : ((decoder.drain front).resume missing).stop = .eof := hagrees.stop.trans hstop
  have hleaves : ((decoder.drain front).resume missing).rest = [] := hagrees.rest.trans hrest
  unfold Drained.resume at hends hleaves
  split at hends
  · next hmore => exact hmore
  · next heof =>
    -- the missing octets would be left over
    simp only [heof, List.append_eq_nil_iff] at hleaves
    exact absurd hleaves.2 hmissing
  · next fault hfault =>
    simp only [hfault] at hends
    contradiction

theorem isProper_drain {decoder : PayloadDecoder} (hproper : decoder.IsProper) (bytes : Bytes) :
    (decoder.drain bytes).decoder.IsProper := by
  refine drain_induction (motive := fun decoder bytes => (decoder.drain bytes).decoder.IsProper)
    ?fault ?more ?chunk ?eof hproper bytes
  case fault =>
    intro decoder bytes fault next rest hproper hdecode
    rw [drain_of_fault hdecode]
    exact isProper_next hproper hdecode
  case more =>
    intro decoder bytes next rest hproper hdecode
    rw [drain_of_more hdecode]
    exact isProper_next hproper hdecode
  case chunk =>
    intro decoder bytes data next rest hproper _ hdecode ih
    rw [drain_of_chunk hproper hdecode]
    exact ih
  case eof =>
    intro decoder bytes next rest hproper hdecode
    rw [drain_of_eof hdecode]
    exact isProper_next hproper hdecode

/-- How a body is cut into feeds does not matter. -/
theorem agrees_drainFeeds (feeds : List Bytes) {decoder : PayloadDecoder}
    (hproper : decoder.IsProper) (buffer : Bytes) :
    (decoder.drainFeeds buffer feeds).Agrees (decoder.drain (buffer ++ feeds.flatten)) := by
  induction feeds generalizing decoder buffer with
  | nil =>
      rw [List.flatten_nil, List.append_nil]
      exact .refl _
  | cons feed feeds ih =>
      have hcut := agrees_drain_append hproper (buffer ++ feed) feeds.flatten
      rw [List.append_assoc] at hcut
      rw [List.flatten_cons, drainFeeds]
      refine Drained.Agrees.trans ?_ hcut
      unfold Drained.resume
      cases hstop : (decoder.drain (buffer ++ feed)).stop with
      | more => exact (ih (isProper_drain hproper _) _).after _
      | eof => exact .refl _
      | fault fault => exact .refl _

end PayloadDecoder

end Turnpike
