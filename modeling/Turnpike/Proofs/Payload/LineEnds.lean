import Turnpike.Proofs.Payload.Acceptance

/-!
Line ends in the framing of chunked bodies.  A CR is always the first half of a line end; an LF is
the second half of one unless it stands in the text of a trailer line.  Without such an LF a reader
that takes a bare LF for a line end finds the same end of the body.
-/

namespace Turnpike

open Octet PayloadEncoder

/-! Whole line ends. -/

namespace Octet

/-- In front of every LF of the framing stands a CR of the framing. -/
def CrBeforeLf (octets : List Octet) : Prop :=
  ∀ before after, octets = before ++ .framing Byte.lf :: after →
    before.getLast? = some (.framing Byte.cr)

/-- Behind every CR of the framing stands an LF of the framing. -/
def LfAfterCr (octets : List Octet) : Prop :=
  ∀ before after, octets = before ++ .framing Byte.cr :: after →
    after.head? = some (.framing Byte.lf)

theorem CrBeforeLf.append {left right : List Octet} (hleft : CrBeforeLf left)
    (hright : CrBeforeLf right) : CrBeforeLf (left ++ right) := by
  intro before after hsplit
  rcases List.append_eq_append_iff.mp hsplit with
    ⟨between, rfl, hlater⟩ | ⟨between, rfl, hearlier⟩
  · rw [List.getLast?_append, hright between after hlater]
    rfl
  · cases between with
    | nil =>
        have hfirst := hright [] after hearlier.symm
        contradiction
    | cons octet between =>
        obtain ⟨rfl, -⟩ := List.cons.inj hearlier
        exact hleft before between rfl

/-- What comes behind a line end is a matter of its own. -/
theorem crBeforeLf_append_iff {left right : List Octet} (hleft : CrBeforeLf left)
    (hlast : left.getLast? = some (.framing Byte.lf)) :
    CrBeforeLf (left ++ right) ↔ CrBeforeLf right := by
  refine ⟨fun h before after hsplit => ?_, hleft.append⟩
  have hwhole := h (left ++ before) after (by rw [hsplit, List.append_assoc])
  rw [List.getLast?_append, hlast] at hwhole
  cases hbefore : before.getLast? with
  | none =>
      rw [hbefore] at hwhole
      simp [Byte.lf, Byte.cr] at hwhole
  | some octet => rwa [hbefore] at hwhole

theorem crBeforeLf_contained (data : Bytes) : CrBeforeLf (contained data) := by
  intro before after hsplit
  obtain ⟨_, later, -, -, hlater⟩ := append_eq_contained hsplit.symm
  cases later <;> simp [contained] at hlater

theorem crBeforeLf_framed {bytes : Bytes} (h : Byte.lf ∉ bytes) : CrBeforeLf (framed bytes) := by
  intro before after hsplit
  refine absurd ?_ h
  have hmem : Octet.framing Byte.lf ∈ framed bytes := by simp [hsplit]
  simpa [framed] using hmem

theorem crBeforeLf_lineEnd : CrBeforeLf (framed lineEnd) := by
  intro before after hsplit
  match before with
  | [] => simp [lineEnd, Byte.cr, Byte.lf] at hsplit
  | [octet] =>
      obtain ⟨rfl, -⟩ := List.cons.inj hsplit
      rfl
  | _ :: _ :: _ => simp [lineEnd] at hsplit

theorem crBeforeLf_line {text : Bytes} (h : Byte.lf ∉ text) :
    CrBeforeLf (framed (text ++ lineEnd)) := by
  rw [framed_append]
  exact (crBeforeLf_framed h).append crBeforeLf_lineEnd

theorem getLast?_line (octets : List Octet) :
    (octets ++ framed lineEnd).getLast? = some (.framing Byte.lf) := by
  rw [List.getLast?_append]
  rfl

theorem not_crBeforeLf_of_text {text : Bytes} (hlf : Byte.lf ∈ text) (hcr : Byte.cr ∉ text)
    (later : Bytes) : ¬ CrBeforeLf (framed (text ++ later)) := by
  intro h
  obtain ⟨before, after, rfl⟩ := List.append_of_mem hlf
  have hlast := h (framed before) (framed (after ++ later)) (by simp)
  refine hcr (List.mem_append_left _ ?_)
  simpa [framed] using List.mem_of_getLast? hlast

end Octet

/-! The lines of the grammar. -/

theorem lf_not_mem_of_hexDigits {n value : Nat} {digits : Bytes} (h : HexDigits n digits value) :
    Byte.lf ∉ digits := by
  induction h with
  | nil => exact List.not_mem_nil
  | cons hdigit _ ih =>
      intro hmem
      rcases List.mem_cons.mp hmem with rfl | hlater
      · contradiction
      · exact ih hlater

theorem SizeEnd.exists_line {tail : Bytes} (h : SizeEnd tail) :
    ∃ text, tail = text ++ lineEnd ∧ Byte.lf ∉ text := by
  have hfree : ∀ {blanks : Bytes}, (∀ b ∈ blanks, b.isBlank = true) → Byte.lf ∉ blanks :=
    fun hblanks hmem => absurd (hblanks _ hmem) (by decide)
  cases h with
  | plain blanks hblanks => exact ⟨blanks, rfl, hfree hblanks⟩
  | extended blanks text hblanks htext =>
      refine ⟨blanks ++ Byte.semicolon :: text, by simp, ?_⟩
      rw [List.mem_append, List.mem_cons, not_or, not_or]
      exact ⟨hfree hblanks, by decide, fun hmem => (htext _ hmem).2 rfl⟩

theorem SizeLine.exists_line {size : Nat} {line : Bytes} (h : SizeLine size line) :
    ∃ text, line = text ++ lineEnd ∧ Byte.lf ∉ text := by
  obtain ⟨digits, tail, -, hvalue, -, htail⟩ := h
  obtain ⟨text, rfl, hfree⟩ := htail.exists_line
  refine ⟨digits ++ text, by simp, ?_⟩
  rw [List.mem_append, not_or]
  exact ⟨lf_not_mem_of_hexDigits hvalue, hfree⟩

theorem SizeLine.crBeforeLf_append_iff {size : Nat} {line : Bytes} (h : SizeLine size line)
    {octets : List Octet} : CrBeforeLf (framed line ++ octets) ↔ CrBeforeLf octets := by
  obtain ⟨text, rfl, hfree⟩ := h.exists_line
  refine Octet.crBeforeLf_append_iff (crBeforeLf_line hfree) ?_
  rw [framed_append]
  exact getLast?_line _

/-- Trailer lines of these texts, and the line end that closes the body. -/
def trailerSection (texts : List Bytes) : Bytes := texts.flatMap (· ++ lineEnd) ++ lineEnd

theorem trailerSection_cons (text : Bytes) (texts : List Bytes) :
    trailerSection (text :: texts) = text ++ lineEnd ++ trailerSection texts := by
  rw [trailerSection, List.flatMap_cons, List.append_assoc]
  rfl

theorem TrailerSection.exists_texts {trailers : Bytes} (h : TrailerSection trailers) :
    ∃ texts : List Bytes, trailers = trailerSection texts ∧
      ∀ text ∈ texts, text ≠ [] ∧ Byte.cr ∉ text := by
  obtain ⟨lines, hlines⟩ := h
  induction lines with
  | nil => exact ⟨[], rfl, nofun⟩
  | cons line lines ih =>
      obtain ⟨hline, hlater⟩ := List.forall_mem_cons.mp hlines
      obtain ⟨texts, htexts, hfree⟩ := ih hlater
      obtain ⟨text, hne, hcr⟩ := hline
      refine ⟨text :: texts, ?_, List.forall_mem_cons.mpr ⟨⟨hne, hcr⟩, hfree⟩⟩
      rw [trailerSection_cons, List.flatten_cons, List.append_assoc, htexts]

theorem crBeforeLf_trailerSection {texts : List Bytes} (hcr : ∀ text ∈ texts, Byte.cr ∉ text) :
    CrBeforeLf (framed (trailerSection texts)) ↔ ∀ text ∈ texts, Byte.lf ∉ text := by
  induction texts with
  | nil => exact iff_of_true crBeforeLf_lineEnd nofun
  | cons text texts ih =>
      obtain ⟨hfirst, hlater⟩ := List.forall_mem_cons.mp hcr
      rw [trailerSection_cons, List.forall_mem_cons, ← ih hlater]
      by_cases hlf : Byte.lf ∈ text
      · rw [List.append_assoc]
        exact iff_of_false (not_crBeforeLf_of_text hlf hfirst _) fun h => h.1 hlf
      · have hlast : (framed (text ++ lineEnd)).getLast? = some (.framing Byte.lf) := by
          rw [framed_append]
          exact getLast?_line _
        rw [framed_append, crBeforeLf_append_iff (crBeforeLf_line hlf) hlast]
        exact (and_iff_right hlf).symm

/-- A chunked body with trailer lines of these texts. -/
inductive HasTrailers (texts : List Bytes) : List Octet → Prop
  | last {line : Bytes} (hline : SizeLine 0 line) :
      HasTrailers texts (framed line ++ framed (trailerSection texts))
  | chunk {line data : Bytes} {body : List Octet} (hdata : data ≠ [])
      (hline : SizeLine data.length line) (hbody : HasTrailers texts body) :
      HasTrailers texts (framed line ++ contained data ++ framed lineEnd ++ body)

theorem ChunkedBody.exists_trailers {body : List Octet} (h : ChunkedBody body) :
    ∃ texts, HasTrailers texts body ∧ ∀ text ∈ texts, text ≠ [] ∧ Byte.cr ∉ text := by
  induction h with
  | last hline htrailers =>
      obtain ⟨texts, rfl, htexts⟩ := htrailers.exists_texts
      rw [framed_append]
      exact ⟨texts, .last hline, htexts⟩
  | chunk hdata hline _ ih =>
      obtain ⟨texts, hbody, htexts⟩ := ih
      exact ⟨texts, .chunk hdata hline hbody, htexts⟩

/-- Only the texts of trailers let an LF stand alone. -/
theorem HasTrailers.crBeforeLf_iff {texts : List Bytes} {body : List Octet}
    (h : HasTrailers texts body) (hcr : ∀ text ∈ texts, Byte.cr ∉ text) :
    CrBeforeLf body ↔ ∀ text ∈ texts, Byte.lf ∉ text := by
  induction h with
  | last hline => rw [hline.crBeforeLf_append_iff, crBeforeLf_trailerSection hcr]
  | @chunk line data body hdata hline _ ih =>
      have hchunk : CrBeforeLf (framed line ++ contained data ++ framed lineEnd) := by
        rw [List.append_assoc, hline.crBeforeLf_append_iff]
        exact (crBeforeLf_contained data).append crBeforeLf_lineEnd
      rw [crBeforeLf_append_iff hchunk (getLast?_line _), ih]

/-! The automaton. -/

namespace ChunkedDecoder

/-- A CR has been read, and the LF that goes with it is to come. -/
def AwaitsLf : ChunkedDecoder → Prop
  | .sizeLf _ | .dataLf | .trailerLf | .endLf => True
  | _ => False

theorem awaitsLf_of_step_cr {decoder next : ChunkedDecoder}
    (h : decoder.step Byte.cr = .ok next) : next.AwaitsLf := by
  cases decoder with
  | extension octets | dataCr | trailerStart | trailer =>
      obtain rfl := Except.ok.inj h
      trivial
  | size octets | sizeBlank octets =>
      obtain rfl := Except.ok.inj h
      trivial
  | _ => contradiction

theorem step_cr_of_awaitsLf {decoder : ChunkedDecoder} (h : decoder.AwaitsLf) :
    ∃ flaw, decoder.step Byte.cr = .error flaw := by
  cases decoder with
  | sizeLf octets | dataLf | trailerLf | endLf => exact ⟨_, rfl⟩
  | _ => contradiction

theorem eq_lf_of_awaitsLf {decoder next : ChunkedDecoder} {b : Byte} (h : decoder.AwaitsLf)
    (hstep : decoder.step b = .ok next) : b = Byte.lf := by
  cases decoder with
  | sizeLf octets | dataLf | trailerLf | endLf => exact (only_eq_ok hstep).1
  | _ => contradiction

theorem Reads.lfAfterCr {first : ChunkedDecoder} {octets : List Octet}
    (h : Reads first octets .done) : LfAfterCr octets := by
  intro before after hsplit
  obtain ⟨middle, -, hafter⟩ := (hsplit ▸ h).split
  cases hafter with
  | framing hstep hnext =>
      have hawaits := awaitsLf_of_step_cr hstep
      cases hnext with
      | nil => contradiction
      | framing hlf _ => rw [eq_lf_of_awaitsLf hawaits hlf, List.head?_cons]
      | datum _ => contradiction

theorem Drains.exists_body {decoder : ChunkedDecoder} {bytes : Bytes}
    {drained : PayloadDecoder.Drained} (h : Drains decoder bytes drained)
    (hstop : drained.stop = .eof) :
    ∃ body, Reads decoder body .done ∧ content body = drained.chunks.flatten ∧
      bytes = wire body ++ drained.rest := by
  cases h with
  | eof hreads hcontent => exact ⟨_, hreads, hcontent.symm, rfl⟩
  | _ => contradiction

theorem reads_framed {first last : ChunkedDecoder} {bytes : Bytes}
    (h : bytes.foldlM step first = .ok last) : Reads first (framed bytes) last := by
  induction bytes generalizing first with
  | nil =>
      obtain rfl := Except.ok.inj h
      exact .nil
  | cons b bytes ih =>
      rw [List.foldlM_cons] at h
      cases hstep : first.step b with
      | error flaw =>
          rw [hstep] at h
          contradiction
      | ok next =>
          rw [hstep] at h
          exact .framing hstep (ih h)

/-! A reader for which a bare LF ends a line as well. -/

def tolerantStep (decoder : ChunkedDecoder) (b : Byte) : Except Flaw ChunkedDecoder :=
  if b = Byte.lf then
    match decoder.step Byte.cr with
    | .ok next => next.step Byte.lf
    | .error _ => decoder.step Byte.lf
  else decoder.step b

/-- What such a reader leaves behind the end of a body. -/
def tolerantRest? : ChunkedDecoder → Bytes → Option Bytes
  | .done, bytes => some bytes
  | _, [] => none
  | .data octets, _ :: rest => tolerantRest? (afterData octets 1) rest
  | decoder, b :: rest =>
    match decoder.tolerantStep b with
    | .ok next => tolerantRest? next rest
    | .error _ => none

theorem tolerantRest?_done (bytes : Bytes) : tolerantRest? .done bytes = some bytes := by
  cases bytes <;> rfl

theorem tolerantRest?_data (octets : Nat) (b : Byte) (rest : Bytes) :
    tolerantRest? (.data octets) (b :: rest) = tolerantRest? (afterData octets 1) rest := rfl

theorem tolerantRest?_cons {decoder next : ChunkedDecoder} {b : Byte}
    (hstep : decoder.step b = .ok next) (htolerant : decoder.tolerantStep b = .ok next)
    (rest : Bytes) : tolerantRest? decoder (b :: rest) = tolerantRest? next rest := by
  cases decoder with
  | data octets | done => contradiction
  | _ => simp only [tolerantRest?, htolerant]

/-- No LF stands alone: each has its CR in front of it, the first perhaps before all the octets. -/
def CrBeforeLfFrom (decoder : ChunkedDecoder) (octets : List Octet) : Prop :=
  ∀ before after, octets = before ++ .framing Byte.lf :: after →
    before.getLast? = some (.framing Byte.cr) ∨ before = [] ∧ decoder.AwaitsLf

theorem CrBeforeLfFrom.tail {decoder next : ChunkedDecoder} {octet : Octet} {octets : List Octet}
    (h : CrBeforeLfFrom decoder (octet :: octets))
    (hnext : octet = .framing Byte.cr → next.AwaitsLf) : CrBeforeLfFrom next octets := by
  intro before after hsplit
  rcases h (octet :: before) after (congrArg (octet :: ·) hsplit) with hlast | ⟨hnil, -⟩
  · cases before with
    | nil => exact .inr ⟨rfl, hnext (Option.some.inj hlast)⟩
    | cons first before => exact .inl hlast
  · contradiction

theorem Reads.tolerantRest?_eq {first last : ChunkedDecoder} {octets : List Octet}
    (h : Reads first octets last) (hlast : last = .done) (hlf : CrBeforeLfFrom first octets)
    (rest : Bytes) : tolerantRest? first (wire octets ++ rest) = some rest := by
  induction h with
  | nil =>
      subst hlast
      exact tolerantRest?_done rest
  | @framing decoder next last b octets hstep _ ih =>
      have htolerant : decoder.tolerantStep b = .ok next := by
        unfold tolerantStep
        split
        · next hb =>
          subst hb
          rcases hlf [] octets rfl with hnone | ⟨-, hawaits⟩
          · contradiction
          · obtain ⟨flaw, hcr⟩ := step_cr_of_awaitsLf hawaits
            rw [hcr]
            exact hstep
        · exact hstep
      have hnext : Octet.framing b = .framing Byte.cr → next.AwaitsLf := by
        rintro ⟨⟩
        exact awaitsLf_of_step_cr hstep
      rw [wire_cons, List.cons_append]
      exact (tolerantRest?_cons hstep htolerant _).trans (ih hlast (hlf.tail hnext))
  | datum _ ih =>
      rw [wire_cons, List.cons_append, tolerantRest?_data]
      exact ih hlast (hlf.tail nofun)

end ChunkedDecoder

namespace PayloadDecoder

open ChunkedDecoder

/-- Of a body that is accepted, every CR of the framing is followed by an LF.  Every LF of the framing
follows a CR if and only if no trailer line holds an LF in its text, and then a reader that takes a
bare LF for a line end finds the end of the body at the same place. -/
theorem drainFeeds_lineEnds {feeds : List Bytes}
    (h : ((ofSize .chunked).drainFeeds [] feeds).stop = .eof) :
    let drained := (ofSize .chunked).drainFeeds [] feeds
    ∃ body texts, Reads .start body .done ∧ content body = drained.chunks.flatten ∧
      feeds.flatten = wire body ++ drained.rest ∧
      HasTrailers texts body ∧ (∀ text ∈ texts, text ≠ [] ∧ Byte.cr ∉ text) ∧
      LfAfterCr body ∧ (CrBeforeLf body ↔ ∀ text ∈ texts, Byte.lf ∉ text) ∧
      (CrBeforeLf body → tolerantRest? .start feeds.flatten = some drained.rest) := by
  intro drained
  have hfed := agrees_drainFeeds feeds (isProper_ofSize .chunked) []
  rw [List.nil_append] at hfed
  have hdrains : Drains .start feeds.flatten ((ofSize .chunked).drain feeds.flatten) :=
    drains_drain (isProper_ofSize .chunked) feeds.flatten
  obtain ⟨body, hreads, hcontent, hwire⟩ := hdrains.exists_body (hfed.stop.symm.trans h)
  rw [← hfed.data] at hcontent
  rw [← hfed.rest] at hwire
  obtain ⟨texts, htrailers, htexts⟩ := (reads_done_iff.mp hreads).exists_trailers
  refine ⟨body, texts, hreads, hcontent, hwire, htrailers, htexts, hreads.lfAfterCr,
    htrailers.crBeforeLf_iff fun text htext => (htexts text htext).2, fun hlf => ?_⟩
  have hends := hreads.tolerantRest?_eq rfl
    (fun before after hsplit => .inl (hlf before after hsplit)) drained.rest
  rwa [← hwire] at hends

/-- An LF without a CR among the data and in no line, with a size line and the data cut. -/
theorem drainFeeds_lineEnds_lf_in_data :
    let feeds := [Bytes.ofText "3;a\r", Bytes.ofText "\n\n\r", Bytes.ofText "x\r\n0\r\nT: 1\r\n\r\nGET"]
    ((ofSize .chunked).drainFeeds [] feeds).stop = .eof ∧
    ∃ body texts, Reads .start body .done ∧ content body = Bytes.ofText "\n\rx" ∧
      feeds.flatten = wire body ++ Bytes.ofText "GET" ∧ HasTrailers texts body ∧ LfAfterCr body ∧
      (CrBeforeLf body ↔ ∀ text ∈ texts, Byte.lf ∉ text) := by
  intro feeds
  have hstop : ((ofSize .chunked).drainFeeds [] feeds).stop = .eof := by decide
  have hdata : ((ofSize .chunked).drainFeeds [] feeds).chunks.flatten = Bytes.ofText "\n\rx" := by
    decide
  have hrest : ((ofSize .chunked).drainFeeds [] feeds).rest = Bytes.ofText "GET" := by
    decide
  obtain ⟨body, texts, hreads, hcontent, hwire, htrailers, -, hcr, hlf, -⟩ :=
    drainFeeds_lineEnds hstop
  exact ⟨hstop, body, texts, hreads, hcontent.trans hdata, hrest ▸ hwire, htrailers, hcr, hlf⟩

/-- An LF in the text of a trailer is let pass, and two of them hide the end of the body that a
tolerant reader finds. -/
theorem drain_lf_in_trailer :
    let bytes := Bytes.ofText "0\r\nX: 1\n\nGET /admin HTTP/1.1\r\n\r\n"
    ((ofSize .chunked).drain bytes).stop = .eof ∧ ((ofSize .chunked).drain bytes).rest = [] ∧
    Reads .start (framed bytes) .done ∧ ¬ CrBeforeLf (framed bytes) ∧
    tolerantRest? .start bytes = some (Bytes.ofText "GET /admin HTTP/1.1\r\n\r\n") := by
  intro bytes
  refine ⟨by decide, by decide, reads_framed rfl, ?_,
    by decide⟩
  intro h
  have hsplit : bytes = Bytes.ofText "0\r\nX: 1" ++
      Byte.lf :: Bytes.ofText "\nGET /admin HTTP/1.1\r\n\r\n" := by
    decide
  have hlast := h (framed (Bytes.ofText "0\r\nX: 1")) _ (by rw [hsplit, framed_append, framed_cons])
  rw [framed, List.getLast?_map] at hlast
  obtain ⟨b, hlast, hb⟩ := Option.map_eq_some_iff.mp hlast
  obtain rfl := Octet.framing.inj hb
  exact absurd hlast (by decide)

end PayloadDecoder

end Turnpike
