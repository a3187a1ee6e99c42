import Turnpike.Proofs.Payload.Feeding
import Turnpike.Proofs.Payload.Grammar

/-!
Draining a chunked body against its language.  The decoder takes the body that the octets at hand
begin with, stops at the first octet that no body goes on with, and otherwise uses up all there is.
-/

namespace Turnpike

open Octet

/-- The octets that some chunked body begins with. -/
def IsChunkedFront (bytes : Bytes) : Prop := ∃ body, ChunkedBody body ∧ bytes <+: wire body

/-- A body begins with these octets and goes on behind them. -/
def IsUnfinished (bytes : Bytes) : Prop :=
  ∃ body missing, ChunkedBody body ∧ missing ≠ [] ∧ wire body = bytes ++ missing

theorem IsChunkedFront.of_append {bytes rest : Bytes} (h : IsChunkedFront (bytes ++ rest)) :
    IsChunkedFront bytes := by
  obtain ⟨body, hbody, hfront⟩ := h
  exact ⟨body, hbody, (List.prefix_append bytes rest).trans hfront⟩

theorem IsUnfinished.isChunkedFront {bytes : Bytes} (h : IsUnfinished bytes) :
    IsChunkedFront bytes := by
  obtain ⟨body, missing, hbody, -, hwire⟩ := h
  exact ⟨body, hbody, missing, hwire.symm⟩

namespace ChunkedDecoder

/-! Fronts of bodies and places of the automaton. -/

section Fronts

variable {octets : List Octet} {last : ChunkedDecoder}

theorem Reads.isChunkedFront (h : Reads .sizeStart octets last) : IsChunkedFront (wire octets) := by
  obtain ⟨later, hlater⟩ := completes last
  exact ⟨octets ++ later, reads_done_iff.mp (h.append hlater), wire later, (wire_append ..).symm⟩

theorem Reads.isUnfinished (h : Reads .sizeStart octets last) (hopen : last ≠ .done) :
    IsUnfinished (wire octets) := by
  obtain ⟨later, hlater⟩ := completes last
  refine ⟨octets ++ later, wire later, reads_done_iff.mp (h.append hlater), ?_, wire_append ..⟩
  intro hnone
  obtain rfl : later = [] := List.map_eq_nil_iff.mp hnone
  cases hlater
  contradiction

/-- A body goes on behind its front as the automaton does from where it stands. -/
theorem Reads.later {body : List Octet} {rest : Bytes} (h : Reads .sizeStart octets last)
    (hbody : ChunkedBody body) (hwire : wire body = wire octets ++ rest) :
    ∃ later, body = octets ++ later ∧ wire later = rest ∧ Reads last later .done :=
  h.resume (reads_of_chunkedBody hbody) hwire

theorem Reads.not_isUnfinished (h : Reads .sizeStart octets .done) (rest : Bytes) :
    ¬ IsUnfinished (wire octets ++ rest) := by
  rintro ⟨body, missing, hbody, hmissing, hwire⟩
  rw [List.append_assoc] at hwire
  obtain ⟨later, -, hlater, hreads⟩ := h.later hbody hwire
  obtain ⟨rfl, -⟩ := hreads.eq_nil_of_done
  exact hmissing (List.append_eq_nil_iff.mp hlater.symm).2

theorem Reads.not_isChunkedFront (h : Reads .sizeStart octets last) {b : Byte} {flaw : Flaw}
    (hstep : last.step b = .error flaw) (hdata : ∀ n, last ≠ .data n) :
    ¬ IsChunkedFront (wire octets ++ [b]) := by
  rintro ⟨body, hbody, rest, hwire⟩
  rw [List.append_assoc] at hwire
  obtain ⟨later, -, hlater, hreads⟩ := h.later hbody hwire.symm
  cases hreads with
  | nil => simp at hlater
  | @framing _ _ _ other _ hother =>
      obtain rfl : other = b := (List.cons.inj hlater).1
      rw [hstep] at hother
      contradiction
  | @datum n => exact hdata n rfl

/-- No body ends where the automaton goes on, nor before. -/
theorem Reads.not_prefix {body : List Octet} (h : Reads .sizeStart octets last)
    (hopen : last ≠ .done) (hbody : ChunkedBody body) : ¬ wire body <+: wire octets := by
  rintro ⟨rest, hrest⟩
  have hunfinished := h.isUnfinished hopen
  rw [← hrest] at hunfinished
  exact (reads_of_chunkedBody hbody).not_isUnfinished rest hunfinished

theorem Reads.not_prefix_of_flaw {body : List Octet} (h : Reads .sizeStart octets last) {b : Byte}
    {flaw : Flaw} (hstep : last.step b = .error flaw) (hdata : ∀ n, last ≠ .data n)
    (hopen : last ≠ .done) (hbody : ChunkedBody body) (rest : Bytes) :
    ¬ wire body <+: wire octets ++ b :: rest := by
  intro hfront
  rw [List.append_cons] at hfront
  rcases List.prefix_or_prefix_of_prefix hfront (List.prefix_append _ rest) with hshort | hlong
  · rcases List.prefix_concat_iff.mp hshort with heq | hshorter
    · exact h.not_isChunkedFront hstep hdata ⟨body, hbody, heq ▸ List.prefix_rfl⟩
    · exact h.not_prefix hopen hbody hshorter
  · exact h.not_isChunkedFront hstep hdata ⟨body, hbody, hlong⟩

theorem eq_of_prefix_wire {body other : List Octet} (hbody : ChunkedBody body)
    (hother : ChunkedBody other) (h : wire body <+: wire other) : other = body := by
  obtain ⟨rest, hrest⟩ := h
  obtain ⟨later, rfl, -, hreads⟩ := (reads_of_chunkedBody hbody).later hother hrest.symm
  rw [hreads.eq_nil_of_done.1, List.append_nil]

/-- One body at most stands in front of some octets. -/
theorem eq_of_wire_append {body other : List Octet} (hbody : ChunkedBody body)
    (hother : ChunkedBody other) {rest left : Bytes} (h : wire body ++ rest = wire other ++ left) :
    other = body ∧ left = rest := by
  have hsame : other = body := by
    rcases List.prefix_or_prefix_of_prefix ⟨rest, rfl⟩ ⟨left, h.symm⟩ with hshort | hlong
    · exact eq_of_prefix_wire hbody hother hshort
    · exact (eq_of_prefix_wire hother hbody hlong).symm
  subst hsame
  exact ⟨rfl, (List.append_cancel_left h).symm⟩

end Fronts

/-! The way of the decoder. -/

/-- What decoding comes to, with the octets on its way. -/
inductive Comes (decoder : ChunkedDecoder) : Bytes → Decoded ChunkedDecoder PayloadItem → Prop
  | more {octets : List Octet} {next : ChunkedDecoder} (hreads : Reads decoder octets next)
      (hcontent : content octets = []) (hopen : next ≠ .done) :
      Comes decoder (wire octets) ⟨.ok none, next, []⟩
  | chunk (octets : List Octet) {next : ChunkedDecoder} {rest : Bytes}
      (hreads : Reads decoder octets next) :
      Comes decoder (wire octets ++ rest) ⟨.ok (some (.chunk (content octets))), next, rest⟩
  | eof (octets : List Octet) {rest : Bytes} (hreads : Reads decoder octets .done)
      (hcontent : content octets = []) :
      Comes decoder (wire octets ++ rest) ⟨.ok (some .eof), .done, rest⟩
  | fault (octets : List Octet) {next : ChunkedDecoder} {b : Byte} {flaw : Flaw} {rest : Bytes}
      (hreads : Reads decoder octets next) (hcontent : content octets = [])
      (hdata : ∀ n, next ≠ .data n) (hopen : next ≠ .done) (hstep : next.step b = .error flaw) :
      Comes decoder (wire octets ++ b :: rest) ⟨.error flaw.fault, next, rest⟩

theorem Comes.cons {decoder next : ChunkedDecoder} {b : Byte} {bytes : Bytes}
    {decoded : Decoded ChunkedDecoder PayloadItem} (hstep : decoder.step b = .ok next)
    (h : Comes next bytes decoded) : Comes decoder (b :: bytes) decoded := by
  cases h with
  | more hreads hcontent hopen => exact .more (.framing hstep hreads) hcontent hopen
  | chunk octets hreads => exact .chunk (.framing b :: octets) (.framing hstep hreads)
  | eof octets hreads hcontent => exact .eof (.framing b :: octets) (.framing hstep hreads) hcontent
  | fault octets hreads hcontent hdata hopen hflaw =>
      exact .fault (.framing b :: octets) (.framing hstep hreads) hcontent hdata hopen hflaw

theorem comes_decode {decoder : ChunkedDecoder} (hproper : decoder.IsProper) (bytes : Bytes) :
    Comes decoder bytes (decode decoder bytes) := by
  fun_induction decode decoder bytes with
  | case1 bytes => exact .eof [] .nil rfl
  | case2 decoder hopen => exact .more .nil rfl hopen
  | case3 size b rest taken =>
      have hsize : size ≠ 0 := fun hzero => hproper (hzero ▸ rfl)
      have htaken : taken ≠ [] := by simp [taken, hsize]
      have hreads := reads_contained htaken (List.length_take_le size (b :: rest))
      have hcomes : Comes _ (_ ++ (b :: rest).drop size) _ := .chunk _ hreads
      rwa [content_contained, wire_contained, List.take_append_drop] at hcomes
  | case4 decoder b rest _ _ next hstep ih => exact .cons hstep (ih (isProper_of_step hstep))
  | case5 decoder b rest hdone hdata flaw hstep =>
      exact .fault [] .nil rfl hdata hdone hstep

/-- How far draining comes, with the octets on its way. -/
inductive Drains (decoder : ChunkedDecoder) : Bytes → PayloadDecoder.Drained → Prop
  | more {octets : List Octet} {chunks : List Bytes} {next : ChunkedDecoder}
      (hreads : Reads decoder octets next) (hcontent : chunks.flatten = content octets)
      (hopen : next ≠ .done) : Drains decoder (wire octets) ⟨chunks, .more, .chunked next, []⟩
  | eof {octets : List Octet} {chunks : List Bytes} {rest : Bytes}
      (hreads : Reads decoder octets .done) (hcontent : chunks.flatten = content octets) :
      Drains decoder (wire octets ++ rest) ⟨chunks, .eof, .chunked .done, rest⟩
  | fault {octets : List Octet} {chunks : List Bytes} {next : ChunkedDecoder} {b : Byte}
      {flaw : Flaw} {rest : Bytes} (hreads : Reads decoder octets next)
      (hcontent : chunks.flatten = content octets) (hdata : ∀ n, next ≠ .data n)
      (hopen : next ≠ .done) (hstep : next.step b = .error flaw) :
      Drains decoder (wire octets ++ b :: rest) ⟨chunks, .fault flaw.fault, .chunked next, rest⟩

theorem Drains.after {decoder next : ChunkedDecoder} {before : List Octet} {bytes : Bytes}
    {drained : PayloadDecoder.Drained} (hbefore : Reads decoder before next)
    (h : Drains next bytes drained) :
    Drains decoder (wire before ++ bytes) (drained.after [content before]) := by
  cases h with
  | more hreads hcontent hopen =>
      rw [← wire_append]
      exact .more (hbefore.append hreads) (by simp [hcontent]) hopen
  | eof hreads hcontent =>
      rw [← List.append_assoc, ← wire_append]
      exact .eof (hbefore.append hreads) (by simp [hcontent])
  | fault hreads hcontent hdata hopen hstep =>
      rw [← List.append_assoc, ← wire_append]
      exact .fault (hbefore.append hreads) (by simp [hcontent]) hdata hopen hstep

end ChunkedDecoder

namespace PayloadDecoder

open ChunkedDecoder

theorem drains_drain {state : ChunkedDecoder} (hproper : state.IsProper) (bytes : Bytes) :
    Drains state bytes ((chunked state).drain bytes) := by
  induction hlength : bytes.length using Nat.strongRecOn generalizing state bytes with
  | ind length ih =>
      subst hlength
      have hcomes := comes_decode hproper bytes
      have hchunked : (chunked state).IsProper := hproper
      have houter : (chunked state).decode bytes = (state.decode bytes).mapState .chunked := rfl
      generalize hdecode : state.decode bytes = decoded at hcomes houter
      cases hcomes with
      | more hreads hcontent hopen =>
          rw [drain_of_more houter]
          exact .more hreads hcontent.symm hopen
      | chunk octets hreads =>
          have hshorter := chunk_rest_length_lt hchunked houter
          have hnext := isProper_next hchunked houter
          rw [drain_of_chunk_after hchunked houter]
          exact .after hreads (ih _ hshorter hnext _ rfl)
      | eof octets hreads hcontent =>
          rw [drain_of_eof houter]
          exact .eof hreads hcontent.symm
      | fault octets hreads hcontent hdata hopen hstep =>
          rw [drain_of_fault houter]
          exact .fault hreads hcontent.symm hdata hopen hstep

/-- Octets are drained to the end, with some data and some octets left, if and only if a chunked body
of that data stands in front of what is left.  Draining fails if and only if what it has consumed is
not the front of any body, and then by its last octet; in front of more to come nothing is left. -/
theorem drain_chunkedBody (bytes : Bytes) :
    let drained := (ofSize .chunked).drain bytes
    (∀ data rest, drained.chunks.flatten = data ∧ drained.stop = .eof ∧ drained.rest = rest ↔
      ∃ body, ChunkedBody body ∧ content body = data ∧ bytes = wire body ++ rest) ∧
    (∃ consumed, bytes = consumed ++ drained.rest ∧
      ((∃ fault, drained.stop = .fault fault) ↔ ¬ IsChunkedFront consumed) ∧
      ((∃ fault, drained.stop = .fault fault) →
        ∃ front b, consumed = front ++ [b] ∧ IsUnfinished front)) ∧
    (drained.stop = .more ↔ IsUnfinished bytes) ∧ (drained.stop = .more → drained.rest = []) := by
  intro drained
  have hdrains : Drains .sizeStart bytes drained := drains_drain (isProper_ofSize .chunked) bytes
  clear_value drained
  cases hdrains with
  | @more octets chunks next hreads hcontent hopen =>
      have hunfinished := hreads.isUnfinished hopen
      refine ⟨fun data rest => ⟨nofun, ?_⟩, ⟨_, (List.append_nil _).symm, ⟨nofun, ?_⟩, nofun⟩,
        ⟨fun _ => hunfinished, fun _ => rfl⟩, fun _ => rfl⟩
      · rintro ⟨body, hbody, -, hbytes⟩
        exact absurd ⟨rest, hbytes.symm⟩ (hreads.not_prefix hopen hbody)
      · exact fun hnot => absurd hunfinished.isChunkedFront hnot
  | @eof octets chunks rest hreads hcontent =>
      have hbody := reads_done_iff.mp hreads
      refine ⟨fun data left => ⟨?_, ?_⟩, ⟨_, rfl, ⟨nofun, ?_⟩, nofun⟩, ⟨nofun, ?_⟩, nofun⟩
      · rintro ⟨rfl, -, rfl⟩
        exact ⟨octets, hbody, hcontent.symm, rfl⟩
      · rintro ⟨other, hother, rfl, hbytes⟩
        obtain ⟨rfl, rfl⟩ := eq_of_wire_append hbody hother hbytes
        exact ⟨hcontent, rfl, rfl⟩
      · exact fun hnot => absurd hreads.isChunkedFront hnot
      · exact fun hunfinished => absurd hunfinished (hreads.not_isUnfinished rest)
  | @fault octets chunks next b flaw rest hreads hcontent hdata hopen hstep =>
      have hnot := hreads.not_isChunkedFront hstep hdata
      refine ⟨fun data left => ⟨nofun, ?_⟩, ⟨_, List.append_cons .., ⟨fun _ => hnot, fun _ => ⟨_, rfl⟩⟩,
        fun _ => ⟨_, b, rfl, hreads.isUnfinished hopen⟩⟩, ⟨nofun, ?_⟩, nofun⟩
      · rintro ⟨body, hbody, -, hbytes⟩
        exact absurd ⟨left, hbytes.symm⟩
          (hreads.not_prefix_of_flaw hstep hdata hopen hbody rest)
      · intro hunfinished
        rw [List.append_cons] at hunfinished
        exact absurd hunfinished.isChunkedFront.of_append hnot

example :
    let drained := (ofSize .chunked).drain
      (Bytes.ofText "00003 ;x\r\n\r\n\n\r\n0\r\nT: x\r\n\r\nGET")
    drained.chunks = [Bytes.ofText "\r\n\n"] ∧ drained.rest = Bytes.ofText "GET" := by
  decide

/-! Bodies that break off. -/

theorem drain_nil {state : ChunkedDecoder} (hopen : state ≠ .done) :
    (chunked state).drain [] = ⟨[], .more, .chunked state, []⟩ := by
  refine drain_of_more ?_
  cases state <;> first | rfl | contradiction

/-- Draining goes the way of the automaton. -/
theorem agrees_drain_of_reads {state next : ChunkedDecoder} {octets : List Octet}
    (hproper : state.IsProper) (h : Reads state octets next) (rest : Bytes) :
    ((chunked state).drain (wire octets ++ rest)).Agrees
      (((chunked next).drain rest).after [content octets]) := by
  induction h with
  | nil => exact ⟨rfl, rfl, rfl, rfl⟩
  | @framing state next last b octets hstep _ ih =>
      have hchunked : (chunked state).IsProper := hproper
      have hnext : (chunked next).IsProper := isProper_of_step hstep
      have hsame : (chunked state).decode (b :: (wire octets ++ rest)) =
          (chunked next).decode (wire octets ++ rest) := by
        rw [decode, decode_cons hstep]
        rfl
      have hdrain := drain_congr hchunked hnext hsame
      rw [wire_cons, List.cons_append]
      exact hdrain ▸ ih hnext
  | @datum size last b octets _ ih =>
      have hsize : size ≠ 0 := fun hzero => hproper (hzero ▸ rfl)
      have hchunked : (chunked (.data size)).IsProper := hproper
      have hnext : (afterData size 1).IsProper := isProper_afterData size 1
      have hopen : afterData size 1 ≠ .done := by
        unfold afterData
        split <;> simp
      have hfirst : (chunked (.data size)).decode [b] =
          ⟨.ok (some (.chunk [b])), .chunked (afterData size 1), []⟩ := by
        rw [decode, decode_data size (List.cons_ne_nil b []), List.take_of_length_le (by simp; omega),
          List.drop_eq_nil_of_le (by simp; omega)]
        rfl
      have hcut := agrees_drain_append hchunked [b] (wire octets ++ rest)
      rw [drain_of_chunk_after hchunked hfirst, drain_nil hopen] at hcut
      exact hcut.symm.trans (((ih hnext).after [[b]]).trans ⟨by simp [Drained.after], rfl, rfl, rfl⟩)

/-- The octets of a body of the size. -/
def IsBody : PayloadSize → List Octet → Prop
  | .length n, octets => ∃ data : Bytes, data.length = n ∧ octets = contained data
  | .chunked, octets => ChunkedBody octets
  | .empty, octets => octets = []

theorem drain_of_counted_front {before after : Bytes} (hafter : after ≠ []) :
    ((length (before ++ after).length).drain before).stop = .more ∧
      ((length (before ++ after).length).drain before).chunks.flatten = before := by
  have hpos := List.length_pos_iff.mpr hafter
  have hmore : ∀ n, n ≠ 0 → (length n).decode [] = ⟨.ok none, .length n, []⟩ := by
    intro n hn
    rw [decode, decodeLength_nil hn]
    rfl
  by_cases hbefore : before = []
  · subst hbefore
    rw [drain_of_more (hmore _ (by simpa using hafter))]
    exact ⟨rfl, rfl⟩
  · have hfirst : (length (before ++ after).length).decode before =
        ⟨.ok (some (.chunk before)), .length after.length, []⟩ := by
      rw [decode, decodeLength_of_ne (by simp [hbefore]) hbefore, List.length_append,
        List.take_of_length_le (by omega), List.drop_eq_nil_of_le (by omega), Nat.add_sub_cancel_left]
      rfl
    have hproper : (length (before ++ after).length).IsProper := trivial
    rw [drain_of_chunk_after hproper hfirst, drain_of_more (hmore _ (by omega))]
    exact ⟨rfl, List.append_nil before⟩

/-- A body that is cut asks for more, and what it has come to is the data in front of the cut. -/
theorem drain_of_cut {size : PayloadSize} {front missing : List Octet}
    (hbody : IsBody size (front ++ missing)) (hmissing : missing ≠ []) :
    ((ofSize size).drain (wire front)).stop = .more ∧
      ((ofSize size).drain (wire front)).chunks.flatten = content front := by
  cases size with
  | length n =>
      obtain ⟨data, rfl, hcontained⟩ := hbody
      obtain ⟨before, after, rfl, rfl, rfl⟩ := append_eq_contained hcontained
      have hafter : after ≠ [] := by
        rintro rfl
        exact hmissing rfl
      rw [wire_contained, content_contained]
      exact drain_of_counted_front hafter
  | chunked =>
      change ChunkedBody _ at hbody
      obtain ⟨middle, hfront, hreads⟩ := (reads_of_chunkedBody hbody).split
      have hopen : middle ≠ .done := by
        rintro rfl
        exact hmissing hreads.eq_nil_of_done.1
      have hdrain := agrees_drain_of_reads (isProper_ofSize .chunked) hfront []
      rw [List.append_nil, drain_nil hopen] at hdrain
      exact ⟨hdrain.stop, hdrain.data.trans (by simp [Drained.after])⟩
  | empty =>
      have hnone : front ++ missing = [] := hbody
      exact absurd (List.append_eq_nil_iff.mp hnone).2 hmissing

/-- A chunked body that is spoiled by an octet fails there, whatever comes behind it. -/
theorem drain_of_spoiled {front missing : List Octet} {b : Byte}
    (hbody : ChunkedBody (front ++ missing)) (hmissing : missing ≠ [])
    (hspoiled : ¬ IsChunkedFront (wire front ++ [b])) (rest : Bytes) :
    (∃ flaw : Flaw, ((ofSize .chunked).drain (wire front ++ b :: rest)).stop = .fault flaw.fault) ∧
      ((ofSize .chunked).drain (wire front ++ b :: rest)).chunks.flatten = content front := by
  obtain ⟨middle, hfront, hreads⟩ := (reads_of_chunkedBody hbody).split
  have hopen : middle ≠ .done := by
    rintro rfl
    exact hmissing hreads.eq_nil_of_done.1
  have hdata : ∀ size, middle ≠ .data size := by
    rintro size rfl
    have hlonger := (hfront.append (.datum (b := b) .nil)).isChunkedFront
    rw [wire_append] at hlonger
    exact hspoiled hlonger
  have hstep : ∃ flaw, middle.step b = .error flaw := by
    cases hstep : middle.step b with
    | error flaw => exact ⟨flaw, rfl⟩
    | ok next =>
        have hlonger := (hfront.append (.framing hstep .nil)).isChunkedFront
        rw [wire_append] at hlonger
        exact absurd hlonger hspoiled
  obtain ⟨flaw, hstep⟩ := hstep
  have hdrain := agrees_drain_of_reads (isProper_ofSize .chunked) hfront (b :: rest)
  have hfault : (chunked middle).decode (b :: rest) = ⟨.error flaw.fault, .chunked middle, rest⟩ := by
    rw [decode, decode_cons_of_flaw hopen hdata hstep]
    rfl
  rw [drain_of_fault hfault] at hdrain
  exact ⟨⟨flaw, hdrain.stop⟩, hdrain.data.trans (by simp [Drained.after])⟩

end PayloadDecoder

end Turnpike
