import Turnpike.Payload.Decoder

/-!
Body decoders as functions of a stream.  How the octets of a body arrive decides into which pieces
its data is cut, and nothing else: not the data, not where the body ends or fails.
-/

namespace Turnpike

/-- Decoding from a state some octets, and decoding them with more behind them. -/
structure Streaming (decode : σ → Bytes → Decoded σ PayloadItem) (Proper : σ → Prop)
    (state : σ) : Prop where
  proper_next : Proper state → ∀ bytes, Proper (decode state bytes).next
  suffix : ∀ bytes, (decode state bytes).rest <:+ bytes
  more : ∀ {bytes next rest}, decode state bytes = ⟨.ok none, next, rest⟩ →
    rest = [] ∧ ∀ later, decode state (bytes ++ later) = decode next later
  eof : ∀ {bytes next rest}, decode state bytes = ⟨.ok (some .eof), next, rest⟩ →
    ∀ later, decode state (bytes ++ later) = ⟨.ok (some .eof), next, rest ++ later⟩
  fault : ∀ {bytes fault next rest}, decode state bytes = ⟨.error fault, next, rest⟩ →
    ∀ later, decode state (bytes ++ later) = ⟨.error fault, next, rest ++ later⟩
  chunk_length : ∀ {bytes data next rest}, Proper state →
    decode state bytes = ⟨.ok (some (.chunk data)), next, rest⟩ →
    data ≠ [] ∧ data.length + rest.length ≤ bytes.length
  /-- A piece that reaches to the end of the octets at hand may go on in those behind them. -/
  chunk : ∀ {bytes data next rest},
    decode state bytes = ⟨.ok (some (.chunk data)), next, rest⟩ → ∀ later,
    decode state (bytes ++ later) = ⟨.ok (some (.chunk data)), next, rest ++ later⟩ ∨
      rest = [] ∧ ∃ more after left, decode next later = ⟨.ok (some (.chunk more)), after, left⟩ ∧
        decode state (bytes ++ later) = ⟨.ok (some (.chunk (data ++ more))), after, left⟩

theorem Streaming.decode_nil_of_chunk {decode : σ → Bytes → Decoded σ PayloadItem}
    {Proper : σ → Prop} {state after : σ} (h : Streaming decode Proper state)
    (hproper : Proper state) {later left data : Bytes}
    (hlater : decode state later = ⟨.ok (some (.chunk data)), after, left⟩) :
    ∃ next, decode state [] = ⟨.ok none, next, []⟩ ∧ decode next later = decode state later := by
  rcases hnil : decode state [] with ⟨fault | _ | taken | _, next, rest⟩
  · have hfault := h.fault hnil later
    rw [List.nil_append, hlater] at hfault
    simp at hfault
  · obtain ⟨rfl, hnext⟩ := h.more hnil
    exact ⟨next, rfl, (hnext later).symm⟩
  · obtain ⟨hne, hlength⟩ := h.chunk_length hproper hnil
    simp [hne] at hlength
  · have heof := h.eof hnil later
    rw [List.nil_append, hlater] at heof
    simp at heof

theorem Decoded.mapState_eq {decoded : Decoded σ α} {f : σ → τ} {next : τ} {rest : Bytes}
    {outcome : Except RequestFault (Option α)} (h : decoded.mapState f = ⟨outcome, next, rest⟩) :
    ∃ inner, decoded = ⟨outcome, inner, rest⟩ ∧ f inner = next := by
  obtain ⟨rfl, rfl, rfl⟩ := Decoded.mk.inj h
  exact ⟨decoded.next, rfl, rfl⟩

theorem Streaming.mapState {inner : σ → Bytes → Decoded σ PayloadItem} {Inner : σ → Prop}
    {outer : τ → Bytes → Decoded τ PayloadItem} {Outer : τ → Prop} {f : σ → τ}
    (hdecode : ∀ state bytes, outer (f state) bytes = (inner state bytes).mapState f)
    (hproper : ∀ state, Outer (f state) ↔ Inner state) {state : σ}
    (h : Streaming inner Inner state) : Streaming outer Outer (f state) where
  proper_next hstate bytes := by
    rw [hdecode]
    exact (hproper _).mpr (h.proper_next ((hproper state).mp hstate) bytes)
  suffix bytes := by
    rw [hdecode]
    exact h.suffix bytes
  more hmore := by
    rw [hdecode] at hmore
    obtain ⟨next, hnext, rfl⟩ := Decoded.mapState_eq hmore
    refine ⟨(h.more hnext).1, fun later => ?_⟩
    rw [hdecode, hdecode, (h.more hnext).2 later]
  eof heof later := by
    rw [hdecode] at heof
    obtain ⟨next, hnext, rfl⟩ := Decoded.mapState_eq heof
    rw [hdecode, h.eof hnext later]
    rfl
  fault hfault later := by
    rw [hdecode] at hfault
    obtain ⟨next, hnext, rfl⟩ := Decoded.mapState_eq hfault
    rw [hdecode, h.fault hnext later]
    rfl
  chunk_length hstate hchunk := by
    rw [hdecode] at hchunk
    obtain ⟨next, hnext, rfl⟩ := Decoded.mapState_eq hchunk
    exact h.chunk_length ((hproper state).mp hstate) hnext
  chunk hchunk later := by
    rw [hdecode] at hchunk
    obtain ⟨next, hnext, rfl⟩ := Decoded.mapState_eq hchunk
    rw [hdecode, hdecode]
    rcases h.chunk hnext later with hsame | ⟨hrest, more, after, left, hlater, hboth⟩
    · refine .inl ?_
      rw [hsame]
      rfl
    · refine .inr ⟨hrest, more, f after, left, ?_, ?_⟩
      · rw [hlater]
        rfl
      · rw [hboth]
        rfl

/-! Counted bodies. -/

namespace PayloadDecoder

theorem decodeLength_zero (bytes : Bytes) : decodeLength 0 bytes = ⟨.ok (some .eof), 0, bytes⟩ := rfl

theorem decodeLength_nil {remaining : Nat} (h : remaining ≠ 0) :
    decodeLength remaining [] = ⟨.ok none, remaining, []⟩ := by
  rw [decodeLength, if_neg h]
  rfl

theorem decodeLength_of_ne {remaining : Nat} {bytes : Bytes} (h : remaining ≠ 0) (hne : bytes ≠ []) :
    decodeLength remaining bytes =
      ⟨.ok (some (.chunk (bytes.take remaining))), remaining - bytes.length,
        bytes.drop remaining⟩ := by
  rw [decodeLength, if_neg h, if_neg (by simpa using hne)]
  simp only [List.length_take, Decoded.mk.injEq, true_and, and_true]
  omega

theorem decodeLength_eq {remaining : Nat} {bytes rest : Bytes}
    {outcome : Except RequestFault (Option PayloadItem)} {next : Nat}
    (h : decodeLength remaining bytes = ⟨outcome, next, rest⟩) :
    (remaining = 0 ∧ outcome = .ok (some .eof) ∧ next = 0 ∧ rest = bytes) ∨
      (remaining ≠ 0 ∧ bytes = [] ∧ outcome = .ok none ∧ next = remaining ∧ rest = []) ∨
      (remaining ≠ 0 ∧ bytes ≠ [] ∧ outcome = .ok (some (.chunk (bytes.take remaining))) ∧
        next = remaining - bytes.length ∧ rest = bytes.drop remaining) := by
  by_cases hremaining : remaining = 0
  · subst hremaining
    rw [decodeLength_zero] at h
    obtain ⟨rfl, rfl, rfl⟩ := Decoded.mk.inj h
    exact .inl ⟨rfl, rfl, rfl, rfl⟩
  · by_cases hbytes : bytes = []
    · subst hbytes
      rw [decodeLength_nil hremaining] at h
      obtain ⟨rfl, rfl, rfl⟩ := Decoded.mk.inj h
      exact .inr (.inl ⟨hremaining, rfl, rfl, rfl, rfl⟩)
    · rw [decodeLength_of_ne hremaining hbytes] at h
      obtain ⟨rfl, rfl, rfl⟩ := Decoded.mk.inj h
      exact .inr (.inr ⟨hremaining, hbytes, rfl, rfl, rfl⟩)

theorem decodeLength_append {remaining : Nat} {bytes : Bytes} (hremaining : remaining ≠ 0)
    (hbytes : bytes ≠ []) (later : Bytes) :
    decodeLength remaining (bytes ++ later) =
      ⟨.ok (some (.chunk (bytes.take remaining ++ later.take (remaining - bytes.length)))),
        remaining - bytes.length - later.length,
        bytes.drop remaining ++ later.drop (remaining - bytes.length)⟩ := by
  rw [decodeLength_of_ne hremaining (by simp [hbytes]), List.take_append, List.drop_append,
    List.length_append, Nat.sub_sub]

theorem streaming_decodeLength (remaining : Nat) :
    Streaming decodeLength (fun _ => True) remaining where
  proper_next _ _ := trivial
  suffix bytes := by
    unfold decodeLength
    split
    · exact List.suffix_rfl
    · split
      · exact List.suffix_rfl
      · exact List.drop_suffix remaining bytes
  more {bytes next rest} h := by
    rcases decodeLength_eq h with ⟨-, hout, -⟩ | ⟨-, rfl, -, rfl, rfl⟩ | ⟨-, -, hout, -⟩
    · simp at hout
    · exact ⟨rfl, fun later => rfl⟩
    · simp at hout
  eof {bytes next rest} h later := by
    rcases decodeLength_eq h with ⟨rfl, -, rfl, rfl⟩ | ⟨-, -, hout, -⟩ | ⟨-, -, hout, -⟩
    · rfl
    · simp at hout
    · simp at hout
  fault {bytes fault next rest} h := by
    rcases decodeLength_eq h with ⟨-, hout, -⟩ | ⟨-, -, hout, -⟩ | ⟨-, -, hout, -⟩ <;> simp at hout
  chunk_length {bytes data next rest} _ h := by
    rcases decodeLength_eq h with ⟨-, hout, -⟩ | ⟨-, -, hout, -⟩ | ⟨hremaining, hbytes, hout, -, rfl⟩
    · simp at hout
    · simp at hout
    · obtain rfl : data = bytes.take remaining := by simpa using hout
      refine ⟨by simp [hremaining, hbytes], Nat.le_of_eq ?_⟩
      rw [← List.length_append, List.take_append_drop]
  chunk {bytes data next rest} h later := by
    rcases decodeLength_eq h with ⟨-, hout, -⟩ | ⟨-, -, hout, -⟩ |
      ⟨hremaining, hbytes, hout, rfl, rfl⟩
    · simp at hout
    · simp at hout
    · obtain rfl : data = bytes.take remaining := by simpa using hout
      rw [decodeLength_append hremaining hbytes]
      by_cases hmore : remaining - bytes.length = 0 ∨ later = []
      · refine .inl ?_
        rcases hmore with hmore | rfl
        · simp [hmore]
        · simp
      · obtain ⟨hcount, hlater⟩ := not_or.mp hmore
        refine .inr ⟨List.drop_eq_nil_of_le (by omega), _, _, _,
          decodeLength_of_ne hcount hlater, ?_⟩
        rw [List.drop_eq_nil_of_le (by omega : bytes.length ≤ remaining), List.nil_append]

end PayloadDecoder

/-! Chunked bodies. -/

namespace ChunkedDecoder

/-- No chunk is entered that holds nothing. -/
def IsProper (decoder : ChunkedDecoder) : Prop := decoder ≠ .data 0

theorem decode_done (bytes : Bytes) : decode .done bytes = ⟨.ok (some .eof), .done, bytes⟩ := by
  cases bytes <;> rfl

theorem decode_data (octets : Nat) {bytes : Bytes} (hne : bytes ≠ []) :
    decode (.data octets) bytes =
      ⟨.ok (some (.chunk (bytes.take octets))), afterData octets (bytes.take octets).length,
        bytes.drop octets⟩ := by
  cases bytes with
  | nil => contradiction
  | cons b rest => rfl

theorem decode_step {decoder : ChunkedDecoder} (hdone : decoder ≠ .done)
    (hdata : ∀ octets, decoder ≠ .data octets) (b : Byte) (rest : Bytes) :
    decode decoder (b :: rest) =
      match decoder.step b with
      | .ok next => decode next rest
      | .error flaw => ⟨.error flaw.fault, decoder, rest⟩ :=
  decode.eq_4 decoder b rest hdone hdata

theorem decode_cons {decoder next : ChunkedDecoder} {b : Byte} (h : decoder.step b = .ok next)
    (rest : Bytes) : decode decoder (b :: rest) = decode next rest := by
  have hdone : decoder ≠ .done := by
    rintro rfl
    contradiction
  have hdata : ∀ octets, decoder ≠ .data octets := by
    rintro octets rfl
    contradiction
  rw [decode_step hdone hdata, h]

theorem decode_cons_of_flaw {decoder : ChunkedDecoder} {b : Byte} {flaw : Flaw}
    (hdone : decoder ≠ .done) (hdata : ∀ octets, decoder ≠ .data octets)
    (h : decoder.step b = .error flaw) (rest : Bytes) :
    decode decoder (b :: rest) = ⟨.error flaw.fault, decoder, rest⟩ := by
  rw [decode_step hdone hdata, h]

theorem afterData_add {octets taken : Nat} (more : Nat) :
    afterData octets (taken + more) = afterData (octets - taken) more := by
  unfold afterData
  split
  · rw [if_pos (by omega)]
  · rw [if_neg (by omega), Nat.sub_sub]

theorem isProper_afterData (octets taken : Nat) : (afterData octets taken).IsProper := by
  unfold afterData IsProper
  split
  · exact nofun
  · simp only [ne_eq, data.injEq]
    omega

theorem isProper_of_step {decoder next : ChunkedDecoder} {b : Byte}
    (h : decoder.step b = .ok next) : next.IsProper := by
  unfold IsProper
  rintro rfl
  cases decoder <;> simp only [step, addDigit, afterSize, only] at h <;> repeat' split at h
  all_goals simp_all

theorem decode_data_append (octets : Nat) {bytes : Bytes} (hbytes : bytes ≠ []) (later : Bytes) :
    decode (.data octets) (bytes ++ later) =
      ⟨.ok (some (.chunk (bytes.take octets ++ later.take (octets - bytes.length)))),
        afterData octets
          ((bytes.take octets).length + (later.take (octets - bytes.length)).length),
        bytes.drop octets ++ later.drop (octets - bytes.length)⟩ := by
  rw [decode_data octets (by simp [hbytes]), List.take_append, List.drop_append,
    List.length_append]

theorem suffix_decode (decoder : ChunkedDecoder) (bytes : Bytes) :
    (decode decoder bytes).rest <:+ bytes := by
  fun_induction decode decoder bytes with
  | case1 => exact List.suffix_rfl
  | case2 => exact List.suffix_rfl
  | case3 octets b rest => exact List.drop_suffix octets (b :: rest)
  | case4 decoder b rest _ _ next _ ih => exact ih.trans (List.suffix_cons b rest)
  | case5 decoder b rest => exact List.suffix_cons b rest

theorem streaming_decode (decoder : ChunkedDecoder) : Streaming decode IsProper decoder where
  suffix := suffix_decode decoder
  proper_next hproper bytes := by
    fun_induction decode decoder bytes with
    | case1 => exact hproper
    | case2 => exact hproper
    | case3 => exact isProper_afterData _ _
    | case4 _ _ _ _ _ _ hstep ih => exact ih (isProper_of_step hstep)
    | case5 => exact hproper
  more {bytes next rest} h := by
    fun_induction decode decoder bytes with
    | case1 => simp at h
    | case2 =>
        obtain ⟨-, rfl, rfl⟩ := Decoded.mk.inj h
        exact ⟨rfl, fun later => rfl⟩
    | case3 => simp at h
    | case4 decoder b bytes _ _ following hstep ih =>
        refine ⟨(ih h).1, fun later => ?_⟩
        rw [List.cons_append, decode_cons hstep]
        exact (ih h).2 later
    | case5 => simp at h
  eof {bytes next rest} h later := by
    fun_induction decode decoder bytes with
    | case1 =>
        obtain ⟨-, rfl, rfl⟩ := Decoded.mk.inj h
        exact decode_done _
    | case2 => simp at h
    | case3 => simp at h
    | case4 decoder b bytes _ _ following hstep ih =>
        rw [List.cons_append, decode_cons hstep]
        exact ih h
    | case5 => simp at h
  fault {bytes fault next rest} h later := by
    fun_induction decode decoder bytes with
    | case1 => simp at h
    | case2 => simp at h
    | case3 => simp at h
    | case4 decoder b bytes _ _ following hstep ih =>
        rw [List.cons_append, decode_cons hstep]
        exact ih h
    | case5 decoder b bytes hdone hdata flaw hstep =>
        obtain ⟨hfault, rfl, rfl⟩ := Decoded.mk.inj h
        rw [List.cons_append, decode_cons_of_flaw hdone hdata hstep, hfault]
  chunk_length {bytes data next rest} hproper h := by
    fun_induction decode decoder bytes with
    | case1 => simp at h
    | case2 => simp at h
    | case3 octets b bytes taken =>
        obtain ⟨hdata, -, rfl⟩ := Decoded.mk.inj h
        obtain rfl : taken = data := by simpa using hdata
        have hoctets : octets ≠ 0 := fun hzero => hproper (hzero ▸ rfl)
        refine ⟨by simp [taken, hoctets], Nat.le_of_eq ?_⟩
        rw [← List.length_append, List.take_append_drop]
    | case4 decoder b bytes _ _ following hstep ih =>
        obtain ⟨hne, hlength⟩ := ih (isProper_of_step hstep) h
        exact ⟨hne, Nat.le_succ_of_le hlength⟩
    | case5 => simp at h
  chunk {bytes data next rest} h later := by
    fun_induction decode decoder bytes with
    | case1 => simp at h
    | case2 => simp at h
    | case3 octets b bytes taken =>
        obtain ⟨hdata, rfl, rfl⟩ := Decoded.mk.inj h
        obtain rfl : taken = data := by simpa using hdata
        rw [decode_data_append octets (List.cons_ne_nil b bytes)]
        by_cases hmore : octets - (b :: bytes).length = 0 ∨ later = []
        · refine .inl ?_
          rcases hmore with hmore | rfl
          · rw [hmore]
            simp [taken]
          · simp [taken]
        · obtain ⟨hcount, hlater⟩ := not_or.mp hmore
          have htaken : taken = b :: bytes := List.take_of_length_le (by omega)
          have hnext : afterData octets taken.length = .data (octets - (b :: bytes).length) := by
            rw [htaken, afterData, if_neg (by omega)]
          refine .inr ⟨List.drop_eq_nil_of_le (by omega), _, _, _,
            by rw [hnext]; exact decode_data _ hlater, ?_⟩
          have hall : (b :: bytes).take octets = b :: bytes := htaken
          rw [List.drop_eq_nil_of_le (by omega : (b :: bytes).length ≤ octets), List.nil_append,
            afterData_add, hall, htaken]
    | case4 decoder b bytes _ _ following hstep ih =>
        rw [List.cons_append, decode_cons hstep]
        exact ih h
    | case5 => simp at h

end ChunkedDecoder

/-! All bodies. -/

namespace PayloadDecoder

def IsProper : PayloadDecoder → Prop
  | .chunked state => state.IsProper
  | _ => True

theorem isProper_ofSize (size : PayloadSize) : (ofSize size).IsProper := by
  cases size with
  | length octets => trivial
  | chunked => exact nofun
  | empty => trivial

theorem streaming_decode (decoder : PayloadDecoder) : Streaming decode IsProper decoder := by
  cases decoder with
  | length remaining =>
      exact (streaming_decodeLength remaining).mapState (f := PayloadDecoder.length) (fun _ _ => rfl)
        fun _ => Iff.rfl
  | chunked state =>
      exact (ChunkedDecoder.streaming_decode state).mapState (f := PayloadDecoder.chunked) (fun _ _ => rfl)
        fun _ => Iff.rfl
  | empty =>
      exact {
        proper_next := fun _ _ => trivial
        suffix := fun _ => List.suffix_rfl
        more := fun h => by simp [decode] at h
        eof := fun h later => by
          obtain ⟨-, rfl, rfl⟩ := Decoded.mk.inj h
          rfl
        fault := fun h => by simp [decode] at h
        chunk_length := fun _ h => by simp [decode] at h
        chunk := fun h => by simp [decode] at h }

theorem isProper_next {decoder next : PayloadDecoder} (hproper : decoder.IsProper)
    {bytes rest : Bytes} {outcome : Except RequestFault (Option PayloadItem)}
    (h : decoder.decode bytes = ⟨outcome, next, rest⟩) : next.IsProper := by
  simpa only [h] using (streaming_decode decoder).proper_next hproper bytes

theorem chunk_rest_length_lt {decoder next : PayloadDecoder} (hproper : decoder.IsProper)
    {bytes data rest : Bytes} (h : decoder.decode bytes = ⟨.ok (some (.chunk data)), next, rest⟩) :
    rest.length < bytes.length := by
  obtain ⟨hdata, hlength⟩ := (streaming_decode decoder).chunk_length hproper h
  have hpos := List.length_pos_iff.mpr hdata
  omega

/-! All of a buffer. -/

theorem drainWithin_succ (fuel : Nat) (decoder : PayloadDecoder) (bytes : Bytes) :
    drainWithin (fuel + 1) decoder bytes =
      match (decoder.decode bytes).outcome with
      | .error fault => ⟨[], .fault fault, (decoder.decode bytes).next, (decoder.decode bytes).rest⟩
      | .ok none => ⟨[], .more, (decoder.decode bytes).next, (decoder.decode bytes).rest⟩
      | .ok (some .eof) => ⟨[], .eof, (decoder.decode bytes).next, (decoder.decode bytes).rest⟩
      | .ok (some (.chunk data)) =>
        let drained := drainWithin fuel (decoder.decode bytes).next (decoder.decode bytes).rest
        { drained with chunks := data :: drained.chunks } :=
  rfl

theorem drainWithin_eq_of_length_lt {decoder : PayloadDecoder} (hproper : decoder.IsProper)
    {bytes : Bytes} {fuel other : Nat} (hfuel : bytes.length < fuel) (hother : bytes.length < other) :
    drainWithin fuel decoder bytes = drainWithin other decoder bytes := by
  induction fuel generalizing decoder bytes other with
  | zero => contradiction
  | succ fuel ih =>
      cases other with
      | zero => contradiction
      | succ other =>
          rcases hdecode : decoder.decode bytes with ⟨fault | _ | data | _, next, rest⟩
          · simp only [drainWithin_succ, hdecode]
          · simp only [drainWithin_succ, hdecode]
          · have hlength := chunk_rest_length_lt hproper hdecode
            simp only [drainWithin_succ, hdecode]
            rw [ih (isProper_next hproper hdecode) (by omega) (by omega : rest.length < other)]
          · simp only [drainWithin_succ, hdecode]

theorem drain_of_more {decoder next : PayloadDecoder} {bytes rest : Bytes}
    (h : decoder.decode bytes = ⟨.ok none, next, rest⟩) :
    decoder.drain bytes = ⟨[], .more, next, rest⟩ := by
  simp only [drain, drainWithin_succ, h]

theorem drain_of_eof {decoder next : PayloadDecoder} {bytes rest : Bytes}
    (h : decoder.decode bytes = ⟨.ok (some .eof), next, rest⟩) :
    decoder.drain bytes = ⟨[], .eof, next, rest⟩ := by
  simp only [drain, drainWithin_succ, h]

theorem drain_of_fault {decoder next : PayloadDecoder} {bytes rest : Bytes} {fault : RequestFault}
    (h : decoder.decode bytes = ⟨.error fault, next, rest⟩) :
    decoder.drain bytes = ⟨[], .fault fault, next, rest⟩ := by
  simp only [drain, drainWithin_succ, h]

theorem drain_of_chunk {decoder next : PayloadDecoder} (hproper : decoder.IsProper)
    {bytes data rest : Bytes} (h : decoder.decode bytes = ⟨.ok (some (.chunk data)), next, rest⟩) :
    decoder.drain bytes =
      { next.drain rest with chunks := data :: (next.drain rest).chunks } := by
  have hlength := chunk_rest_length_lt hproper h
  rw [drain, drain, ← drainWithin_eq_of_length_lt (isProper_next hproper h) hlength
    (Nat.lt_succ_self rest.length)]
  simp only [drainWithin_succ, h]

/-- What a body leaves over is the end of what it was read from. -/
theorem suffix_drain {decoder : PayloadDecoder} (hproper : decoder.IsProper) (bytes : Bytes) :
    (decoder.drain bytes).rest <:+ bytes := by
  induction hlength : bytes.length using Nat.strongRecOn generalizing decoder bytes with
  | ind length ih =>
      subst hlength
      have hsuffix := (streaming_decode decoder).suffix bytes
      rcases hdecode : decoder.decode bytes with ⟨fault | _ | data | _, next, rest⟩
      all_goals rw [hdecode] at hsuffix
      · rw [drain_of_fault hdecode]
        exact hsuffix
      · rw [drain_of_more hdecode]
        exact hsuffix
      · rw [drain_of_chunk hproper hdecode]
        exact (ih _ (chunk_rest_length_lt hproper hdecode) (isProper_next hproper hdecode) rest
          rfl).trans hsuffix
      · rw [drain_of_eof hdecode]
        exact hsuffix

end PayloadDecoder

end Turnpike
