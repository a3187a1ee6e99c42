import Turnpike.Proofs.Payload.Streaming
import Turnpike.Proofs.Wire.RequestHead

/-!
Requests read off a stream that arrives in feeds.  Where one feed ends and the next begins decides
only into which pieces the data of a body is cut.
-/

namespace Turnpike

namespace Message

/-- Pieces of data that follow one another count as one. -/
def joined : List (Message η) → List (Message η)
  | [] => []
  | .item (.chunk data) :: rest =>
    match joined rest with
    | .item (.chunk more) :: later => .item (.chunk (data ++ more)) :: later
    | later => .item (.chunk data) :: later
  | message :: rest => message :: joined rest

theorem joined_cons_congr (message : Message η) {left right : List (Message η)}
    (h : joined left = joined right) : joined (message :: left) = joined (message :: right) := by
  match message with
  | .head _ _ => simp only [joined, h]
  | .item .eof => simp only [joined, h]
  | .item (.chunk data) => simp only [joined, h]

theorem joined_append_congr (before : List (Message η)) {left right : List (Message η)}
    (h : joined left = joined right) : joined (before ++ left) = joined (before ++ right) := by
  induction before with
  | nil => exact h
  | cons message before ih => exact joined_cons_congr message ih

theorem joined_chunk_chunk (data more : Bytes) (rest : List (Message η)) :
    joined (.item (.chunk data) :: .item (.chunk more) :: rest) =
      joined (.item (.chunk (data ++ more)) :: rest) := by
  match hrest : joined rest with
  | [] => simp [joined, hrest]
  | .head _ _ :: _ => simp [joined, hrest]
  | .item .eof :: _ => simp [joined, hrest]
  | .item (.chunk _) :: _ => simp [joined, hrest]

theorem joined_append_head (before : List (Message η)) (head : η) (size : PayloadSize)
    (later : List (Message η)) :
    joined (before ++ .head head size :: later) = joined before ++ .head head size :: joined later := by
  induction before with
  | nil => rfl
  | cons message before ih =>
      match message with
      | .head _ _ => simp only [List.cons_append, joined, ih]
      | .item .eof => simp only [List.cons_append, joined, ih]
      | .item (.chunk data) =>
          match hbefore : joined before with
          | [] | .head _ _ :: _ | .item .eof :: _ | .item (.chunk _) :: _ =>
              rw [hbefore] at ih
              simp only [List.nil_append, List.cons_append] at ih
              simp only [List.cons_append, joined, hbefore, ih, List.nil_append]

/-! The messages of a body. -/

/-- A body in these pieces. -/
def body (chunks : List Bytes) : List (Message η) :=
  chunks.map (fun data => .item (.chunk data)) ++ [.item .eof]

theorem joined_body_cons (data : Bytes) (chunks : List Bytes) :
    joined (body (data :: chunks) : List (Message η)) =
      [.item (.chunk (data :: chunks).flatten), .item .eof] := by
  induction chunks generalizing data with
  | nil =>
      rw [List.flatten_cons, List.flatten_nil, List.append_nil]
      rfl
  | cons more chunks ih =>
      have hpair : joined (body (data :: more :: chunks) : List (Message η)) =
          joined (body ((data ++ more) :: chunks)) := joined_chunk_chunk data more (body chunks)
      rw [hpair, ih (data ++ more), List.flatten_cons, List.flatten_cons, List.flatten_cons,
        List.append_assoc]

theorem joined_chunk_cases (data : Bytes) (rest : List (Message η)) :
    ∃ whole later, joined (.item (.chunk data) :: rest) = .item (.chunk whole) :: later ∧
      ((∃ more, joined rest = .item (.chunk more) :: later ∧ whole = data ++ more) ∨
        joined rest = later ∧ whole = data) := by
  match hrest : joined rest with
  | .item (.chunk more) :: later =>
      exact ⟨data ++ more, later, by simp only [joined, hrest], .inl ⟨more, rfl, rfl⟩⟩
  | [] => exact ⟨data, [], by simp only [joined, hrest], .inr ⟨rfl, rfl⟩⟩
  | .head _ _ :: _ => exact ⟨data, _, by simp only [joined, hrest], .inr ⟨rfl, rfl⟩⟩
  | .item .eof :: _ => exact ⟨data, _, by simp only [joined, hrest], .inr ⟨rfl, rfl⟩⟩

theorem eq_nil_of_joined {messages : List (Message η)} (h : joined messages = []) :
    messages = [] := by
  match messages with
  | [] => rfl
  | .head _ _ :: _ => exact absurd h nofun
  | .item .eof :: _ => exact absurd h nofun
  | .item (.chunk data) :: rest =>
      obtain ⟨whole, later, hjoined, -⟩ := joined_chunk_cases data rest
      rw [hjoined] at h
      contradiction

theorem exists_of_joined_head {head : η} {size : PayloadSize} {messages later : List (Message η)}
    (h : joined messages = .head head size :: later) :
    ∃ rest, messages = .head head size :: rest ∧ joined rest = later := by
  match messages with
  | [] => exact absurd h nofun
  | .head _ _ :: rest =>
      obtain ⟨hhead, hrest⟩ := List.cons.inj h
      exact ⟨rest, by rw [hhead], hrest⟩
  | .item .eof :: _ => exact absurd (List.cons.inj h).1 nofun
  | .item (.chunk data) :: rest =>
      obtain ⟨whole, others, hjoined, -⟩ := joined_chunk_cases data rest
      rw [hjoined] at h
      exact absurd (List.cons.inj h).1 nofun

/-- Whatever messages come to a body are a body, if perhaps in other pieces. -/
theorem exists_body_of_joined {messages : List (Message η)} {chunks : List Bytes}
    (h : joined messages = joined (body chunks)) :
    ∃ found, messages = body found ∧ found.flatten = chunks.flatten := by
  induction messages generalizing chunks with
  | nil =>
      cases chunks with
      | nil => contradiction
      | cons data chunks =>
          rw [joined_body_cons] at h
          contradiction
  | cons message messages ih =>
      cases chunks with
      | nil =>
          match message with
          | .head _ _ => exact absurd (List.cons.inj h).1 nofun
          | .item (.chunk data) =>
              obtain ⟨whole, later, hjoined, -⟩ := joined_chunk_cases data messages
              rw [hjoined] at h
              exact absurd (List.cons.inj h).1 nofun
          | .item .eof =>
              obtain rfl := eq_nil_of_joined (List.cons.inj h).2
              exact ⟨[], rfl, rfl⟩
      | cons first chunks =>
          rw [joined_body_cons] at h
          match message with
          | .head _ _ => exact absurd (List.cons.inj h).1 nofun
          | .item .eof => exact absurd (List.cons.inj h).1 nofun
          | .item (.chunk data) =>
              obtain ⟨whole, later, hjoined, hmessages⟩ := joined_chunk_cases data messages
              rw [hjoined] at h
              obtain ⟨hwhole, rfl⟩ := List.cons.inj h
              obtain rfl := PayloadItem.chunk.inj (Message.item.inj hwhole)
              -- behind this piece comes a body with the rest of the data, or its end
              rcases hmessages with ⟨more, hmore, hdata⟩ | ⟨hlast, hdata⟩
              · have hone : joined messages = joined (body [more]) := by
                  rw [hmore, joined_body_cons, List.flatten_cons, List.flatten_nil, List.append_nil]
                obtain ⟨found, rfl, hfound⟩ := ih hone
                refine ⟨data :: found, rfl, ?_⟩
                rw [List.flatten_cons, hfound, List.flatten_cons, List.flatten_nil,
                  List.append_nil, hdata]
              · have hnone : joined messages = joined (body []) := hlast
                obtain ⟨found, rfl, hfound⟩ := ih hnone
                refine ⟨data :: found, rfl, ?_⟩
                rw [List.flatten_cons, hfound, List.flatten_nil, List.append_nil, hdata]

end Message

namespace RequestReader

def IsProper (reader : RequestReader) : Prop :=
  ∀ decoder, reader.body = some decoder → decoder.IsProper

theorem isProper_start : start.IsProper := by
  intro decoder h
  contradiction

theorem isProper_ofSize (size : PayloadSize) : IsProper ⟨some (.ofSize size)⟩ := by
  rintro _ ⟨⟩
  exact PayloadDecoder.isProper_ofSize size

/-! One message. -/

theorem decode_body (decoder : PayloadDecoder) (bytes : Bytes) :
    decode ⟨some decoder⟩ bytes =
      ⟨(decoder.decode bytes).outcome.map (·.map .item),
        afterItem (decoder.decode bytes).next (decoder.decode bytes).outcome,
        (decoder.decode bytes).rest⟩ := rfl

theorem decode_head {bytes rest : Bytes} {head : RequestHead} {size : PayloadSize}
    (h : RequestHead.decode bytes = (.ok (some (head, size)), rest)) :
    decode start bytes = ⟨.ok (some (.head head size)), ⟨some (.ofSize size)⟩, rest⟩ := by
  simp only [decode, start, h]

theorem decode_head_more {bytes rest : Bytes} (h : RequestHead.decode bytes = (.ok none, rest)) :
    decode start bytes = ⟨.ok none, start, rest⟩ := by
  simp only [decode, start, h]

theorem decode_head_fault {bytes rest : Bytes} {fault : RequestFault}
    (h : RequestHead.decode bytes = (.error fault, rest)) :
    decode start bytes = ⟨.error fault, start, rest⟩ := by
  simp only [decode, start, h]

/-! What was decoded tells where the reader stood. -/

theorem decode_eq_message {reader next : RequestReader} {bytes rest : Bytes}
    {message : Message RequestHead} (h : reader.decode bytes = ⟨.ok (some message), next, rest⟩) :
    (∃ head size, reader = start ∧ message = .head head size ∧ next = ⟨some (.ofSize size)⟩ ∧
      RequestHead.decode bytes = (.ok (some (head, size)), rest)) ∨
    (∃ decoder item after, reader = ⟨some decoder⟩ ∧ message = .item item ∧
      next = afterItem after (.ok (some item)) ∧
      decoder.decode bytes = ⟨.ok (some item), after, rest⟩) := by
  obtain ⟨_ | decoder⟩ := reader
  · rw [← start] at h ⊢
    rcases hhead : RequestHead.decode bytes with ⟨fault | _ | ⟨head, size⟩, left⟩
    · simp [decode_head_fault hhead] at h
    · simp [decode_head_more hhead] at h
    · rw [decode_head hhead] at h
      obtain ⟨houtcome, rfl, rfl⟩ := Decoded.mk.inj h
      obtain rfl := Option.some.inj (Except.ok.inj houtcome)
      exact .inl ⟨head, size, rfl, rfl, rfl, rfl⟩
  · rw [decode_body] at h
    rcases hdecode : decoder.decode bytes with ⟨fault | _ | item, after, left⟩
    all_goals
      rw [hdecode] at h
      obtain ⟨houtcome, rfl, rfl⟩ := Decoded.mk.inj h
      simp only [Except.map, Option.map_some, Option.map_none, reduceCtorEq, Except.ok.injEq,
        Option.some.injEq] at houtcome
    exact .inr ⟨decoder, item, after, rfl, houtcome.symm, rfl, hdecode⟩

theorem decode_body_eq_message {decoder : PayloadDecoder} {next : RequestReader}
    {bytes rest : Bytes} {message : Message RequestHead}
    (h : decode ⟨some decoder⟩ bytes = ⟨.ok (some message), next, rest⟩) :
    ∃ item after, message = .item item ∧ next = afterItem after (.ok (some item)) ∧
      decoder.decode bytes = ⟨.ok (some item), after, rest⟩ := by
  rcases decode_eq_message h with
    ⟨_, _, hstart, -⟩ | ⟨_, item, after, hdecoder, hmessage, hnext, hdecode⟩
  · exact absurd (congrArg body hstart) nofun
  · cases hdecoder
    exact ⟨item, after, hmessage, hnext, hdecode⟩

theorem decode_eq_more {reader next : RequestReader} {bytes rest : Bytes}
    (h : reader.decode bytes = ⟨.ok none, next, rest⟩) :
    (reader = start ∧ next = start ∧ RequestHead.decode bytes = (.ok none, rest)) ∨
    (∃ decoder after, reader = ⟨some decoder⟩ ∧ next = ⟨some after⟩ ∧
      decoder.decode bytes = ⟨.ok none, after, rest⟩) := by
  obtain ⟨_ | decoder⟩ := reader
  · rw [← start] at h ⊢
    rcases hhead : RequestHead.decode bytes with ⟨fault | _ | ⟨head, size⟩, left⟩
    · simp [decode_head_fault hhead] at h
    · rw [decode_head_more hhead] at h
      obtain ⟨-, rfl, rfl⟩ := Decoded.mk.inj h
      exact .inl ⟨rfl, rfl, rfl⟩
    · simp [decode_head hhead] at h
  · rw [decode_body] at h
    rcases hdecode : decoder.decode bytes with ⟨fault | _ | item, after, left⟩
    all_goals
      rw [hdecode] at h
      obtain ⟨houtcome, rfl, rfl⟩ := Decoded.mk.inj h
      simp only [Except.map, Option.map_some, reduceCtorEq, Except.ok.injEq] at houtcome
    exact .inr ⟨decoder, after, rfl, rfl, hdecode⟩

theorem decode_eq_fault {reader next : RequestReader} {bytes rest : Bytes} {fault : RequestFault}
    (h : reader.decode bytes = ⟨.error fault, next, rest⟩) :
    (reader = start ∧ next = start ∧ RequestHead.decode bytes = (.error fault, rest)) ∨
    (∃ decoder after, reader = ⟨some decoder⟩ ∧ next = ⟨some after⟩ ∧
      decoder.decode bytes = ⟨.error fault, after, rest⟩) := by
  obtain ⟨_ | decoder⟩ := reader
  · rw [← start] at h ⊢
    rcases hhead : RequestHead.decode bytes with ⟨cause | _ | ⟨head, size⟩, left⟩
    · rw [decode_head_fault hhead] at h
      obtain ⟨houtcome, rfl, rfl⟩ := Decoded.mk.inj h
      obtain rfl := Except.error.inj houtcome
      exact .inl ⟨rfl, rfl, rfl⟩
    · simp [decode_head_more hhead] at h
    · simp [decode_head hhead] at h
  · rw [decode_body] at h
    rcases hdecode : decoder.decode bytes with ⟨cause | _ | item, after, left⟩
    all_goals
      rw [hdecode] at h
      obtain ⟨houtcome, rfl, rfl⟩ := Decoded.mk.inj h
      simp only [Except.map, reduceCtorEq, Except.error.injEq] at houtcome
    subst houtcome
    exact .inr ⟨decoder, after, rfl, rfl, hdecode⟩

theorem isProper_next {reader next : RequestReader} (hproper : reader.IsProper) {bytes rest : Bytes}
    {outcome : Except RequestFault (Option (Message RequestHead))}
    (h : reader.decode bytes = ⟨outcome, next, rest⟩) : next.IsProper := by
  rcases outcome with fault | _ | message
  · rcases decode_eq_fault h with ⟨-, rfl, -⟩ | ⟨decoder, after, rfl, rfl, hdecode⟩
    · exact isProper_start
    · rintro _ ⟨⟩
      exact PayloadDecoder.isProper_next (hproper decoder rfl) hdecode
  · rcases decode_eq_more h with ⟨-, rfl, -⟩ | ⟨decoder, after, rfl, rfl, hdecode⟩
    · exact isProper_start
    · rintro _ ⟨⟩
      exact PayloadDecoder.isProper_next (hproper decoder rfl) hdecode
  · rcases decode_eq_message h with ⟨head, size, -, -, rfl, -⟩ |
      ⟨decoder, data | _, after, rfl, -, rfl, hdecode⟩
    · exact isProper_ofSize size
    · rintro _ ⟨⟩
      exact PayloadDecoder.isProper_next (hproper decoder rfl) hdecode
    · exact isProper_start

/-- Room for the messages still to come: every piece and every head takes an octet, and an end is
followed by a head. -/
def weight (reader : RequestReader) (bytes : Bytes) : Nat :=
  3 * bytes.length + if reader.body.isSome then 2 else 1

theorem weight_next_lt {reader next : RequestReader} {bytes rest : Bytes}
    {message : Message RequestHead} (hproper : reader.IsProper)
    (h : reader.decode bytes = ⟨.ok (some message), next, rest⟩) :
    next.weight rest < reader.weight bytes := by
  rcases decode_eq_message h with ⟨head, size, rfl, -, rfl, hhead⟩ |
    ⟨decoder, data | _, after, rfl, -, rfl, hdecode⟩
  · have hlength := RequestHead.decode_some_length_lt hhead
    simp only [weight, start, Option.isSome_some, Option.isSome_none, if_true]
    omega
  · have hlength := PayloadDecoder.chunk_rest_length_lt (hproper decoder rfl) hdecode
    simp only [weight, afterItem, Option.isSome_some, if_true]
    omega
  · have hlength : rest.length ≤ bytes.length := by
      simpa only [hdecode] using
        ((PayloadDecoder.streaming_decode decoder).suffix bytes).length_le
    simp only [weight, afterItem, Option.isSome_some, Option.isSome_none, if_true]
    simp only [Bool.false_eq_true, if_false]
    omega

theorem length_of_more {reader next : RequestReader} {bytes rest : Bytes}
    (h : reader.decode bytes = ⟨.ok none, next, rest⟩) : rest.length ≤ bytes.length := by
  rcases decode_eq_more h with ⟨-, -, hhead⟩ | ⟨decoder, after, -, -, hdecode⟩
  · rw [RequestHead.rest_of_decode_none hhead]
  · rw [((PayloadDecoder.streaming_decode decoder).more hdecode).1]
    exact Nat.zero_le _

theorem length_of_chunk {reader next : RequestReader} (hproper : reader.IsProper)
    {bytes data rest : Bytes}
    (h : reader.decode bytes = ⟨.ok (some (.item (.chunk data))), next, rest⟩) :
    rest.length < bytes.length := by
  rcases decode_eq_message h with ⟨_, _, _, hhead, _⟩ | ⟨decoder, item, after, rfl, hitem, -, hdecode⟩
  · contradiction
  · obtain rfl := Message.item.inj hitem
    exact PayloadDecoder.chunk_rest_length_lt (hproper decoder rfl) hdecode

/-! A buffer. -/

def Drained.after (before : List (Message RequestHead)) (drained : Drained) : Drained :=
  { drained with messages := before ++ drained.messages }

theorem drainWithin_succ (fuel : Nat) (reader : RequestReader) (bytes : Bytes) :
    drainWithin (fuel + 1) reader bytes =
      match (reader.decode bytes).outcome with
      | .error fault => ⟨[], some fault, (reader.decode bytes).next, (reader.decode bytes).rest⟩
      | .ok none => ⟨[], none, (reader.decode bytes).next, (reader.decode bytes).rest⟩
      | .ok (some message) =>
        (drainWithin fuel (reader.decode bytes).next (reader.decode bytes).rest).after [message] :=
  rfl

theorem drainWithin_eq_of_weight_lt {reader : RequestReader} (hproper : reader.IsProper)
    {bytes : Bytes} {fuel other : Nat} (hfuel : reader.weight bytes < fuel)
    (hother : reader.weight bytes < other) :
    drainWithin fuel reader bytes = drainWithin other reader bytes := by
  induction fuel generalizing reader bytes other with
  | zero => contradiction
  | succ fuel ih =>
      cases other with
      | zero => contradiction
      | succ other =>
          rcases hdecode : reader.decode bytes with ⟨fault | _ | message, next, rest⟩
          · simp only [drainWithin_succ, hdecode]
          · simp only [drainWithin_succ, hdecode]
          · have hweight := weight_next_lt hproper hdecode
            simp only [drainWithin_succ, hdecode]
            rw [ih (isProper_next hproper hdecode) (by omega) (by omega : next.weight rest < other)]

theorem drain_of_more {reader next : RequestReader} {bytes rest : Bytes}
    (h : reader.decode bytes = ⟨.ok none, next, rest⟩) :
    reader.drain bytes = ⟨[], none, next, rest⟩ := by
  simp only [drain, drainWithin_succ, h]

theorem drain_of_fault {reader next : RequestReader} {bytes rest : Bytes} {fault : RequestFault}
    (h : reader.decode bytes = ⟨.error fault, next, rest⟩) :
    reader.drain bytes = ⟨[], some fault, next, rest⟩ := by
  simp only [drain, drainWithin_succ, h]

theorem drain_of_message {reader next : RequestReader} (hproper : reader.IsProper)
    {bytes rest : Bytes} {message : Message RequestHead}
    (h : reader.decode bytes = ⟨.ok (some message), next, rest⟩) :
    reader.drain bytes = (next.drain rest).after [message] := by
  have hweight := weight_next_lt hproper h
  have hfuel : reader.weight bytes ≤ 3 * bytes.length + 2 := by
    unfold weight
    split <;> omega
  have hrest : next.weight rest < 3 * rest.length + 3 := by
    unfold weight
    split <;> omega
  rw [drain, drain, ← drainWithin_eq_of_weight_lt (isProper_next hproper h)
    (by omega : next.weight rest < 3 * bytes.length + 2) hrest]
  simp only [drainWithin_succ, h]

@[elab_as_elim]
theorem drain_induction {motive : RequestReader → Bytes → Prop}
    (more : ∀ {reader bytes next rest}, reader.IsProper →
      reader.decode bytes = ⟨.ok none, next, rest⟩ → motive reader bytes)
    (fault : ∀ {reader bytes fault next rest}, reader.IsProper →
      reader.decode bytes = ⟨.error fault, next, rest⟩ → motive reader bytes)
    (message : ∀ {reader bytes message next rest}, reader.IsProper → next.IsProper →
      reader.decode bytes = ⟨.ok (some message), next, rest⟩ → motive next rest →
      motive reader bytes)
    {reader : RequestReader} (hproper : reader.IsProper) (bytes : Bytes) : motive reader bytes := by
  induction hweight : reader.weight bytes using Nat.strong_induction_on generalizing reader bytes with
  | _ weight ih =>
      subst hweight
      rcases hdecode : reader.decode bytes with ⟨outcome | _ | found, next, rest⟩
      · exact fault hproper hdecode
      · exact more hproper hdecode
      · have hnext := isProper_next hproper hdecode
        exact message hproper hnext hdecode (ih _ (weight_next_lt hproper hdecode) hnext rest rfl)

/-! More octets behind those of a buffer. -/

theorem decode_append_of_more {reader next : RequestReader} {bytes rest : Bytes}
    (h : reader.decode bytes = ⟨.ok none, next, rest⟩) (later : Bytes) :
    reader.decode (bytes ++ later) = next.decode (rest ++ later) := by
  rcases decode_eq_more h with ⟨rfl, rfl, hhead⟩ | ⟨decoder, after, rfl, rfl, hdecode⟩
  · rw [RequestHead.rest_of_decode_none hhead]
  · obtain ⟨rfl, hlater⟩ := (PayloadDecoder.streaming_decode decoder).more hdecode
    simp only [decode_body, hlater, List.nil_append]

theorem decode_append_of_fault {reader next : RequestReader} {bytes rest : Bytes}
    {fault : RequestFault} (h : reader.decode bytes = ⟨.error fault, next, rest⟩) (later : Bytes) :
    ∃ other left, reader.decode (bytes ++ later) = ⟨.error other, next, left⟩ ∧
      (next.body ≠ none → other = fault) := by
  rcases decode_eq_fault h with ⟨rfl, rfl, hhead⟩ | ⟨decoder, after, rfl, rfl, hdecode⟩
  · obtain ⟨other, hother⟩ := RequestHead.decode_append_of_error (congrArg Prod.fst hhead) later
    exact ⟨other, _, decode_head_fault (Prod.ext hother rfl), fun hbody => absurd rfl hbody⟩
  · refine ⟨fault, rest ++ later, ?_, fun _ => rfl⟩
    rw [decode_body, (PayloadDecoder.streaming_decode decoder).fault hdecode later]
    rfl

theorem decode_append_of_message {reader next : RequestReader} {bytes rest : Bytes}
    {message : Message RequestHead} (h : reader.decode bytes = ⟨.ok (some message), next, rest⟩)
    (later : Bytes) :
    reader.decode (bytes ++ later) = ⟨.ok (some message), next, rest ++ later⟩ ∨
      rest = [] ∧ ∃ data more after left, message = .item (.chunk data) ∧
        next.decode later = ⟨.ok (some (.item (.chunk more))), after, left⟩ ∧
        reader.decode (bytes ++ later) =
          ⟨.ok (some (.item (.chunk (data ++ more)))), after, left⟩ := by
  rcases decode_eq_message h with ⟨head, size, rfl, rfl, rfl, hhead⟩ |
    ⟨decoder, data | _, after, rfl, rfl, rfl, hdecode⟩
  · exact .inl (decode_head (RequestHead.decode_append_of_some hhead later))
  · rcases (PayloadDecoder.streaming_decode decoder).chunk hdecode later with
      hsame | ⟨rfl, more, beyond, left, hlater, hboth⟩
    · refine .inl ?_
      rw [decode_body, hsame]
      rfl
    · refine .inr ⟨rfl, data, more, afterItem beyond (.ok (some (.chunk more))), left, rfl, ?_, ?_⟩
      · simp only [afterItem, decode_body, hlater]
        rfl
      · rw [decode_body, hboth]
        rfl
  · refine .inl ?_
    rw [decode_body, (PayloadDecoder.streaming_decode decoder).eof hdecode later]
    rfl

/-! Feeds. -/

/-- Drains the buffer after each feed, up to the first fault. -/
def drainFeeds (reader : RequestReader) (buffer : Bytes) : List Bytes → Drained
  | [] => ⟨[], none, reader, buffer⟩
  | feed :: feeds =>
    let drained := reader.drain (buffer ++ feed)
    match drained.fault with
    | some _ => drained
    | none => (drainFeeds drained.reader drained.rest feeds).after drained.messages

/-- The same but for how data is cut, and for why a head is refused. -/
structure Drained.Agrees (left right : Drained) : Prop where
  messages : Message.joined left.messages = Message.joined right.messages
  reader : left.reader = right.reader
  fault : left.fault.isSome = right.fault.isSome
  bodyFault : left.reader.body ≠ none → left.fault = right.fault
  rest : left.fault = none → left.rest = right.rest

namespace Drained.Agrees

theorem refl (drained : Drained) : drained.Agrees drained :=
  ⟨rfl, rfl, rfl, fun _ => rfl, fun _ => rfl⟩

theorem fault_eq_none {left right : Drained} (h : left.Agrees right) :
    left.fault = none ↔ right.fault = none := by
  rw [← Option.not_isSome_iff_eq_none, ← Option.not_isSome_iff_eq_none, h.fault]

theorem symm {left right : Drained} (h : left.Agrees right) : right.Agrees left where
  messages := h.messages.symm
  reader := h.reader.symm
  fault := h.fault.symm
  bodyFault hbody := (h.bodyFault (h.reader ▸ hbody)).symm
  rest hfault := (h.rest (h.fault_eq_none.mpr hfault)).symm

theorem trans {left middle right : Drained} (hleft : left.Agrees middle)
    (hright : middle.Agrees right) : left.Agrees right where
  messages := hleft.messages.trans hright.messages
  reader := hleft.reader.trans hright.reader
  fault := hleft.fault.trans hright.fault
  bodyFault hbody := (hleft.bodyFault hbody).trans (hright.bodyFault (hleft.reader ▸ hbody))
  rest hfault := (hleft.rest hfault).trans (hright.rest (hleft.fault_eq_none.mp hfault))

theorem after (before : List (Message RequestHead)) {left right : Drained}
    (h : left.Agrees right) : (left.after before).Agrees (right.after before) where
  messages := Message.joined_append_congr before h.messages
  reader := h.reader
  fault := h.fault
  bodyFault := h.bodyFault
  rest := h.rest

end Drained.Agrees

theorem decode_of_drain {reader : RequestReader} (hproper : reader.IsProper) (bytes : Bytes) :
    (reader.drain bytes).reader.IsProper ∧ ((reader.drain bytes).fault = none →
      (reader.drain bytes).reader.decode (reader.drain bytes).rest =
        ⟨.ok none, (reader.drain bytes).reader, (reader.drain bytes).rest⟩) := by
  refine drain_induction ?more ?fault ?message hproper bytes
  case more =>
    intro reader bytes next rest hproper hdecode
    refine ⟨?_, fun _ => ?_⟩
    · simpa only [drain_of_more hdecode] using isProper_next hproper hdecode
    · have hrest := decode_append_of_more hdecode []
      rw [List.append_nil, List.append_nil, hdecode] at hrest
      rw [drain_of_more hdecode, ← hrest]
  case fault =>
    intro reader bytes fault next rest hproper hdecode
    refine ⟨?_, fun hfault => ?_⟩
    · simpa only [drain_of_fault hdecode] using isProper_next hproper hdecode
    · rw [drain_of_fault hdecode] at hfault
      contradiction
  case message =>
    intro reader bytes message next rest hproper _ hdecode ih
    rw [drain_of_message hproper hdecode]
    exact ih

theorem drain_congr {reader other : RequestReader} (hreader : reader.IsProper)
    (hother : other.IsProper) {bytes octets : Bytes}
    (h : reader.decode bytes = other.decode octets) : reader.drain bytes = other.drain octets := by
  rcases hdecode : other.decode octets with ⟨fault | _ | message, next, rest⟩
  · rw [drain_of_fault hdecode, drain_of_fault (h.trans hdecode)]
  · rw [drain_of_more hdecode, drain_of_more (h.trans hdecode)]
  · rw [drain_of_message hother hdecode, drain_of_message hreader (h.trans hdecode)]

/-- Goes on with what a drained buffer left over, unless it ended in a fault. -/
def Drained.resume (drained : Drained) (later : Bytes) : Drained :=
  match drained.fault with
  | some _ => drained
  | none => (drained.reader.drain (drained.rest ++ later)).after drained.messages

theorem Drained.resume_after (before : List (Message RequestHead)) (drained : Drained)
    (later : Bytes) : (drained.after before).resume later = (drained.resume later).after before := by
  obtain ⟨messages, fault | _, reader, rest⟩ := drained
  · simp only [resume, after, List.append_assoc]
  · rfl

theorem drain_nil_of_chunk {reader after : RequestReader} (hproper : reader.IsProper)
    {later left more : Bytes}
    (h : reader.decode later = ⟨.ok (some (.item (.chunk more))), after, left⟩) :
    ∃ next, reader.drain [] = ⟨[], none, next, []⟩ ∧ next.IsProper ∧
      next.decode later = ⟨.ok (some (.item (.chunk more))), after, left⟩ := by
  rcases decode_eq_message h with ⟨_, _, _, hhead, _⟩ | ⟨decoder, item, next, rfl, hitem, -, hlater⟩
  · contradiction
  · obtain rfl := Message.item.inj hitem
    obtain ⟨waiting, hnil, hwaiting⟩ :=
      (PayloadDecoder.streaming_decode decoder).decode_nil_of_chunk (hproper decoder rfl) hlater
    have hdecode : decode ⟨some decoder⟩ [] = ⟨.ok none, ⟨some waiting⟩, []⟩ := by
      rw [decode_body, hnil]
      rfl
    refine ⟨⟨some waiting⟩, drain_of_more hdecode, isProper_next hproper hdecode, ?_⟩
    rw [← h, decode_body, decode_body, hwaiting]

/-- Draining may stop anywhere to wait for the octets that follow. -/
theorem agrees_drain_append {reader : RequestReader} (hproper : reader.IsProper)
    (bytes later : Bytes) : ((reader.drain bytes).resume later).Agrees (reader.drain (bytes ++ later)) := by
  refine drain_induction ?more ?fault ?message hproper bytes
  case more =>
    intro reader bytes next rest hproper hdecode
    have hnext := isProper_next hproper hdecode
    rw [drain_congr hproper hnext (decode_append_of_more hdecode later), drain_of_more hdecode]
    exact .refl _
  case fault =>
    intro reader bytes fault next rest _ hdecode
    obtain ⟨other, left, hlater, hsame⟩ := decode_append_of_fault hdecode later
    rw [drain_of_fault hdecode, drain_of_fault hlater]
    exact ⟨rfl, rfl, rfl, fun hbody => congrArg some (hsame hbody).symm, nofun⟩
  case message =>
    intro reader bytes message next rest hproper hnext hdecode ih
    rw [drain_of_message hproper hdecode, Drained.resume_after]
    rcases decode_append_of_message hdecode later with
      hsame | ⟨rfl, data, more, beyond, left, rfl, hlater, hboth⟩
    · rw [drain_of_message hproper hsame]
      exact ih.after [message]
    · obtain ⟨waiting, hnil, hwaiting, hmore⟩ := drain_nil_of_chunk hnext hlater
      rw [drain_of_message hproper hboth, hnil]
      simp only [Drained.resume, List.nil_append]
      rw [drain_of_message hwaiting hmore]
      refine ⟨?_, rfl, rfl, fun _ => rfl, fun _ => rfl⟩
      exact Message.joined_chunk_chunk data more _

theorem drainFeeds_cons (reader : RequestReader) (buffer feed : Bytes) (feeds : List Bytes) :
    reader.drainFeeds buffer (feed :: feeds) =
      match (reader.drain (buffer ++ feed)).fault with
      | some _ => reader.drain (buffer ++ feed)
      | none => ((reader.drain (buffer ++ feed)).reader.drainFeeds
          (reader.drain (buffer ++ feed)).rest feeds).after
            (reader.drain (buffer ++ feed)).messages := rfl

theorem agrees_drainFeeds (feeds : List Bytes) {reader : RequestReader} (hproper : reader.IsProper)
    {buffer : Bytes} (hrest : reader.decode buffer = ⟨.ok none, reader, buffer⟩) :
    (reader.drainFeeds buffer feeds).Agrees (reader.drain (buffer ++ feeds.flatten)) := by
  induction feeds generalizing reader buffer with
  | nil =>
      rw [List.flatten_nil, List.append_nil, drain_of_more hrest]
      exact .refl _
  | cons feed feeds ih =>
      obtain ⟨hdrained, hwaiting⟩ := decode_of_drain hproper (buffer ++ feed)
      have hwhole := agrees_drain_append hproper (buffer ++ feed) feeds.flatten
      rw [List.append_assoc, ← List.flatten_cons] at hwhole
      refine .trans ?_ hwhole
      rw [drainFeeds_cons, Drained.resume]
      cases hfault : (reader.drain (buffer ++ feed)).fault with
      | some fault => exact .refl _
      | none => exact (ih hdrained (hwaiting hfault)).after _

/-- However the octets of a stream arrive, the same requests are read off it: heads, sizes, data and
ends of bodies, up to the same fault. -/
theorem drainFeeds_agree {first second : List Bytes} (h : first.flatten = second.flatten) :
    (start.drainFeeds [] first).Agrees (start.drainFeeds [] second) := by
  have hrest : start.decode [] = ⟨.ok none, start, []⟩ := rfl
  have hfirst := agrees_drainFeeds first isProper_start hrest
  have hsecond := agrees_drainFeeds second isProper_start hrest
  rw [h] at hfirst
  exact hfirst.trans hsecond.symm

theorem drainFeeds_agree_cut_in_head_and_body :
    let first := [Bytes.ofText "PUT / HTTP/1.1\r\nContent-Le", Bytes.ofText "ngth: 3\r\n\r\na",
      Bytes.ofText "bc"]
    let second := [Bytes.ofText "PUT / HTTP/1.1\r\nContent-Length: 3\r\n\r\nabc"]
    first.flatten = second.flatten ∧
      (start.drainFeeds [] first).messages.length = 4 ∧
      (start.drainFeeds [] second).messages.length = 3 ∧
      (start.drainFeeds [] first).Agrees (start.drainFeeds [] second) := by
  intro first second
  have hsame : first.flatten = second.flatten := by decide
  exact ⟨hsame, by decide +kernel, by decide +kernel, drainFeeds_agree hsame⟩

end RequestReader

end Turnpike
