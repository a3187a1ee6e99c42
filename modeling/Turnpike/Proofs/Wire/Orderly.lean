import Turnpike.Proofs.Payload.Acceptance
import Turnpike.Proofs.Wire.Boundary
import Turnpike.Proofs.Wire.Feeds

/-!
A reader over the whole of a stream.  However arrivals and calls follow one another, it hands out
whole requests and the front of one more, and every octet that it consumes stands in the header
section, the framing or the data of one of them.
-/

namespace Turnpike

open Octet

namespace PayloadDecoder

/-- A decoder that was started for a size, and the octets of the body that it has behind it. -/
inductive Behind : PayloadSize → List Octet → PayloadDecoder → Prop
  | length {n remaining : Nat} {data : Bytes} (hcount : data.length + remaining = n) :
      Behind (.length n) (contained data) (.length remaining)
  | chunked {octets : List Octet} {state : ChunkedDecoder}
      (hreads : ChunkedDecoder.Reads .sizeStart octets state) :
      Behind .chunked octets (.chunked state)
  | empty : Behind .empty [] .empty

theorem behind_ofSize (size : PayloadSize) : Behind size [] (ofSize size) := by
  cases size with
  | length n =>
      have hcount : ([] : Bytes).length + n = n := Nat.zero_add n
      exact .length hcount
  | chunked => exact .chunked .nil
  | empty => exact .empty

/-- What is behind a decoder is the front of a body. -/
theorem Behind.exists_missing {size : PayloadSize} {octets : List Octet} {decoder : PayloadDecoder}
    (h : Behind size octets decoder) : ∃ missing, IsBody size (octets ++ missing) := by
  cases h with
  | @length n remaining data hcount =>
      refine ⟨contained (List.replicate remaining 0), data ++ List.replicate remaining 0, ?_, ?_⟩
      · rw [List.length_append, List.length_replicate, hcount]
      · exact List.map_append.symm
  | @chunked octets state hreads =>
      obtain ⟨later, hlater⟩ := ChunkedDecoder.completes state
      exact ⟨later, ChunkedDecoder.reads_done_iff.mp (hreads.append hlater)⟩
  | empty => exact ⟨[], rfl⟩

/-- What one call of a decoder takes of its body, and what it hands out for that. -/
inductive Takes (size : PayloadSize) (octets : List Octet) :
    Bytes → Decoded PayloadDecoder PayloadItem → Prop
  | more (taken : List Octet) {next : PayloadDecoder} {rest : Bytes} (hnone : content taken = [])
      (hbehind : Behind size (octets ++ taken) next) :
      Takes size octets (wire taken ++ rest) ⟨.ok none, next, rest⟩
  | chunk (taken : List Octet) {next : PayloadDecoder} {rest : Bytes} (hsome : content taken ≠ [])
      (hbehind : Behind size (octets ++ taken) next) :
      Takes size octets (wire taken ++ rest) ⟨.ok (some (.chunk (content taken))), next, rest⟩
  | eof (taken : List Octet) {next : PayloadDecoder} {rest : Bytes} (hnone : content taken = [])
      (hbody : IsBody size (octets ++ taken)) :
      Takes size octets (wire taken ++ rest) ⟨.ok (some .eof), next, rest⟩
  | fault {bytes rest : Bytes} {fault : RequestFault} {next : PayloadDecoder} :
      Takes size octets bytes ⟨.error fault, next, rest⟩

theorem takes_decodeLength {n remaining : Nat} {data : Bytes} (hcount : data.length + remaining = n)
    (bytes : Bytes) :
    Takes (.length n) (contained data) bytes ((decodeLength remaining bytes).mapState .length) := by
  rcases hdecode : decodeLength remaining bytes with ⟨outcome, next, rest⟩
  rcases decodeLength_eq hdecode with ⟨rfl, rfl, rfl, rfl⟩ | ⟨-, rfl, rfl, rfl, rfl⟩ |
    ⟨hremaining, hbytes, rfl, rfl, rfl⟩
  · exact .eof [] rfl ⟨data, hcount, List.append_nil _⟩
  · exact .more [] rfl ((List.append_nil (contained data)).symm ▸ .length hcount)
  · have htakes : Takes (.length n) (contained data)
        (wire (contained (bytes.take remaining)) ++ bytes.drop remaining)
        ⟨.ok (some (.chunk (content (contained (bytes.take remaining))))),
          .length (remaining - bytes.length), bytes.drop remaining⟩ := by
      refine .chunk _ (by simp [hremaining, hbytes]) ?_
      have hboth : contained data ++ contained (bytes.take remaining) =
          contained (data ++ bytes.take remaining) := List.map_append.symm
      rw [hboth]
      refine .length ?_
      rw [List.length_append, List.length_take]
      omega
    rwa [wire_contained, content_contained, List.take_append_drop] at htakes

theorem Behind.takes {size : PayloadSize} {octets : List Octet} {decoder : PayloadDecoder}
    (h : Behind size octets decoder) (hproper : decoder.IsProper) (bytes : Bytes) :
    Takes size octets bytes (decoder.decode bytes) := by
  have hsome : ∀ {data next rest}, decoder.decode bytes = ⟨.ok (some (.chunk data)), next, rest⟩ →
      data ≠ [] := fun hchunk => ((streaming_decode decoder).chunk_length hproper hchunk).1
  cases h with
  | length hcount => exact takes_decodeLength hcount bytes
  | empty => exact .eof [] rfl rfl
  | @chunked octets state hreads =>
      have houter : (PayloadDecoder.chunked state).decode bytes =
          (state.decode bytes).mapState .chunked := rfl
      have hcomes := ChunkedDecoder.comes_decode hproper bytes
      rw [houter] at hsome ⊢
      generalize state.decode bytes = decoded at hcomes hsome
      cases hcomes with
      | @more taken next hnext hnone hopen =>
          have htakes : Takes .chunked octets (wire taken ++ []) ⟨.ok none, .chunked next, []⟩ :=
            .more taken hnone (.chunked (hreads.append hnext))
          rwa [List.append_nil] at htakes
      | chunk taken hnext => exact .chunk taken (hsome rfl) (.chunked (hreads.append hnext))
      | eof taken hnext hnone =>
          exact .eof taken hnone (ChunkedDecoder.reads_done_iff.mp (hreads.append hnext))
      | fault => exact .fault

end PayloadDecoder

namespace RequestReader

open PayloadDecoder

/-! One request. -/

/-- What a reader has taken of one request, and the pieces that it has handed out for it. -/
structure Portion where
  /-- The octets of the head and of the empty lines in front of it. -/
  opening : Bytes
  head : RequestHead
  size : PayloadSize
  body : List Octet
  chunks : List Bytes

namespace Portion

def octets (portion : Portion) : Bytes := portion.opening ++ wire portion.body

/-- But for the end of the body. -/
def messages (portion : Portion) : List (Message RequestHead) :=
  .head portion.head portion.size :: portion.chunks.map fun data => .item (.chunk data)

def allMessages (portion : Portion) : List (Message RequestHead) :=
  portion.messages ++ [.item .eof]

/-- The opening is a header section, and each octet of data belongs to the piece in its place. -/
structure IsSorted (portion : Portion) : Prop where
  opening : RequestHead.decode portion.opening = (.ok (some (portion.head, portion.size)), [])
  data : portion.chunks.flatten = content portion.body
  pieces : ∀ data ∈ portion.chunks, data ≠ []

structure IsOpen (portion : Portion) : Prop extends portion.IsSorted where
  body : ∃ missing, IsBody portion.size (portion.body ++ missing)

structure IsWhole (portion : Portion) : Prop extends portion.IsSorted where
  body : IsBody portion.size portion.body

variable {portion : Portion}

theorem IsWhole.isOpen (h : portion.IsWhole) : portion.IsOpen where
  toIsSorted := h.toIsSorted
  body := ⟨[], (List.append_nil portion.body).symm ▸ h.body⟩

theorem IsWhole.length_eq (h : portion.IsWhole) {n : Nat} (hsize : portion.size = .length n) :
    portion.chunks.flatten.length = n := by
  have hbody := h.body
  rw [hsize] at hbody
  obtain ⟨data, hlength, hcontained⟩ := hbody
  rw [h.data, hcontained, content_contained, hlength]

theorem IsOpen.length_le (h : portion.IsOpen) {n : Nat} (hsize : portion.size = .length n) :
    portion.chunks.flatten.length ≤ n := by
  obtain ⟨missing, hbody⟩ := h.body
  rw [hsize] at hbody
  obtain ⟨data, hlength, hcontained⟩ := hbody
  obtain ⟨before, after, rfl, hfront, -⟩ := append_eq_contained hcontained
  rw [h.data, hfront, content_contained, ← hlength, List.length_append]
  exact Nat.le_add_right _ _

theorem IsOpen.chunks_eq_nil (h : portion.IsOpen) (hsize : portion.size = .empty) :
    portion.chunks = [] := by
  obtain ⟨missing, hbody⟩ := h.body
  rw [hsize] at hbody
  have hnone : portion.body ++ missing = [] := hbody
  have hdata := h.data
  rw [(List.append_eq_nil_iff.mp hnone).1, content_nil, List.flatten_eq_nil_iff] at hdata
  exact List.eq_nil_iff_forall_not_mem.mpr fun data hmem => h.pieces data hmem (hdata data hmem)

/-- A portion with more octets, and with the piece that they bring, if they bring any. -/
def extend (portion : Portion) (taken : List Octet) (chunk? : Option Bytes) : Portion :=
  { portion with body := portion.body ++ taken, chunks := portion.chunks ++ chunk?.toList }

theorem octets_extend (portion : Portion) (taken : List Octet) (chunk? : Option Bytes) :
    (portion.extend taken chunk?).octets = portion.octets ++ wire taken := by
  simp only [octets, extend, wire_append, List.append_assoc]

theorem messages_extend (portion : Portion) (taken : List Octet) (chunk? : Option Bytes) :
    (portion.extend taken chunk?).messages =
      portion.messages ++ chunk?.toList.map fun data => .item (.chunk data) := by
  simp only [messages, extend, List.map_append, List.cons_append]

theorem IsSorted.extend (h : portion.IsSorted) {taken : List Octet} {chunk? : Option Bytes}
    (hdata : chunk?.toList.flatten = content taken) (hpieces : ∀ data ∈ chunk?, data ≠ []) :
    (portion.extend taken chunk?).IsSorted where
  opening := h.opening
  data := by simp only [Portion.extend, List.flatten_append, content_append, h.data, hdata]
  pieces data hmem := by
    rcases List.mem_append.mp hmem with hbefore | hnew
    · exact h.pieces data hbefore
    · exact hpieces data (Option.mem_toList.mp hnew)

end Portion

/-! All calls. -/

theorem suffix_of_ok {reader next : RequestReader} {bytes rest : Bytes}
    {found : Option (Message RequestHead)} (h : reader.decode bytes = ⟨.ok found, next, rest⟩) :
    rest <:+ bytes := by
  have hbody : ∀ {decoder after : PayloadDecoder} {item : Option PayloadItem},
      decoder.decode bytes = ⟨.ok item, after, rest⟩ → rest <:+ bytes := by
    intro decoder after item hdecode
    simpa only [hdecode] using (streaming_decode decoder).suffix bytes
  cases found with
  | none =>
      rcases decode_eq_more h with ⟨-, -, hhead⟩ | ⟨decoder, after, -, -, hdecode⟩
      · exact RequestHead.rest_of_decode_none hhead ▸ List.suffix_rfl
      · exact hbody hdecode
  | some message =>
      rcases decode_eq_message h with
        ⟨head, size, -, -, -, hhead⟩ | ⟨decoder, item, after, -, -, -, hdecode⟩
      · obtain ⟨opening, rfl, -⟩ := RequestHead.exists_opening_of_decode hhead
        exact List.suffix_append opening rest
      · exact hbody hdecode

inductive Event where
  | arrive (octets : Bytes)
  | ask
  deriving DecidableEq

/-- A reader with its buffer, and what has come of it so far.  The first fault is the last event
that counts. -/
structure Transcript where
  reader : RequestReader
  buffer : Bytes
  messages : List (Message RequestHead)
  consumed : Bytes
  fault : Option RequestFault

namespace Transcript

def start : Transcript := ⟨.start, [], [], [], none⟩

def ask (transcript : Transcript) : Transcript :=
  match transcript.reader.decode transcript.buffer with
  | ⟨.error fault, _, _⟩ => { transcript with fault := some fault }
  | ⟨.ok found, next, rest⟩ =>
    { transcript with
      reader := next
      buffer := rest
      messages := transcript.messages ++ found.toList
      consumed := transcript.consumed ++
        transcript.buffer.take (transcript.buffer.length - rest.length) }

def apply (transcript : Transcript) (event : Event) : Transcript :=
  if transcript.fault.isSome then transcript
  else match event with
    | .arrive octets => { transcript with buffer := transcript.buffer ++ octets }
    | .ask => transcript.ask

def run (transcript : Transcript) (events : List Event) : Transcript :=
  events.foldl apply transcript

/-- The reader has failed, or has nothing to say before more octets arrive. -/
def IsSettled (transcript : Transcript) : Prop :=
  transcript.fault ≠ none ∨
    (transcript.reader.decode transcript.buffer).outcome = .ok none

theorem run_append (transcript : Transcript) (before after : List Event) :
    transcript.run (before ++ after) = (transcript.run before).run after :=
  List.foldl_append

theorem apply_of_fault {transcript : Transcript} (h : transcript.fault ≠ none) (event : Event) :
    transcript.apply event = transcript :=
  if_pos (Option.isSome_iff_ne_none.mpr h)

theorem apply_arrive {transcript : Transcript} (h : transcript.fault = none) (octets : Bytes) :
    transcript.apply (.arrive octets) =
      { transcript with buffer := transcript.buffer ++ octets } := by
  simp only [apply, h, Option.isSome_none, Bool.false_eq_true, if_false]

theorem apply_ask {transcript : Transcript} (h : transcript.fault = none) :
    transcript.apply .ask = transcript.ask := by
  simp only [apply, h, Option.isSome_none, Bool.false_eq_true, if_false]

/-! What holds at every moment. -/

/-- The requests that have come to their end, and the one that the reader is inside of. -/
structure Orderly (transcript : Transcript) (requests : List Portion) (pending : Option Portion) :
    Prop where
  proper : transcript.reader.IsProper
  whole : ∀ portion ∈ requests, portion.IsWhole
  sorted : ∀ portion ∈ pending, portion.IsSorted
  behind : ∀ portion ∈ pending, ∃ decoder, transcript.reader = ⟨some decoder⟩ ∧
    Behind portion.size portion.body decoder
  between : pending = none → transcript.reader = .start
  messages : transcript.messages =
    requests.flatMap Portion.allMessages ++ pending.toList.flatMap Portion.messages
  consumed : transcript.consumed = (requests ++ pending.toList).flatMap Portion.octets

variable {transcript : Transcript} {requests : List Portion} {pending : Option Portion}

theorem orderly_start : Orderly start [] none where
  proper := isProper_start
  whole := by simp
  sorted := by simp
  behind := by simp
  between _ := rfl
  messages := rfl
  consumed := rfl

theorem Orderly.isOpen (h : Orderly transcript requests pending) :
    ∀ portion ∈ pending, portion.IsOpen := by
  intro portion hportion
  obtain ⟨decoder, -, hbehind⟩ := h.behind portion hportion
  exact ⟨h.sorted portion hportion, hbehind.exists_missing⟩

theorem ask_of_ok {found : Option (Message RequestHead)} {next : RequestReader}
    {taken rest : Bytes} (hbuffer : transcript.buffer = taken ++ rest)
    (h : transcript.reader.decode transcript.buffer = ⟨.ok found, next, rest⟩) :
    transcript.ask =
      { transcript with
        reader := next
        buffer := rest
        messages := transcript.messages ++ found.toList
        consumed := transcript.consumed ++ taken } := by
  have htaken : transcript.buffer.take (transcript.buffer.length - rest.length) = taken := by
    rw [hbuffer, List.length_append, Nat.add_sub_cancel, List.take_left]
  simp only [ask, h, htaken]

theorem ask_of_fault {fault : RequestFault} {next : RequestReader} {rest : Bytes}
    (h : transcript.reader.decode transcript.buffer = ⟨.error fault, next, rest⟩) :
    transcript.ask = { transcript with fault := some fault } := by
  simp only [ask, h]

/-- Between two requests a call takes a whole header section or nothing. -/
theorem Orderly.ask_between (h : Orderly transcript requests none) :
    ∃ later, Orderly transcript.ask requests later := by
  have hreader := h.between rfl
  rcases hhead : RequestHead.decode transcript.buffer with ⟨fault | _ | ⟨head, size⟩, rest⟩
  · have hdecode : transcript.reader.decode transcript.buffer = ⟨.error fault, .start, rest⟩ := by
      rw [hreader, decode_head_fault hhead]
    rw [ask_of_fault hdecode]
    exact ⟨none, { h with }⟩
  · have hdecode : transcript.reader.decode transcript.buffer = ⟨.ok none, .start, rest⟩ := by
      rw [hreader, decode_head_more hhead]
    have hbuffer : transcript.buffer = [] ++ rest := (RequestHead.rest_of_decode_none hhead).symm
    rw [ask_of_ok hbuffer hdecode, Option.toList_none, List.append_nil, List.append_nil]
    exact ⟨none, { h with proper := isProper_start, behind := by simp, between := fun _ => rfl }⟩
  · have hdecode : transcript.reader.decode transcript.buffer =
        ⟨.ok (some (.head head size)), ⟨some (.ofSize size)⟩, rest⟩ := by
      rw [hreader, decode_head hhead]
    obtain ⟨opening, hbuffer, hopening⟩ := RequestHead.exists_opening_of_decode hhead
    rw [ask_of_ok hbuffer hdecode]
    refine ⟨some ⟨opening, head, size, [], []⟩, isProper_ofSize size, h.whole, ?_, ?_, by simp,
      ?_, ?_⟩
    · rintro _ ⟨⟩
      exact ⟨hopening, rfl, by simp⟩
    · rintro _ ⟨⟩
      exact ⟨.ofSize size, rfl, behind_ofSize size⟩
    · simp [h.messages, Portion.messages]
    · simp [h.consumed, Portion.octets]

/-- Inside a request a call takes octets of its body, and it may be the last of the request. -/
theorem Orderly.ask_inside {portion : Portion} (h : Orderly transcript requests (some portion)) :
    ∃ requests later, Orderly transcript.ask requests later := by
  obtain ⟨decoder, hreader, hbehind⟩ := h.behind portion rfl
  have hproper := h.proper decoder (congrArg RequestReader.body hreader)
  have htakes := hbehind.takes hproper transcript.buffer
  have hnext := decode_body decoder transcript.buffer
  rw [← hreader] at hnext
  rcases hdecoded : decoder.decode transcript.buffer with ⟨outcome, after, rest⟩
  rw [hdecoded] at htakes hnext
  have hlast := RequestReader.isProper_next h.proper hnext
  have hsorted := h.sorted portion rfl
  generalize hbuffer : transcript.buffer = buffer at htakes
  cases htakes with
  | fault =>
      rw [ask_of_fault hnext]
      exact ⟨requests, some portion, { h with }⟩
  | more taken hnone hafter =>
      rw [ask_of_ok hbuffer hnext]
      refine ⟨requests, some (portion.extend taken none), hlast, h.whole, ?_, ?_, by simp, ?_, ?_⟩
      · rintro _ ⟨⟩
        exact hsorted.extend hnone.symm (by simp)
      · rintro _ ⟨⟩
        exact ⟨after, rfl, hafter⟩
      · simp [h.messages, Portion.messages_extend]
      · simp [h.consumed, Portion.octets_extend]
  | chunk taken hsome hafter =>
      rw [ask_of_ok hbuffer hnext]
      refine ⟨requests, some (portion.extend taken (some (content taken))), hlast, h.whole, ?_, ?_,
        by simp, ?_, ?_⟩
      · rintro _ ⟨⟩
        refine hsorted.extend (List.append_nil _) ?_
        rintro _ ⟨⟩
        exact hsome
      · rintro _ ⟨⟩
        exact ⟨after, rfl, hafter⟩
      · simp [h.messages, Portion.messages_extend]
      · simp [h.consumed, Portion.octets_extend]
  | eof taken hnone hbody =>
      rw [ask_of_ok hbuffer hnext]
      have hwhole : (portion.extend taken none).IsWhole :=
        ⟨hsorted.extend hnone.symm (by simp), hbody⟩
      refine ⟨requests ++ [portion.extend taken none], none, hlast, ?_, by simp, by simp,
        fun _ => rfl, ?_, ?_⟩
      · simpa [or_imp, forall_and] using ⟨h.whole, hwhole⟩
      · simp [h.messages, Portion.allMessages, Portion.messages_extend]
      · simp [h.consumed, Portion.octets_extend]

theorem Orderly.apply (h : Orderly transcript requests pending) (event : Event) :
    ∃ requests pending, Orderly (transcript.apply event) requests pending := by
  by_cases hfault : transcript.fault = none
  · cases event with
    | arrive octets =>
        rw [apply_arrive hfault]
        exact ⟨requests, pending, { h with }⟩
    | ask =>
        rw [apply_ask hfault]
        cases pending with
        | none => exact ⟨requests, h.ask_between⟩
        | some portion => exact h.ask_inside
  · rw [apply_of_fault hfault]
    exact ⟨requests, pending, h⟩

theorem Orderly.run (h : Orderly transcript requests pending) (events : List Event) :
    ∃ requests pending, Orderly (transcript.run events) requests pending := by
  induction events generalizing transcript requests pending with
  | nil => exact ⟨requests, pending, h⟩
  | cons event events ih =>
      obtain ⟨_, _, hnext⟩ := h.apply event
      exact ih hnext

/-! What has arrived. -/

def arrived (events : List Event) : Bytes :=
  events.flatMap fun event => match event with
    | .arrive octets => octets
    | .ask => []

theorem consumed_ask (transcript : Transcript) :
    transcript.ask.consumed ++ transcript.ask.buffer =
      transcript.consumed ++ transcript.buffer := by
  rcases hdecode : transcript.reader.decode transcript.buffer with ⟨fault | found, next, rest⟩
  · rw [ask_of_fault hdecode]
  · obtain ⟨taken, hbuffer⟩ := suffix_of_ok hdecode
    rw [ask_of_ok hbuffer.symm hdecode, ← hbuffer, List.append_assoc]

theorem run_of_fault (h : transcript.fault ≠ none) (events : List Event) :
    transcript.run events = transcript := by
  induction events with
  | nil => rfl
  | cons event events ih =>
      have hsame : transcript.run (event :: events) = (transcript.apply event).run events := rfl
      rw [hsame, apply_of_fault h, ih]

/-- What has arrived is consumed or in the buffer, but for what comes behind a fault. -/
theorem exists_unseen (transcript : Transcript) (events : List Event) :
    ∃ unseen, (transcript.run events).consumed ++ (transcript.run events).buffer ++ unseen =
        transcript.consumed ++ transcript.buffer ++ arrived events ∧
      ((transcript.run events).fault = none → unseen = []) := by
  induction events generalizing transcript with
  | nil => exact ⟨[], rfl, fun _ => rfl⟩
  | cons event events ih =>
      by_cases hfault : transcript.fault = none
      · obtain ⟨unseen, hunseen, hall⟩ := ih (transcript.apply event)
        refine ⟨unseen, hunseen.trans ?_, hall⟩
        cases event with
        | arrive octets =>
            rw [apply_arrive hfault]
            simp only [arrived, List.flatMap_cons, List.append_assoc]
        | ask =>
            rw [apply_ask hfault, consumed_ask]
            rfl
      · refine ⟨arrived (event :: events), by rw [run_of_fault hfault], fun hnone => ?_⟩
        rw [run_of_fault hfault] at hnone
        contradiction

/-! Calls without arrivals. -/

theorem run_replicate_succ (h : transcript.fault = none) (calls : Nat) :
    transcript.run (.replicate (calls + 1) .ask) = transcript.ask.run (.replicate calls .ask) :=
  congrArg (run · _) (apply_ask h)

theorem IsSettled.apply_ask (h : transcript.IsSettled) :
    (transcript.apply .ask).IsSettled ∧ (transcript.apply .ask).messages = transcript.messages := by
  by_cases hfault : transcript.fault = none
  · rcases hdecode : transcript.reader.decode transcript.buffer with ⟨outcome, next, rest⟩
    have houtcome := h.resolve_left (not_not_intro hfault)
    rw [hdecode] at houtcome
    obtain rfl : outcome = .ok none := houtcome
    obtain ⟨taken, hbuffer⟩ := suffix_of_ok hdecode
    have hagain := decode_append_of_more hdecode []
    rw [List.append_nil, List.append_nil, hdecode] at hagain
    rw [Transcript.apply_ask hfault, ask_of_ok hbuffer.symm hdecode]
    refine ⟨.inr ?_, List.append_nil _⟩
    simp only [← hagain]
  · rw [apply_of_fault hfault]
    exact ⟨h, rfl⟩

theorem IsSettled.run_ask (h : transcript.IsSettled) (calls : Nat) :
    (transcript.run (.replicate calls .ask)).IsSettled ∧
      (transcript.run (.replicate calls .ask)).messages = transcript.messages := by
  induction calls generalizing transcript with
  | zero => exact ⟨h, rfl⟩
  | succ calls ih =>
      obtain ⟨hnext, hmessages⟩ := h.apply_ask
      obtain ⟨hlast, hsame⟩ := ih hnext
      exact ⟨hlast, hsame.trans hmessages⟩

/-- The measure is that of the reader and what it has before it. -/
theorem exists_isSettled (h : transcript.reader.IsProper) :
    ∃ calls ≤ transcript.reader.weight transcript.buffer,
      (transcript.run (.replicate calls .ask)).IsSettled := by
  by_cases hfault : transcript.fault = none
  · obtain ⟨reader, buffer, messages, consumed, fault⟩ := transcript
    obtain rfl : fault = none := hfault
    refine drain_induction (motive := fun reader buffer => ∀ messages consumed,
      ∃ calls ≤ reader.weight buffer,
        (run ⟨reader, buffer, messages, consumed, none⟩ (.replicate calls .ask)).IsSettled)
      ?more ?fault ?message h buffer messages consumed
    case more =>
      intro reader buffer next rest _ hdecode messages consumed
      exact ⟨0, Nat.zero_le _, .inr (congrArg Decoded.outcome hdecode)⟩
    case fault =>
      intro reader buffer fault next rest _ hdecode messages consumed
      refine ⟨1, ?_, .inl ?_⟩
      · unfold weight
        split <;> omega
      · rw [run_replicate_succ rfl, ask_of_fault hdecode]
        exact nofun
    case message =>
      intro reader buffer message next rest hproper hnext hdecode ih messages consumed
      obtain ⟨taken, hbuffer⟩ := suffix_of_ok hdecode
      obtain ⟨calls, hcalls, hsettled⟩ := ih (messages ++ [message]) (consumed ++ taken)
      have hweight := weight_next_lt hproper hdecode
      refine ⟨calls + 1, by omega, ?_⟩
      rw [run_replicate_succ rfl, ask_of_ok hbuffer.symm hdecode]
      exact hsettled
  · exact ⟨0, Nat.zero_le _, .inl hfault⟩

/-- However arrivals and calls follow one another, up to the first fault a reader hands out whole
requests and the front of one more.  Each octet that it has consumed stands in a header section, or
in the framing or the data of a body, in their order, and each octet of data belongs to one piece.
A counted body comes to its length with its end and never beyond, an empty one has no pieces, and
calls without arrivals come to nothing more, or to a fault, after finitely many messages. -/
theorem run_orderly (events : List Event) :
    let transcript := start.run events
    (∃ requests : List Portion, ∃ pending : Option Portion,
      (∀ portion ∈ requests, portion.IsWhole ∧
        (∀ n, portion.size = .length n → portion.chunks.flatten.length = n) ∧
        (portion.size = .empty → portion.chunks = [])) ∧
      (∀ portion ∈ pending, portion.IsOpen ∧
        (∀ n, portion.size = .length n → portion.chunks.flatten.length ≤ n) ∧
        (portion.size = .empty → portion.chunks = [])) ∧
      (pending = none ↔ transcript.reader.body = none) ∧
      transcript.messages =
        requests.flatMap Portion.allMessages ++ pending.toList.flatMap Portion.messages ∧
      transcript.consumed = (requests ++ pending.toList).flatMap Portion.octets) ∧
    (transcript.consumed ++ transcript.buffer <+: arrived events ∧
      (transcript.fault = none → transcript.consumed ++ transcript.buffer = arrived events)) ∧
    ∃ calls ≤ 3 * transcript.buffer.length + 2, ∀ more,
      let later := transcript.run (.replicate (calls + more) .ask)
      later.IsSettled ∧
        later.messages = (transcript.run (.replicate calls .ask)).messages := by
  intro transcript
  obtain ⟨requests, pending, h⟩ := orderly_start.run events
  refine ⟨⟨requests, pending, ?_, ?_, ?_, h.messages, h.consumed⟩, ?_, ?_⟩
  · intro portion hportion
    have hwhole := h.whole portion hportion
    exact ⟨hwhole, fun n => hwhole.length_eq, hwhole.isOpen.chunks_eq_nil⟩
  · intro portion hportion
    have hopen := h.isOpen portion hportion
    exact ⟨hopen, fun n => hopen.length_le, hopen.chunks_eq_nil⟩
  · refine ⟨fun hnone => congrArg RequestReader.body (h.between hnone), fun hbody => ?_⟩
    cases pending with
    | none => rfl
    | some portion =>
        obtain ⟨decoder, hreader, -⟩ := h.behind portion rfl
        exact absurd (hbody.symm.trans (congrArg RequestReader.body hreader)) nofun
  · obtain ⟨unseen, hunseen, hall⟩ := exists_unseen start events
    have harrived : start.consumed ++ start.buffer ++ arrived events = arrived events := rfl
    rw [harrived] at hunseen
    refine ⟨⟨unseen, hunseen⟩, fun hfault => ?_⟩
    rw [hall hfault, List.append_nil] at hunseen
    exact hunseen
  · obtain ⟨calls, hcalls, hsettled⟩ := exists_isSettled h.proper
    have hweight :
        weight transcript.reader transcript.buffer ≤ 3 * transcript.buffer.length + 2 := by
      unfold weight
      split <;> omega
    refine ⟨calls, Nat.le_trans hcalls hweight, fun more => ?_⟩
    rw [← List.replicate_append_replicate, run_append]
    exact hsettled.run_ask more

-- half of a chunk, with a call that comes to nothing, then the rest of the body and the front of a
-- head
example :
    let octets := Bytes.ofText
    let transcript := start.run
      [.arrive (octets "POST / HTTP/1.1\r\nTransfer-Encoding: chunked\r\n\r\n3\r\nab"), .ask, .ask,
        .ask, .arrive (octets "c\r\n0\r\n\r\nGET"), .ask, .ask, .ask]
    transcript.messages.length = 4 ∧ transcript.buffer = octets "GET" := by
  decide +kernel

end Transcript

end RequestReader

end Turnpike
