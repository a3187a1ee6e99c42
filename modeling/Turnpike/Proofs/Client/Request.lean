import Turnpike.Client.Request
import Turnpike.Proofs.Payload.ContentLength
import Turnpike.Proofs.Wire.Feeds
import Turnpike.Proofs.Wire.ResponseHead
import Turnpike.Proofs.Wire.Target

/-!
Requests of the client as they are read off the stream.  The client adds a host, the end of the
connection and the length of the body where they belong; what is read is the request with these
fields and its body, however the octets arrive.
-/

namespace Turnpike

namespace Framing

theorem isLength_decimal {octets : Nat} (hword : octets < Number.wordLimit) :
    IsLength (Number.decimal octets) octets :=
  ⟨Number.decimal octets, ⟨[], [], by simp, by simp, by simp⟩, Number.numeral_decimal octets, hword⟩

end Framing

namespace ClientRequest

open Fields

/-- A request with this URI that a server has room for, and that leaves the framing to the client. -/
structure Sendable (request : ClientRequest) (uri : Uri) : Prop where
  tokenNonempty : request.method.token ≠ []
  token : ∀ b ∈ request.method.token, b.isToken = true
  origin : request.target.head? = some Byte.slash
  graphic : ∀ b ∈ request.target, b.IsGraphic
  unmarked : Uri.numberSign ∉ request.target
  uri : Uri.ofBytes? request.target = some uri
  fields : request.fields.Writable
  unframed : request.isFramed = false
  body : request.body.length < Number.wordLimit
  count : request.addedFields.length + request.fields.count ≤ RequestHead.maxFields
  size : request.head.length ≤ RequestHead.maxSize

/-- The fields of the request, and no others than those that the client adds. -/
structure Carries (request : ClientRequest) (fields : Fields) : Prop where
  host : fields.all FieldName.host =
    if request.fields.contains FieldName.host then request.fields.all FieldName.host
    else [Bytes.ofText "localhost"]
  connection : fields.all FieldName.connection =
    if request.fields.contains FieldName.connection then request.fields.all FieldName.connection
    else [Bytes.ofText "close"]
  contentLength : fields.all FieldName.contentLength =
    if usesBody request.method = true ∨ request.body ≠ [] then
      [Number.decimal request.body.length]
    else []
  others : ∀ name ∉ [FieldName.host, FieldName.connection, FieldName.contentLength],
    fields.all name = request.fields.all name

/-! The fields. -/

/-- All that stands in the lines of the head, in order. -/
def sentFields (request : ClientRequest) : List (FieldName × Bytes) :=
  request.addedFields ++ request.fields.toList

def received (request : ClientRequest) : Fields := .ofList request.sentFields

theorem isSent_addedFields {request : ClientRequest} {pair : FieldName × Bytes}
    (h : pair ∈ request.addedFields) : IsName pair.1 ∧ IsValue pair.2 := by
  have hhost : IsName FieldName.host ∧ IsValue (Bytes.ofText "localhost") := by decide +kernel
  have hconnection : IsName FieldName.connection ∧ IsValue closeToken := by decide +kernel
  simp only [addedFields, List.mem_append] at h
  rcases h with (h | h) | h
  · split at h
    · exact absurd h List.not_mem_nil
    · rwa [List.mem_singleton.mp h]
  · split at h
    · exact absurd h List.not_mem_nil
    · rwa [List.mem_singleton.mp h]
  · split at h
    · rw [List.mem_singleton.mp h]
      exact ⟨isName_contentLength, isValue_decimal _⟩
    · exact absurd h List.not_mem_nil

theorem isSent_sentFields {request : ClientRequest} (hfields : request.fields.Writable)
    {pair : FieldName × Bytes} (h : pair ∈ request.sentFields) :
    IsName pair.1 ∧ IsValue pair.2 := by
  rcases List.mem_append.mp h with hadded | hown
  · exact isSent_addedFields hadded
  · obtain ⟨group, hgroup, hname, hvalue⟩ := mem_toList hown
    exact ⟨hname ▸ hfields.names group hgroup, hfields.values group hgroup pair.2 hvalue⟩

theorem all_received {request : ClientRequest} (hfields : request.fields.Writable)
    (name : FieldName) :
    request.received.all name =
      (request.addedFields.filter fun pair => pair.1 == name).map Prod.snd ++
        request.fields.all name := by
  have hlower : request.sentFields.filter (fun pair => pair.1.lower == name) =
      request.sentFields.filter fun pair => pair.1 == name :=
    List.filter_congr fun pair hpair => by rw [(isSent_sentFields hfields hpair).1.lower]
  rw [received, all_ofList, hlower, sentFields, List.filter_append, List.map_append,
    map_filter_toList]

theorem map_filter_ite (condition : Prop) [Decidable condition] (field : FieldName × Bytes)
    (name : FieldName) :
    ((if condition then [field] else []).filter fun pair => pair.1 == name).map Prod.snd =
      if condition ∧ field.1 = name then [field.2] else [] := by
  by_cases hcondition : condition
  · by_cases hname : field.1 = name
    · simp [hcondition, hname]
    · simp [hcondition, hname]
  · simp [hcondition]

theorem addedFields_eq (request : ClientRequest) :
    request.addedFields =
      (if ¬ request.fields.contains FieldName.host = true then
        [(FieldName.host, Bytes.ofText "localhost")] else []) ++
      (if ¬ request.fields.contains FieldName.connection = true then
        [(FieldName.connection, Bytes.ofText "close")] else []) ++
      (if request.announcesLength = true then
        [(FieldName.contentLength, Number.decimal request.body.length)] else []) := by
  rw [ite_not, ite_not]
  rfl

theorem all_received_eq {request : ClientRequest} (hfields : request.fields.Writable)
    (name : FieldName) :
    request.received.all name =
      (if ¬ request.fields.contains FieldName.host = true ∧ FieldName.host = name then
        [Bytes.ofText "localhost"] else []) ++
      (if ¬ request.fields.contains FieldName.connection = true ∧ FieldName.connection = name then
        [Bytes.ofText "close"] else []) ++
      (if request.announcesLength = true ∧ FieldName.contentLength = name then
        [Number.decimal request.body.length] else []) ++ request.fields.all name := by
  rw [all_received hfields, addedFields_eq]
  simp only [List.filter_append, List.map_append, map_filter_ite]

theorem contains_of_unframed {request : ClientRequest} (h : request.isFramed = false) :
    ¬ request.fields.contains FieldName.contentLength = true ∧
      ¬ request.fields.contains FieldName.transferEncoding = true := by
  rw [isFramed, Bool.or_eq_false_iff] at h
  simp only [h.1, h.2, Bool.false_eq_true, not_false_eq_true, and_self]

theorem announcesLength_iff {request : ClientRequest} (h : request.isFramed = false) :
    request.announcesLength = true ↔ usesBody request.method = true ∨ request.body ≠ [] := by
  simp [announcesLength, h]

theorem carries_received {request : ClientRequest} (hfields : request.fields.Writable)
    (hunframed : request.isFramed = false) : request.Carries request.received := by
  have hdistinct : FieldName.host ≠ FieldName.connection ∧
      FieldName.host ≠ FieldName.contentLength ∧
      FieldName.connection ≠ FieldName.contentLength := by
    decide
  obtain ⟨hconnection, hhost, hboth⟩ := hdistinct
  have hlength := (contains_of_unframed hunframed).1
  refine ⟨?host, ?connection, ?contentLength, fun name hname => ?others⟩
  case host =>
    rw [all_received_eq hfields]
    by_cases hpresent : request.fields.contains FieldName.host = true
    · simp [hpresent, hconnection.symm, hhost.symm]
    · simp [hpresent, hconnection.symm, hhost.symm, all_of_not_contains hpresent]
  case connection =>
    rw [all_received_eq hfields]
    by_cases hpresent : request.fields.contains FieldName.connection = true
    · simp [hpresent, hconnection, hboth.symm]
    · simp [hpresent, hconnection, hboth.symm, all_of_not_contains hpresent]
  case contentLength =>
    rw [all_received_eq hfields, all_of_not_contains hlength]
    simp only [announcesLength_iff hunframed, hhost, hboth, and_false, and_true, if_false,
      List.nil_append, List.append_nil]
  case others =>
    simp only [List.mem_cons, List.not_mem_nil, or_false, not_or] at hname
    rw [all_received_eq hfields]
    simp [Ne.symm hname.1, Ne.symm hname.2.1, Ne.symm hname.2.2]

/-! The framing. -/

theorem Carries.ofFields_eq {request : ClientRequest} {fields : Fields}
    (h : request.Carries fields) (hunframed : request.isFramed = false)
    (hbody : request.body.length < Number.wordLimit) :
    Framing.ofFields fields = .ok (.ofLength request.body.length) := by
  have hcoding : fields.all FieldName.transferEncoding = [] := by
    rw [h.others FieldName.transferEncoding (by decide)]
    exact all_of_not_contains (contains_of_unframed hunframed).2
  by_cases hlength : usesBody request.method = true ∨ request.body ≠ []
  · have hvalues := h.contentLength.trans (if_pos hlength)
    refine (Framing.ofFields_eq_ok_iff hcoding (by rw [hvalues]; exact nofun)).mpr ?_
    intro value hvalue
    rw [hvalues, List.mem_singleton] at hvalue
    exact .inl (hvalue ▸ Framing.isLength_decimal hbody)
  · have hvalues := h.contentLength.trans (if_neg hlength)
    rw [not_or, not_not] at hlength
    rw [Framing.ofFields, get?, hcoding, hvalues, hlength.2]
    rfl

/-! The head. -/

theorem head_append (request : ClientRequest) (rest : Bytes) :
    request.head ++ rest =
      request.method.token ++ (Byte.space :: (request.target ++ (Byte.space ::
        (Bytes.ofText Version.http11.text ++ (PayloadEncoder.lineEnd ++
          ((request.sentFields.flatMap fun field => Fields.line field.1 field.2) ++
            (PayloadEncoder.lineEnd ++ rest))))))) := by
  have hend : Bytes.ofText " HTTP/1.1\r\n" =
      Byte.space :: (Bytes.ofText Version.http11.text ++ PayloadEncoder.lineEnd) := by
    decide
  simp only [head, requestLine, hend, sentFields, Fields.block, List.flatMap_append,
    List.append_assoc, List.cons_append, List.nil_append]

theorem Sendable.fieldSection_eq {request : ClientRequest} {uri : Uri} (h : request.Sendable uri)
    (rest : Bytes) :
    Wire.fieldSection RequestHead.maxFields
        ((request.sentFields.flatMap fun field => Fields.line field.1 field.2) ++
          (PayloadEncoder.lineEnd ++ rest)) =
      .done request.sentFields rest := by
  have hsent : ∀ pair ∈ request.sentFields, IsName pair.1 ∧ IsValue pair.2 :=
    fun pair hpair => isSent_sentFields h.fields hpair
  have htight : (request.sentFields.map fun pair => (pair.1, pair.2.trim)) = request.sentFields := by
    refine (List.map_congr_left fun pair hpair => ?_).trans (List.map_id _)
    rw [(hsent pair hpair).2.tight.trim_eq]
    rfl
  have hcount : request.sentFields.length ≤ RequestHead.maxFields := by
    rw [sentFields, List.length_append]
    exact h.count
  rw [Wire.fieldSection_lines fun pair hpair => ⟨(hsent pair hpair).1, (hsent pair hpair).2.content⟩,
    if_pos hcount, htight]

theorem Sendable.lines_eq {request : ClientRequest} {uri : Uri} (h : request.Sendable uri)
    (rest : Bytes) :
    RequestHead.lines (request.head ++ rest) =
      .done ⟨request.method.token, request.target, .http11, request.sentFields⟩ rest := by
  have htarget : request.target ≠ [] := by
    intro hnil
    have horigin := h.origin
    rw [hnil] at horigin
    contradiction
  have hline : ∀ later, Wire.lineEnd .newLine (PayloadEncoder.lineEnd ++ later) = .done () later :=
    fun _ => rfl
  rw [head_append, RequestHead.lines, Wire.emptyLines_token h.tokenNonempty h.token,
    Wire.Reading.andThen_done, Wire.methodToken_append h.tokenNonempty h.token,
    Wire.Reading.andThen_done, Wire.requestTarget_append htarget h.graphic,
    Wire.Reading.andThen_done, Wire.protocolVersion_text (.inr rfl), Wire.Reading.andThen_done,
    hline, Wire.Reading.andThen_done, h.fieldSection_eq]
  rfl

theorem Sendable.decode_eq {request : ClientRequest} {uri : Uri} (h : request.Sendable uri)
    (rest : Bytes) :
    RequestHead.decode (request.head ++ rest) =
      (.ok (some (⟨request.method, uri, .http11, request.received⟩,
        .ofLength request.body.length)), rest) := by
  have hsize : (request.head ++ rest).length - rest.length = request.head.length := by
    rw [List.length_append, Nat.add_sub_cancel]
  have hparts : RequestHead.ofLines?
      ⟨request.method.token, request.target, .http11, request.sentFields⟩ =
        some ⟨request.method, uri, .http11, request.received⟩ := by
    rw [RequestHead.ofLines?, h.uri]
    rfl
  have hframing := (carries_received h.fields h.unframed).ofFields_eq h.unframed h.body
  rw [RequestHead.decode_of_done (h.lines_eq rest), hsize, if_neg (Nat.not_lt.mpr h.size), hparts]
  simp only [hframing]
  rfl

end ClientRequest

/-! The body. -/

namespace RequestReader

theorem drain_nil : start.drain [] = ⟨[], none, start, []⟩ := drain_of_more rfl

theorem drain_eof {decoder : PayloadDecoder} (hproper : IsProper ⟨some decoder⟩)
    (h : decode ⟨some decoder⟩ [] = ⟨.ok (some (.item .eof)), start, []⟩) :
    drain ⟨some decoder⟩ [] = ⟨Message.body [], none, start, []⟩ := by
  rw [drain_of_message hproper h, drain_nil]
  rfl

/-- A counted body that is all there is comes in one piece, or in none if it is empty. -/
theorem drain_counted (body : Bytes) :
    ∃ chunks, drain ⟨some (.ofSize (.ofLength body.length))⟩ body =
      ⟨Message.body chunks, none, start, []⟩ ∧ chunks.flatten = body := by
  by_cases hbody : body = []
  · subst hbody
    exact ⟨[], drain_eof (isProper_ofSize .empty) rfl, rfl⟩
  · have hlength : body.length ≠ 0 := mt List.length_eq_zero_iff.mp hbody
    have hsize : PayloadSize.ofLength body.length = .length body.length := if_neg hlength
    have hdata : decode ⟨some (.ofSize (.length body.length))⟩ body =
        ⟨.ok (some (.item (.chunk body))), ⟨some (.length 0)⟩, []⟩ := by
      rw [decode_body, PayloadDecoder.ofSize, PayloadDecoder.decode,
        PayloadDecoder.decodeLength_of_ne hlength hbody, List.take_length, List.drop_length,
        Nat.sub_self]
      rfl
    have hend : drain ⟨some (.length 0)⟩ [] = ⟨Message.body [], none, start, []⟩ :=
      drain_eof (isProper_ofSize (.length 0)) rfl
    refine ⟨[body], ?_, List.append_nil body⟩
    rw [hsize, drain_of_message (isProper_ofSize (.length body.length)) hdata, hend]
    rfl

/-- A message that is found in one piece is found however it arrives, its body perhaps in others. -/
theorem drainFeeds_of_drain {feeds : List Bytes} {head : RequestHead} {size : PayloadSize}
    {chunks : List Bytes}
    (h : start.drain feeds.flatten = ⟨.head head size :: Message.body chunks, none, start, []⟩) :
    ∃ found, start.drainFeeds [] feeds = ⟨.head head size :: Message.body found, none, start, []⟩ ∧
      found.flatten = chunks.flatten := by
  have hrest : start.decode [] = ⟨.ok none, start, []⟩ := rfl
  have hagrees := agrees_drainFeeds feeds isProper_start hrest
  rw [List.nil_append, h] at hagrees
  generalize start.drainFeeds [] feeds = drained at hagrees ⊢
  obtain ⟨messages, fault, reader, left⟩ := drained
  obtain rfl : fault = none := hagrees.fault_eq_none.mpr rfl
  obtain rfl : reader = start := hagrees.reader
  obtain rfl : left = [] := hagrees.rest rfl
  obtain ⟨later, rfl, hlater⟩ := Message.exists_of_joined_head hagrees.messages
  obtain ⟨found, rfl, hfound⟩ := Message.exists_body_of_joined hlater
  exact ⟨found, rfl, hfound⟩

end RequestReader

namespace ClientRequest

/-- Head and body of a request, cut anywhere, are read as one head with the method, the target, the
fields of the request and those that the client adds, then the body, and nothing is left over. -/
theorem drainFeeds_sent {request : ClientRequest} {uri : Uri} (h : request.Sendable uri)
    {feeds : List Bytes} (hfeeds : feeds.flatten = request.head ++ request.body) :
    ∃ fields chunks, RequestReader.start.drainFeeds [] feeds =
        ⟨.head ⟨request.method, uri, .http11, fields⟩
          (if request.body = [] then .empty else .length request.body.length) ::
            Message.body chunks, none, .start, []⟩ ∧
      chunks.flatten = request.body ∧ request.Carries fields ∧
      uri.scheme = none ∧ uri.authority = none ∧
      Uri.originForm uri.path uri.query = request.target := by
  have hsize : PayloadSize.ofLength request.body.length =
      if request.body = [] then .empty else .length request.body.length := by
    simp only [PayloadSize.ofLength, List.length_eq_zero_iff]
  obtain ⟨pieces, hpieces, hbody⟩ := RequestReader.drain_counted request.body
  have hdecode := RequestReader.decode_head (h.decode_eq request.body)
  have hdrain := RequestReader.drain_of_message RequestReader.isProper_start hdecode
  rw [hpieces, ← hfeeds, hsize] at hdrain
  obtain ⟨chunks, hfound, hchunks⟩ := RequestReader.drainFeeds_of_drain hdrain
  obtain ⟨rest, htarget⟩ := List.head?_eq_some_iff.mp h.origin
  have horigin := Uri.ofBytes?_slash (htarget ▸ h.unmarked) (htarget ▸ h.uri)
  rw [← htarget] at horigin
  exact ⟨request.received, chunks, hfound, hchunks.trans hbody,
    carries_received h.fields h.unframed, horigin⟩

/-- A method of its own, a query with a second question mark, a host of its own, and a body with line
ends, cut in a line of the head, in front of the body and inside it. -/
theorem drainFeeds_sent_cut :
    let own : Fields := ⟨[(FieldName.host, [Bytes.ofText "a.b:80"]),
      (Bytes.ofText "x-a", [[], [255, 58, 32, 9, 128]])]⟩
    let request : ClientRequest :=
      ⟨.ofText "M-SEARCH", Bytes.ofText "/a%20b?q=/?", own, Bytes.ofText "a\r\n\r\nb", none⟩
    let uri : Uri := ⟨none, none, Bytes.ofText "/a%20b", some (Bytes.ofText "q=/?")⟩
    let feeds := [request.head.take 30, request.head.drop 30, Bytes.ofText "a\r", Bytes.ofText "\n\r\nb"]
    request.Sendable uri ∧ feeds.flatten = request.head ++ request.body ∧
    ∃ fields chunks, RequestReader.start.drainFeeds [] feeds =
        ⟨.head ⟨.ofText "M-SEARCH", uri, .http11, fields⟩ (.length 6) :: Message.body chunks,
          none, .start, []⟩ ∧
      chunks.flatten = Bytes.ofText "a\r\n\r\nb" ∧
      fields.all FieldName.host = [Bytes.ofText "a.b:80"] ∧
      fields.all FieldName.connection = [Bytes.ofText "close"] ∧
      fields.all FieldName.contentLength = [Bytes.ofText "6"] ∧
      fields.all (Bytes.ofText "x-a") = [[], [255, 58, 32, 9, 128]] ∧
      fields.all FieldName.transferEncoding = [] := by
  intro own request uri feeds
  have hsendable : request.Sendable uri :=
    ⟨by decide, List.all_eq_true.mp (by decide), by decide, by decide +kernel, by decide,
      by decide, by decide +kernel, by decide, by decide, by decide, by decide⟩
  have hfeeds : feeds.flatten = request.head ++ request.body := by decide
  obtain ⟨fields, chunks, hfound, hchunks, hcarries, -⟩ := drainFeeds_sent hsendable hfeeds
  refine ⟨hsendable, hfeeds, fields, chunks, hfound, hchunks, ?_, ?_, ?_, ?_, ?_⟩
  · exact hcarries.host.trans (by decide)
  · exact hcarries.connection.trans (by decide)
  · exact hcarries.contentLength.trans (by decide)
  · exact (hcarries.others _ (by decide)).trans (by decide)
  · exact (hcarries.others _ (by decide)).trans (by decide)

end ClientRequest

end Turnpike
