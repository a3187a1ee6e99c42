import Turnpike.Payload.Framing

/-!
Framing by transfer coding.  The codings of all `Transfer-Encoding` fields of a request make up one
list; the framing of its body follows the last of them exactly if the first field and the last one
agree on whether their own last coding is chunked.
-/

namespace Turnpike

namespace Framing

def isChunkedCoding (coding : Bytes) : Bool := coding.equalsIgnoringCase chunkedToken

/-- The codings of several `Transfer-Encoding` values taken together, in order. -/
def codings (values : List Bytes) : List Bytes :=
  values.flatMap fun value => (value.splitOn Byte.comma).map Bytes.trim

/-- The framing that follows from the last of a list of codings. -/
def ofCodings (codings : List Bytes) : Except RequestFault PayloadSize :=
  match codings.getLast? with
  | none => .ok .empty
  | some last =>
    if isChunkedCoding last then .ok .chunked
    else .error (.invalidHead "transfer-encoding of a request must end with chunked")

theorem codings_singleton_ne_nil (value : Bytes) : codings [value] ≠ [] := by
  simpa [codings] using Bytes.splitOn_ne_nil Byte.comma value

theorem codings_eq_nil_iff {values : List Bytes} : codings values = [] ↔ values = [] := by
  constructor
  · intro hnone
    cases values with
    | nil => rfl
    | cons value values =>
        rw [codings, List.flatMap_cons, List.append_eq_nil_iff] at hnone
        exact absurd (by simpa [codings] using hnone.1) (codings_singleton_ne_nil value)
  · rintro rfl
    rfl

theorem getLast?_codings (values : List Bytes) :
    (codings values).getLast? =
      values.getLast?.bind fun value => (codings [value]).getLast? := by
  induction values with
  | nil => rfl
  | cons value values ih =>
      have hsplit : codings (value :: values) = codings [value] ++ codings values := by
        simp [codings]
      cases values with
      | nil => simp
      | cons second values =>
          have hlater : codings (second :: values) ≠ [] :=
            fun hnone => List.cons_ne_nil second values (codings_eq_nil_iff.mp hnone)
          obtain ⟨last, hlast⟩ :=
            Option.ne_none_iff_exists'.mp (mt List.getLast?_eq_none_iff.mp hlater)
          rw [hsplit, List.getLast?_append, hlast, Option.some_or, ← hlast, ih,
            List.getLast?_cons_cons]

theorem endsChunked_eq (value : Bytes) :
    endsChunked value = (codings [value]).getLast?.any isChunkedCoding := by
  unfold endsChunked
  simp only [codings, List.flatMap_cons, List.flatMap_nil, List.append_nil, List.getLast?_map]
  cases (value.splitOn Byte.comma).getLast? with
  | none => rfl
  | some coding => rfl

theorem any_getLast?_codings (values : List Bytes) :
    (codings values).getLast?.any isChunkedCoding = values.getLast?.any endsChunked := by
  rw [getLast?_codings]
  cases values.getLast? with
  | none => rfl
  | some value => exact (endsChunked_eq value).symm

theorem ofCodings_eq_iff {left right : List Bytes} (hnone : left = [] ↔ right = []) :
    ofCodings left = ofCodings right ↔
      left.getLast?.any isChunkedCoding = right.getLast?.any isChunkedCoding := by
  unfold ofCodings
  cases hleft : left.getLast? with
  | none =>
      have hright : right = [] := hnone.mp (List.getLast?_eq_none_iff.mp hleft)
      simp [hright]
  | some first =>
      have hne : right ≠ [] := by
        intro hright
        rw [hnone.mpr hright] at hleft
        contradiction
      obtain ⟨last, hlast⟩ := Option.ne_none_iff_exists'.mp (mt List.getLast?_eq_none_iff.mp hne)
      rw [hlast]
      cases hf : isChunkedCoding first <;> cases hl : isChunkedCoding last <;> simp [hf, hl]

/-- Only the first `Transfer-Encoding` field is looked at. -/
theorem ofFields_of_no_length (fields : Fields)
    (hlength : fields.all FieldName.contentLength = []) :
    ofFields fields = ofCodings (codings ((fields.all FieldName.transferEncoding).take 1)) := by
  unfold ofFields Fields.get?
  rw [hlength]
  cases fields.all FieldName.transferEncoding with
  | nil => rfl
  | cons value values =>
      have hsome : codings [value] ≠ [] := codings_singleton_ne_nil value
      obtain ⟨last, hlast⟩ := Option.ne_none_iff_exists'.mp (mt List.getLast?_eq_none_iff.mp hsome)
      simp only [List.head?_cons, List.take_succ_cons, List.take_zero, endsChunked_eq, ofCodings,
        hlast, Option.any_some]

/-- The framing that the last of all codings calls for is the one that is found exactly if the first
and the last `Transfer-Encoding` field agree on whether their own last coding is chunked. -/
theorem ofFields_eq_ofCodings_iff (pairs : List (Bytes × Bytes))
    (hlength : ∀ pair ∈ pairs, pair.1.lower ≠ FieldName.contentLength) :
    let values := (pairs.filter fun pair => pair.1.lower == FieldName.transferEncoding).map Prod.snd
    ofFields (.ofList pairs) = ofCodings (codings (values.take 1)) ∧
      (ofFields (.ofList pairs) = ofCodings (codings values) ↔
        values.head?.any endsChunked = values.getLast?.any endsChunked) := by
  intro values
  have hnone : (Fields.ofList pairs).all FieldName.contentLength = [] := by
    rw [Fields.all_ofList, List.map_eq_nil_iff, List.filter_eq_nil_iff]
    intro pair hpair
    simpa using hlength pair hpair
  have hfirst : ofFields (.ofList pairs) = ofCodings (codings (values.take 1)) := by
    rw [ofFields_of_no_length _ hnone, Fields.all_ofList]
  refine ⟨hfirst, ?_⟩
  rw [hfirst, ofCodings_eq_iff (by simp [codings_eq_nil_iff]), any_getLast?_codings,
    any_getLast?_codings]
  cases values with
  | nil => rfl
  | cons value values => rfl

theorem ofFields_eq_ofCodings_two_fields :
    let pairs : List (Bytes × Bytes) :=
      [(Bytes.ofText "Host", Bytes.ofText "a"),
        (Bytes.ofText "Transfer-Encoding", Bytes.ofText "gzip, Chunked"),
        (Bytes.ofText "transfer-encoding", Bytes.ofText "deflate ,\tchunked ")]
    (∀ pair ∈ pairs, pair.1.lower ≠ FieldName.contentLength) ∧
      ofFields (.ofList pairs) = .ok .chunked ∧
      ofFields (.ofList pairs) =
        ofCodings (codings [Bytes.ofText "gzip, Chunked", Bytes.ofText "deflate ,\tchunked "]) := by
  intro pairs
  have hlength : ∀ pair ∈ pairs, pair.1.lower ≠ FieldName.contentLength := by decide
  refine ⟨hlength, by rfl, ?_⟩
  exact (ofFields_eq_ofCodings_iff pairs hlength).2.mpr (by decide)

/-- A first field that ends in chunked hides a later one that does not. -/
theorem ofFields_ne_ofCodings_chunked_then_gzip :
    let pairs : List (Bytes × Bytes) :=
      [(Bytes.ofText "Transfer-Encoding", Bytes.ofText "chunked"),
        (Bytes.ofText "Transfer-Encoding", Bytes.ofText "gzip")]
    ofFields (.ofList pairs) = .ok .chunked ∧
      ofCodings (codings [Bytes.ofText "chunked", Bytes.ofText "gzip"]) =
        .error (.invalidHead "transfer-encoding of a request must end with chunked") := by
  refine ⟨rfl, rfl⟩

end Framing

end Turnpike
