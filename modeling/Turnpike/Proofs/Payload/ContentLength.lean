import Turnpike.Payload.Framing
import Turnpike.Proofs.Text.Numeral

/-!
Framing by length.  A request is accepted exactly if all its `Content-Length` fields hold one and the
same numeral, which may have a plus sign in front; no other length is announced than that number.
-/

namespace Turnpike

namespace Framing

open Number

/-- The value is a numeral of a length, but for blanks around it. -/
def IsLength (value : Bytes) (octets : Nat) : Prop :=
  ∃ digits, Bytes.Padded digits value ∧ Numeral digits octets ∧ octets < wordLimit

def IsSignedLength (value : Bytes) (octets : Nat) : Prop :=
  ∃ digits, Bytes.Padded (plusSign :: digits) value ∧ Numeral digits octets ∧ octets < wordLimit

/-! One value. -/

theorem isVisible_of_padded {text value : Bytes} (hpadded : Bytes.Padded text value)
    (htext : ∀ b ∈ text, b.isVisible = true) : value.all Byte.isVisible = true := by
  have hblank : ∀ b : Byte, b.isBlank = true → b.isVisible = true := by
    intro b hb
    rcases Bool.or_eq_true_iff.mp hb with hspace | htab
    · rw [eq_of_beq hspace]
      rfl
    · rw [eq_of_beq htab]
      rfl
  obtain ⟨before, after, hbefore, hafter, rfl⟩ := hpadded
  rw [List.all_eq_true]
  intro b hb
  rcases List.mem_append.mp hb with hfront | hb
  · rcases List.mem_append.mp hfront with hb | hb
    · exact hblank b (hbefore b hb)
    · exact htext b hb
  · exact hblank b (hafter b hb)

theorem length?_of_padded {text value : Bytes} (hpadded : Bytes.Padded text value)
    (htight : text.IsTight) (htext : ∀ b ∈ text, b.isVisible = true) :
    length? value = unsigned? wordLimit text := by
  rw [length?, if_pos (isVisible_of_padded hpadded htext), Bytes.trim_of_padded hpadded htight]

theorem length?_eq_some_iff {value : Bytes} {octets : Nat} :
    length? value = some octets ↔ IsLength value octets ∨ IsSignedLength value octets := by
  constructor
  · intro h
    have hpadded := Bytes.padded_trim value
    unfold length? at h
    split at h
    · obtain ⟨hlimit, hnumeral | ⟨digits, htrim, hnumeral⟩⟩ := unsigned?_eq_some_iff.mp h
      · exact .inl ⟨value.trim, hpadded, hnumeral, hlimit⟩
      · rw [htrim] at hpadded
        exact .inr ⟨digits, hpadded, hnumeral, hlimit⟩
    · contradiction
  · have hvisible : ∀ {digits : Bytes}, Numeral digits octets → ∀ b ∈ digits, b.isVisible = true :=
      fun hnumeral b hb => isVisible_of_isDigit (hnumeral.isDigit b hb)
    rintro (⟨digits, hpadded, hnumeral, hlimit⟩ | ⟨digits, hpadded, hnumeral, hlimit⟩)
    · rw [length?_of_padded hpadded hnumeral.isTight (hvisible hnumeral)]
      exact unsigned?_eq_some_iff.mpr ⟨hlimit, .inl hnumeral⟩
    · have htext : ∀ b ∈ plusSign :: digits, b.isVisible = true := by
        intro b hb
        rcases List.mem_cons.mp hb with rfl | hb
        · rfl
        · exact hvisible hnumeral b hb
      rw [length?_of_padded hpadded hnumeral.isTight_signed htext]
      exact unsigned?_eq_some_iff.mpr ⟨hlimit, .inr ⟨digits, rfl, hnumeral⟩⟩

theorem not_isSignedLength_of_isLength {value : Bytes} {octets other : Nat}
    (h : IsLength value octets) : ¬ IsSignedLength value other := by
  obtain ⟨digits, hpadded, hnumeral, -⟩ := h
  rintro ⟨signed, hother, hsigned, -⟩
  have htrim := Bytes.trim_of_padded hpadded hnumeral.isTight
  rw [Bytes.trim_of_padded hother hsigned.isTight_signed] at htrim
  exact not_numeral_plus signed octets (htrim ▸ hnumeral)

/-! All values. -/

theorem lengthOf_eq_error {known : Option Nat} {values : List Bytes} {fault : RequestFault}
    (h : lengthOf known values = .error fault) :
    ∃ reason, fault = .invalidContentLength reason := by
  induction values generalizing known with
  | nil => contradiction
  | cons value values ih =>
      unfold lengthOf at h
      split at h
      · obtain rfl := Except.error.inj h
        exact ⟨_, rfl⟩
      · split at h
        · exact ih h
        · obtain rfl := Except.error.inj h
          exact ⟨_, rfl⟩

/-- The lengths of all values are one and the same, which is the known one if there is one. -/
theorem lengthOf_eq_ok_iff {known : Option Nat} {values : List Bytes} {octets : Nat} :
    lengthOf known values = .ok (some octets) ↔
      known.all (· == octets) = true ∧ (known = none → values ≠ []) ∧
        ∀ value ∈ values, length? value = some octets := by
  induction values generalizing known with
  | nil => cases known <;> simp [lengthOf]
  | cons value values ih =>
      unfold lengthOf
      cases hlength : length? value with
      | none => simp [hlength]
      | some found =>
          simp only
          split
          · next hknown =>
            rw [ih]
            constructor
            · rintro ⟨hfound, -, hvalues⟩
              obtain rfl : found = octets := by simpa using hfound
              exact ⟨hknown, nofun, List.forall_mem_cons.mpr ⟨hlength, hvalues⟩⟩
            · rintro ⟨-, -, hvalues⟩
              obtain ⟨hvalue, hvalues⟩ := List.forall_mem_cons.mp hvalues
              obtain rfl := Option.some.inj (hlength.symm.trans hvalue)
              exact ⟨by simp, nofun, hvalues⟩
          · next hknown =>
            refine iff_of_false nofun ?_
            rintro ⟨hoctets, -, hvalues⟩
            obtain ⟨hvalue, -⟩ := List.forall_mem_cons.mp hvalues
            obtain rfl := Option.some.inj (hlength.symm.trans hvalue)
            exact hknown hoctets

theorem lengthOf_none_ne {values : List Bytes} (hvalues : values ≠ []) :
    lengthOf none values ≠ .ok none := by
  have hsome : ∀ {later : List Bytes} {known : Nat}, lengthOf (some known) later ≠ .ok none := by
    intro later
    induction later with
    | nil => simp [lengthOf]
    | cons value later ih =>
        intro known h
        unfold lengthOf at h
        split at h
        · contradiction
        · split at h
          · exact ih h
          · contradiction
  cases values with
  | nil => contradiction
  | cons value values =>
      intro h
      unfold lengthOf at h
      split at h
      · contradiction
      · exact hsome h

theorem ofLength_injective {left right : Nat}
    (h : PayloadSize.ofLength left = PayloadSize.ofLength right) : left = right := by
  have hoctets := congrArg PayloadSize.octets? h
  simpa using hoctets

theorem ofFields_of_no_coding {fields : Fields}
    (hcoding : fields.all FieldName.transferEncoding = [])
    (hlength : fields.all FieldName.contentLength ≠ []) :
    ofFields fields =
      (lengthOf none (fields.all FieldName.contentLength)).map fun octets =>
        .ofLength (octets.getD 0) := by
  unfold ofFields Fields.get?
  rw [hcoding]
  cases hvalues : fields.all FieldName.contentLength with
  | nil => exact absurd hvalues hlength
  | cons value values => rfl

theorem ofFields_eq_ok_iff {fields : Fields}
    (hcoding : fields.all FieldName.transferEncoding = [])
    (hlength : fields.all FieldName.contentLength ≠ []) {octets : Nat} :
    ofFields fields = .ok (.ofLength octets) ↔
      ∀ value ∈ fields.all FieldName.contentLength,
        IsLength value octets ∨ IsSignedLength value octets := by
  have hvalue : ∀ value, IsLength value octets ∨ IsSignedLength value octets ↔
      length? value = some octets := fun value => length?_eq_some_iff.symm
  simp only [hvalue]
  rw [ofFields_of_no_coding hcoding hlength]
  constructor
  · intro h
    cases hfound : lengthOf none (fields.all FieldName.contentLength) with
    | error fault =>
        rw [hfound] at h
        contradiction
    | ok found =>
        cases found with
        | none => exact absurd hfound (lengthOf_none_ne hlength)
        | some found =>
            rw [hfound] at h
            obtain rfl := ofLength_injective (Except.ok.inj h)
            exact (lengthOf_eq_ok_iff.mp hfound).2.2
  · intro h
    rw [lengthOf_eq_ok_iff.mpr ⟨rfl, fun _ => hlength, h⟩]
    rfl

theorem ofFields_ok_or_refused {fields : Fields}
    (hcoding : fields.all FieldName.transferEncoding = [])
    (hlength : fields.all FieldName.contentLength ≠ []) :
    (∃ octets, ofFields fields = .ok (.ofLength octets)) ∨
      ∃ reason, ofFields fields = .error (.invalidContentLength reason) := by
  rw [ofFields_of_no_coding hcoding hlength]
  cases hfound : lengthOf none (fields.all FieldName.contentLength) with
  | error fault =>
      obtain ⟨reason, rfl⟩ := lengthOf_eq_error hfound
      exact .inr ⟨reason, rfl⟩
  | ok found => exact .inl ⟨found.getD 0, rfl⟩

/-- Without a transfer coding, the numeral that all `Content-Length` fields agree on is the length,
and without such a numeral the request is refused.  A sign in front of a numeral is let pass, so
numerals without one are all that is accepted exactly for the requests that have no sign or are
refused for something else. -/
theorem ofFields_eq_ofLength_iff (pairs : List (Bytes × Bytes))
    (hcoding : ∀ pair ∈ pairs, pair.1.lower ≠ FieldName.transferEncoding)
    (hlength : ∃ pair ∈ pairs, pair.1.lower = FieldName.contentLength) :
    let values := (pairs.filter fun pair => pair.1.lower == FieldName.contentLength).map Prod.snd
    let framing := ofFields (.ofList pairs)
    (∀ octets, framing = .ok (.ofLength octets) ↔
        ∀ value ∈ values, IsLength value octets ∨ IsSignedLength value octets) ∧
      ((∃ octets, framing = .ok (.ofLength octets)) ∨
        ∃ reason, framing = .error (.invalidContentLength reason)) ∧
      ((∀ octets, framing = .ok (.ofLength octets) ↔ ∀ value ∈ values, IsLength value octets) ↔
        ((∃ reason, framing = .error (.invalidContentLength reason)) ∨
          ∀ value ∈ values, ∀ octets, ¬ IsSignedLength value octets)) := by
  intro values framing
  have hnone : (Fields.ofList pairs).all FieldName.transferEncoding = [] := by
    rw [Fields.all_ofList, List.map_eq_nil_iff, List.filter_eq_nil_iff]
    intro pair hpair
    simpa using hcoding pair hpair
  have hvalues : (Fields.ofList pairs).all FieldName.contentLength = values :=
    Fields.all_ofList pairs FieldName.contentLength
  have hsome : (Fields.ofList pairs).all FieldName.contentLength ≠ [] := by
    obtain ⟨pair, hpair, hname⟩ := hlength
    rw [hvalues]
    refine List.ne_nil_of_mem (List.mem_map_of_mem (List.mem_filter.mpr ⟨hpair, ?_⟩))
    simpa using hname
  have hok : ∀ octets, framing = .ok (.ofLength octets) ↔
      ∀ value ∈ values, IsLength value octets ∨ IsSignedLength value octets := by
    intro octets
    rw [← hvalues]
    exact ofFields_eq_ok_iff hnone hsome
  have hcases := ofFields_ok_or_refused hnone hsome
  refine ⟨hok, hcases, ?_⟩
  constructor
  · intro hrule
    rcases hcases with ⟨octets, hlengths⟩ | hrefused
    · refine .inr ?_
      intro value hvalue other
      exact not_isSignedLength_of_isLength ((hrule octets).mp hlengths value hvalue)
    · exact .inl hrefused
  · rintro (⟨reason, hrefused⟩ | hunsigned) octets
    · refine iff_of_false (by rw [hrefused]; exact nofun) ?_
      intro hall
      have hlengths := (hok octets).mpr fun value hvalue => .inl (hall value hvalue)
      rw [hrefused] at hlengths
      contradiction
    · rw [hok octets]
      constructor
      · intro hall value hvalue
        exact (hall value hvalue).resolve_right (hunsigned value hvalue octets)
      · intro hall value hvalue
        exact .inl (hall value hvalue)

theorem ofFields_eq_ofLength_blanks_and_zeros :
    let pairs : List (Bytes × Bytes) :=
      [(Bytes.ofText "Content-Length", Bytes.ofText "0042"),
        (Bytes.ofText "Host", Bytes.ofText "a"),
        (Bytes.ofText "content-length", Bytes.ofText "\t42 ")]
    (∀ pair ∈ pairs, pair.1.lower ≠ FieldName.transferEncoding) ∧
      (∃ pair ∈ pairs, pair.1.lower = FieldName.contentLength) ∧
      ofFields (.ofList pairs) = .ok (.length 42) ∧
      ∀ value ∈ [Bytes.ofText "0042", Bytes.ofText "\t42 "],
        IsLength value 42 ∨ IsSignedLength value 42 := by
  intro pairs
  have hcoding : ∀ pair ∈ pairs, pair.1.lower ≠ FieldName.transferEncoding := by decide
  have hlength : ∃ pair ∈ pairs, pair.1.lower = FieldName.contentLength := by decide
  refine ⟨hcoding, hlength, rfl, ?_⟩
  exact ((ofFields_eq_ofLength_iff pairs hcoding hlength).1 42).mp rfl

/-- A value with a sign is no length, and yet accepted as one. -/
theorem ofFields_eq_ofLength_plus_five :
    ofFields (.ofList [(Bytes.ofText "Content-Length", Bytes.ofText "+5")]) = .ok (.ofLength 5) ∧
      ¬ IsLength (Bytes.ofText "+5") 5 := by
  refine ⟨rfl, ?_⟩
  intro h
  have hfive : Numeral (Bytes.ofText "5") 5 := .digit rfl
  refine not_isSignedLength_of_isLength h ⟨Bytes.ofText "5", ⟨[], [], nofun, nofun, rfl⟩, hfive, ?_⟩
  decide

end Framing

end Turnpike
