import Turnpike.Proofs.Wire.ResponseHead

/-!
The header section of what is written: everything up to the first empty line.  No CR stands in the
status line or in a field, so that the head of a response is its header section, whatever stands
behind it.
-/

namespace Turnpike

open PayloadEncoder

/-- The octets up to the first empty line, which is part of them. -/
def headerSection : Bytes → Bytes
  | [] => []
  | b :: rest =>
    if (lineEnd ++ lineEnd).isPrefixOf (b :: rest) then lineEnd ++ lineEnd
    else b :: headerSection rest

theorem headerSection_cons_of_ne {b : Byte} (h : b ≠ Byte.cr) (rest : Bytes) :
    headerSection (b :: rest) = b :: headerSection rest := by
  rw [headerSection, if_neg]
  simp [lineEnd, Ne.symm h]

theorem headerSection_text {text : Bytes} (h : Byte.cr ∉ text) (rest : Bytes) :
    headerSection (text ++ rest) = text ++ headerSection rest := by
  induction text with
  | nil => rfl
  | cons b text ih =>
      obtain ⟨hfirst, hlater⟩ := not_or.mp (mt List.mem_cons.mpr h)
      rw [List.cons_append, headerSection_cons_of_ne (Ne.symm hfirst), ih hlater, List.cons_append]

/-- A line goes on to the next one unless that is empty. -/
theorem headerSection_lineEnd {rest : Bytes} (h : rest.head? ≠ some Byte.cr) :
    headerSection (lineEnd ++ rest) = lineEnd ++ headerSection rest := by
  have hnext : ¬ (lineEnd ++ lineEnd).isPrefixOf (Byte.cr :: Byte.lf :: rest) = true := by
    change ¬ (lineEnd ++ lineEnd).isPrefixOf (lineEnd ++ rest) = true
    rw [List.isPrefixOf_iff_prefix, List.prefix_append_right_inj]
    intro hempty
    obtain ⟨later, rfl⟩ := hempty
    exact h rfl
  change headerSection (Byte.cr :: Byte.lf :: rest) = _
  rw [headerSection, if_neg hnext, headerSection_cons_of_ne (by decide)]
  rfl

theorem headerSection_empty (rest : Bytes) :
    headerSection (lineEnd ++ (lineEnd ++ rest)) = lineEnd ++ lineEnd := by
  change headerSection (Byte.cr :: Byte.lf :: (lineEnd ++ rest)) = _
  rw [headerSection, if_pos]
  rw [List.isPrefixOf_iff_prefix, ← List.cons_append]
  exact ⟨rest, by simp [lineEnd]⟩

namespace Fields

theorem cr_not_mem_of_isFieldContent {value : Bytes} (h : ∀ b ∈ value, b.isFieldContent = true) :
    Byte.cr ∉ value :=
  fun hmem => absurd (h _ hmem) (by decide)

theorem IsName.cr_not_mem {name : FieldName} (h : IsName name) : Byte.cr ∉ name :=
  fun hmem => absurd (h.token _ hmem) (by decide)

theorem headerSection_lines {pairs : List (FieldName × Bytes)}
    (h : ∀ pair ∈ pairs, IsName pair.1 ∧ ∀ b ∈ pair.2, b.isFieldContent = true) (rest : Bytes) :
    headerSection (lineEnd ++ ((pairs.flatMap fun pair => line pair.1 pair.2) ++ (lineEnd ++ rest))) =
      lineEnd ++ ((pairs.flatMap fun pair => line pair.1 pair.2) ++ lineEnd) := by
  induction pairs with
  | nil => exact headerSection_empty rest
  | cons pair pairs ih =>
      obtain ⟨hname, hvalue⟩ := h pair (List.mem_cons_self ..)
      have hlater := ih fun other hother => h other (List.mem_cons_of_mem _ hother)
      obtain ⟨b, name, hnonempty⟩ := List.exists_cons_of_ne_nil hname.nonempty
      have hfree : Byte.cr ∉ pair.1 ++ Bytes.ofText ": " ++ pair.2 := by
        rw [List.mem_append, List.mem_append, not_or, not_or]
        exact ⟨⟨hname.cr_not_mem, by decide⟩, cr_not_mem_of_isFieldContent hvalue⟩
      have hline : ∀ rest, line pair.1 pair.2 ++ rest =
          (pair.1 ++ Bytes.ofText ": " ++ pair.2) ++ (lineEnd ++ rest) := by
        intro rest
        rw [line, List.append_assoc]
      rw [List.flatMap_cons, List.append_assoc, List.append_assoc, hline, headerSection_lineEnd,
        headerSection_text hfree, hlater, hline]
      have hfirst : b ≠ Byte.cr := by
        rintro rfl
        exact hname.cr_not_mem (hnonempty ▸ List.mem_cons_self ..)
      rw [hnonempty]
      simpa using hfirst

end Fields

namespace ResponseHead

theorem cr_not_mem_ofText_version {version : Version}
    (h : version = .http10 ∨ version = .http11) : Byte.cr ∉ Bytes.ofText version.text := by
  rcases h with rfl | rfl <;> decide

theorem exists_statusLine_eq {head : ResponseHead}
    (hversion : head.version = .http10 ∨ head.version = .http11) :
    ∃ text, Byte.cr ∉ text ∧ head.statusLine = text ++ lineEnd := by
  refine ⟨_, ?_, rfl⟩
  simp only [List.mem_append, not_or]
  refine ⟨⟨⟨⟨cr_not_mem_ofText_version hversion, by decide⟩, ?_⟩, by decide⟩, ?_⟩
  · exact fun hmem => absurd ((Number.numeral_decimal _).isDigit _ hmem) (by decide)
  · exact Fields.cr_not_mem_of_isFieldContent (Wire.isFieldContent_reason head.status)

/-- The head of a response is its header section, with any octets behind it. -/
theorem headerSection_of_encode? {head : ResponseHead} (hfields : head.fields.Encodable)
    {size : PayloadSize} {bytes : Bytes} (h : head.encode? size = some bytes) (rest : Bytes) :
    headerSection (bytes ++ rest) = bytes := by
  obtain ⟨hversion, hencoded⟩ :=
    (head.encode?_cases size).resolve_right (h ▸ Option.some_ne_none bytes)
  obtain rfl := Option.some.inj (h.symm.trans hencoded)
  obtain ⟨text, hfree, hline⟩ := exists_statusLine_eq hversion
  have hlines : ∀ pair ∈ (head.fields.framed size).toList,
      Fields.IsName pair.1 ∧ ∀ b ∈ pair.2, b.isFieldContent = true := by
    intro pair hpair
    obtain ⟨group, hgroup, hname, hvalue⟩ := Fields.mem_toList hpair
    have hframed := hfields.framed size
    exact ⟨hname ▸ hframed.names group hgroup, hframed.values group hgroup pair.2 hvalue⟩
  rw [hline, Fields.block]
  simp only [List.append_assoc]
  rw [headerSection_text hfree, Fields.headerSection_lines hlines]

end ResponseHead

end Turnpike
