import Turnpike.Message.Head
import Turnpike.Proofs.Text.Numeral

/-!
Comma separated lists.  A word is listed in a text if it stands between commas or the ends of the
text, in any case and with any blanks around it; that is what looking for a token of the connection
among all fields comes to.
-/

namespace Turnpike

namespace Bytes

theorem splitOn_of_not_mem {separator : Byte} {part : Bytes} (h : separator ∉ part) :
    splitOn separator part = [part] := by
  induction part with
  | nil => rfl
  | cons b part ih =>
      rw [List.mem_cons, not_or] at h
      rw [splitOn_cons, if_neg (Ne.symm h.1), ih h.2]

theorem splitOn_append {separator : Byte} {part : Bytes} (h : separator ∉ part) (rest : Bytes) :
    splitOn separator (part ++ separator :: rest) = part :: splitOn separator rest := by
  induction part with
  | nil => rw [List.nil_append, splitOn_cons, if_pos rfl]
  | cons b part ih =>
      rw [List.mem_cons, not_or] at h
      rw [List.cons_append, splitOn, if_neg (Ne.symm h.1), ih h.2]

theorem splitOn_intercalate {separator : Byte} {parts : List Bytes} (hsome : parts ≠ [])
    (hfree : ∀ part ∈ parts, separator ∉ part) :
    splitOn separator ([separator].intercalate parts) = parts := by
  induction parts with
  | nil => contradiction
  | cons part parts ih =>
      have hpart := hfree part (List.mem_cons_self ..)
      cases parts with
      | nil => simpa [List.intercalate] using splitOn_of_not_mem hpart
      | cons next parts =>
          have hlater := ih (List.cons_ne_nil next parts) fun other hother =>
            hfree other (List.mem_cons_of_mem _ hother)
          have hjoined : [separator].intercalate (part :: next :: parts) =
              part ++ separator :: [separator].intercalate (next :: parts) := by
            simp [List.intercalate]
          rw [hjoined, splitOn_append hpart, hlater]

/-- The text is a list of items between commas, and one of them is the word. -/
def Lists (value word : Bytes) : Prop :=
  ∃ items : List Bytes, items ≠ [] ∧ (∀ item ∈ items, Byte.comma ∉ item) ∧
    value = [Byte.comma].intercalate items ∧
    ∃ item ∈ items, ∃ written, Padded written item ∧ written.lower = word

end Bytes

theorem Byte.isBlank_lower (b : Byte) : b.lower.isBlank = b.isBlank := by
  unfold lower
  split
  · next hupper =>
    have hvalue := isUpper_iff.mp hupper
    have hlow : b.isBlank = false := by
      simp only [isBlank, Bool.or_eq_false_iff, beq_eq_false_iff_ne]
      constructor <;> (rintro rfl; simp [space, tab] at hvalue)
    have hhigh : (b + 32).isBlank = false := by
      simp only [isBlank, Bool.or_eq_false_iff, beq_eq_false_iff_ne]
      constructor
      all_goals
        intro heq
        have hsum := congrArg UInt8.toNat heq
        rw [UInt8.toNat_add] at hsum
        simp [space, tab] at hsum
        omega
    rw [hlow, hhigh]
  · rfl

namespace Bytes

theorem IsTight.of_lower {text : Bytes} (h : text.lower.IsTight) : text.IsTight := by
  obtain ⟨hhead, hlast⟩ := h
  constructor
  · intro b hb
    rw [← Byte.isBlank_lower]
    refine hhead b.lower ?_
    rw [lower, List.head?_map]
    exact Option.mem_map_of_mem Byte.lower hb
  · intro b hb
    rw [← Byte.isBlank_lower]
    refine hlast b.lower ?_
    rw [lower, List.getLast?_map]
    exact Option.mem_map_of_mem Byte.lower hb

theorem any_trim_splitOn_iff {value word : Bytes} (htight : word.IsTight) (hlower : word.lower = word) :
    (((value.splitOn Byte.comma).map trim).any fun item => item.equalsIgnoringCase word) = true ↔
      value.Lists word := by
  simp only [List.any_map, List.any_eq_true, Function.comp_apply, equalsIgnoringCase_iff, hlower]
  constructor
  · rintro ⟨item, hitem, hword⟩
    exact ⟨value.splitOn Byte.comma, splitOn_ne_nil _ _, fun part => not_mem_of_mem_splitOn,
      (intercalate_splitOn _ _).symm, item, hitem, item.trim, padded_trim item, hword⟩
  · rintro ⟨items, hsome, hfree, rfl, item, hitem, written, hpadded, hword⟩
    rw [splitOn_intercalate hsome hfree]
    refine ⟨item, hitem, ?_⟩
    rw [trim_of_padded hpadded (IsTight.of_lower (hword.symm ▸ htight)), hword]

end Bytes

namespace Fields

/-- One of the `Connection` fields lists the word. -/
def ListsConnection (fields : Fields) (word : Bytes) : Prop :=
  ∃ value ∈ fields.all FieldName.connection, value.Lists word

theorem hasConnectionToken_iff {fields : Fields} {word : Bytes} (htight : word.IsTight)
    (hlower : word.lower = word) :
    fields.hasConnectionToken word = true ↔ fields.ListsConnection word := by
  simp only [hasConnectionToken, connectionTokens, List.any_flatMap, List.any_eq_true (l := fields.all _),
    Bytes.any_trim_splitOn_iff htight hlower, ListsConnection]

theorem hasConnectionToken_close {fields : Fields} :
    fields.hasConnectionToken closeToken = true ↔ fields.ListsConnection closeToken :=
  hasConnectionToken_iff ⟨by decide +kernel, by decide +kernel⟩ (by decide)

theorem hasConnectionToken_keepAlive {fields : Fields} :
    fields.hasConnectionToken keepAliveToken = true ↔ fields.ListsConnection keepAliveToken :=
  hasConnectionToken_iff ⟨by decide +kernel, by decide +kernel⟩ (by decide)

end Fields

end Turnpike
