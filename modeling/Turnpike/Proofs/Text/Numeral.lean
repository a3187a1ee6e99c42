import Turnpike.Text.Number
import Mathlib.Data.List.Induction
import Mathlib.Data.List.TakeWhile

/-!
Numerals as a grammar, and texts with blanks around them.  What reads a length accepts a numeral in
this sense, and one with a plus sign in front of it.
-/

namespace Turnpike

/-! Blanks around a text. -/

namespace Bytes

def Padded (text value : Bytes) : Prop :=
  ∃ before after : Bytes, (∀ b ∈ before, b.isBlank = true) ∧ (∀ b ∈ after, b.isBlank = true) ∧
    value = before ++ text ++ after

/-- It starts and ends with something other than a blank. -/
def IsTight (text : Bytes) : Prop :=
  (∀ b ∈ text.head?, b.isBlank = false) ∧ ∀ b ∈ text.getLast?, b.isBlank = false

theorem trimStart_of_blanks {before text : Bytes} (hbefore : ∀ b ∈ before, b.isBlank = true) :
    trimStart (before ++ text) = trimStart text :=
  List.dropWhile_append_of_pos hbefore

theorem trimStart_of_head {text : Bytes} (hhead : ∀ b ∈ text.head?, b.isBlank = false) :
    trimStart text = text := by
  cases text with
  | nil => rfl
  | cons b rest =>
      have hb := hhead b rfl
      rw [trimStart, List.dropWhile_cons_of_neg (by simp [hb])]

theorem trimEnd_eq (text : Bytes) : trimEnd text = (trimStart text.reverse).reverse := rfl

theorem padded_trim (value : Bytes) : Padded value.trim value := by
  refine ⟨value.takeWhile Byte.isBlank, (value.trimStart.reverse.takeWhile Byte.isBlank).reverse,
    ?_, ?_, ?_⟩
  · intro b hb
    exact List.mem_takeWhile_imp hb
  · intro b hb
    exact List.mem_takeWhile_imp (List.mem_reverse.mp hb)
  · have hend : value.trim ++ (value.trimStart.reverse.takeWhile Byte.isBlank).reverse =
        value.trimStart := by
      rw [trim, trimEnd, ← List.reverse_append, List.takeWhile_append_dropWhile,
        List.reverse_reverse]
    rw [List.append_assoc, hend]
    exact List.takeWhile_append_dropWhile.symm

theorem trim_of_padded {text value : Bytes} (hpadded : Padded text value) (htight : text.IsTight) :
    value.trim = text := by
  obtain ⟨before, after, hbefore, hafter, rfl⟩ := hpadded
  obtain ⟨hhead, hlast⟩ := htight
  have hblank : ∀ b ∈ after.reverse, b.isBlank = true := by
    intro b hb
    exact hafter b (List.mem_reverse.mp hb)
  cases text with
  | nil =>
      have hall : trimStart (before ++ [] ++ after) = [] := by
        rw [List.append_nil, trimStart_of_blanks hbefore]
        exact List.dropWhile_eq_nil_iff.mpr hafter
      rw [trim, hall]
      rfl
  | cons b rest =>
      have hstart : trimStart (before ++ (b :: rest) ++ after) = b :: rest ++ after := by
        rw [List.append_assoc, trimStart_of_blanks hbefore]
        exact trimStart_of_head hhead
      have hreverse : ∀ c ∈ (b :: rest).reverse.head?, c.isBlank = false := by
        intro c hc
        rw [List.head?_reverse] at hc
        exact hlast c hc
      rw [trim, hstart, trimEnd_eq, List.reverse_append, trimStart_of_blanks hblank,
        trimStart_of_head hreverse, List.reverse_reverse]

theorem IsTight.trim_eq {text : Bytes} (h : text.IsTight) : text.trim = text :=
  trim_of_padded ⟨[], [], by simp, by simp, by simp⟩ h

end Bytes

/-! Decimal numerals. -/

namespace Number

def plusSign : Byte := 43

/-- One or more decimal digits, the last of which counts ones. -/
inductive Numeral : Bytes → Nat → Prop
  | digit {b : Byte} : b.isDigit = true → Numeral [b] (b.toNat - 48)
  | concat {digits : Bytes} {n : Nat} {b : Byte} :
      Numeral digits n → b.isDigit = true → Numeral (digits ++ [b]) (10 * n + (b.toNat - 48))

theorem Numeral.ne_nil {digits : Bytes} {n : Nat} (h : Numeral digits n) : digits ≠ [] := by
  cases h <;> simp

theorem Numeral.isDigit {digits : Bytes} {n : Nat} (h : Numeral digits n) :
    ∀ b ∈ digits, b.isDigit = true := by
  induction h with
  | digit hdigit =>
      intro b hb
      rw [List.mem_singleton.mp hb]
      exact hdigit
  | concat _ hdigit ih =>
      intro b hb
      rcases List.mem_append.mp hb with hearlier | hlast
      · exact ih b hearlier
      · rw [List.mem_singleton.mp hlast]
        exact hdigit

theorem isBlank_of_isDigit {b : Byte} (h : b.isDigit = true) : b.isBlank = false := by
  simp only [Byte.isDigit, Byte.isBlank, Byte.space, Byte.tab, Bool.and_eq_true,
    decide_eq_true_eq, Bool.or_eq_false_iff, beq_eq_false_iff_ne] at h ⊢
  constructor <;> rintro rfl <;> simp at h

theorem isVisible_of_isDigit {b : Byte} (h : b.isDigit = true) : b.isVisible = true := by
  simp only [Byte.isDigit, Byte.isVisible, Bool.and_eq_true, decide_eq_true_eq, Bool.or_eq_true,
    UInt8.le_iff_toNat_le, UInt8.lt_iff_toNat_lt] at h ⊢
  simp at h ⊢
  omega

theorem Numeral.isTight {digits : Bytes} {n : Nat} (h : Numeral digits n) :
    Bytes.IsTight digits :=
  ⟨fun b hb => isBlank_of_isDigit (h.isDigit b (List.mem_of_mem_head? hb)),
    fun b hb => isBlank_of_isDigit (h.isDigit b (List.mem_of_mem_getLast? hb))⟩

theorem Numeral.isTight_signed {digits : Bytes} {n : Nat} (h : Numeral digits n) :
    Bytes.IsTight (plusSign :: digits) := by
  refine ⟨?_, ?_⟩
  · rintro b ⟨⟩
    rfl
  · intro b hb
    rw [List.getLast?_cons_of_ne_nil h.ne_nil] at hb
    exact h.isTight.2 b hb

/-! Reading a numeral. -/

theorem go_concat (total : Nat) (digits : Bytes) (b : Byte) :
    value?.go total (digits ++ [b]) =
      (value?.go total digits).bind fun n =>
        if b.isDigit then some (10 * n + (b.toNat - 48)) else none := by
  induction digits generalizing total with
  | nil => rfl
  | cons first digits ih =>
      simp only [List.cons_append, value?.go]
      split
      · exact ih _
      · rfl

theorem natural?_concat {digits : Bytes} (hdigits : digits ≠ []) (b : Byte) :
    natural? (digits ++ [b]) =
      (natural? digits).bind fun n =>
        if b.isDigit then some (10 * n + (b.toNat - 48)) else none := by
  rw [natural?, natural?, if_neg (by simp), if_neg (by simpa using hdigits)]
  exact go_concat 0 digits b

theorem natural?_singleton (b : Byte) :
    natural? [b] = if b.isDigit then some (b.toNat - 48) else none := by
  simp [natural?, value?, value?.go]

/-- Exactly the numerals are read. -/
theorem natural?_eq_some_iff {bytes : Bytes} {n : Nat} :
    natural? bytes = some n ↔ Numeral bytes n := by
  constructor
  · intro h
    -- from the back, where a numeral grows
    induction bytes using List.reverseRecOn generalizing n with
    | nil => contradiction
    | append_singleton digits b ih =>
        cases digits with
        | nil =>
            rw [List.nil_append, natural?_singleton] at h
            split at h
            · next hdigit =>
              obtain rfl := Option.some.inj h
              exact .digit hdigit
            · contradiction
        | cons first digits =>
            rw [natural?_concat (List.cons_ne_nil _ _)] at h
            obtain ⟨earlier, hearlier, hlast⟩ := Option.bind_eq_some_iff.mp h
            split at hlast
            · next hdigit =>
              obtain rfl := Option.some.inj hlast
              exact .concat (ih hearlier) hdigit
            · contradiction
  · intro h
    induction h with
    | digit hdigit => rw [natural?_singleton, if_pos hdigit]
    | concat hearlier hdigit ih =>
        rw [natural?_concat hearlier.ne_nil, ih, Option.bind_some, if_pos hdigit]

theorem not_numeral_plus (digits : Bytes) (n : Nat) : ¬ Numeral (plusSign :: digits) n := by
  intro h
  have hdigit := h.isDigit plusSign (List.mem_cons_self ..)
  contradiction

/-- A numeral with or without a plus sign is read, if it stays below the limit. -/
theorem unsigned?_eq_some_iff {limit n : Nat} {bytes : Bytes} :
    unsigned? limit bytes = some n ↔
      n < limit ∧ (Numeral bytes n ∨ ∃ digits, bytes = plusSign :: digits ∧ Numeral digits n) := by
  have hbelow : ∀ digits : Bytes,
      ((natural? digits).bind fun m => if m < limit then some m else none) = some n ↔
        n < limit ∧ Numeral digits n := by
    intro digits
    rw [Option.bind_eq_some_iff, ← natural?_eq_some_iff]
    constructor
    · rintro ⟨m, hm, hlimit⟩
      split at hlimit
      · next hlt =>
        obtain rfl := Option.some.inj hlimit
        exact ⟨hlt, hm⟩
      · contradiction
    · rintro ⟨hlt, hn⟩
      exact ⟨n, hn, if_pos hlt⟩
  by_cases hsign : ∃ digits, bytes = plusSign :: digits
  · obtain ⟨digits, rfl⟩ := hsign
    have hread : unsigned? limit (plusSign :: digits) =
        (natural? digits).bind fun m => if m < limit then some m else none := rfl
    rw [hread, hbelow]
    constructor
    · rintro ⟨hlt, hn⟩
      exact ⟨hlt, .inr ⟨digits, rfl, hn⟩⟩
    · rintro ⟨hlt, hn | ⟨_, heq, hn⟩⟩
      · exact absurd hn (not_numeral_plus digits n)
      · rw [(List.cons.inj heq).2]
        exact ⟨hlt, hn⟩
  · have hread : unsigned? limit bytes =
        (natural? bytes).bind fun m => if m < limit then some m else none := by
      unfold unsigned?
      split
      · next digits => exact absurd ⟨digits, rfl⟩ hsign
      · rfl
    rw [hread, hbelow]
    constructor
    · rintro ⟨hlt, hn⟩
      exact ⟨hlt, .inl hn⟩
    · rintro ⟨hlt, hn | ⟨digits, heq, -⟩⟩
      · exact ⟨hlt, hn⟩
      · exact absurd ⟨digits, heq⟩ hsign

end Number

end Turnpike
