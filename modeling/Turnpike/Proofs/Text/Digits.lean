import Turnpike.Proofs.Text.Numeral

/-!
Numbers written out.  A number of more than one digit is its quotient by the base, written out, with
the remainder behind it; what is written is read back as the number.
-/

namespace Turnpike

namespace Number

theorem digitsWithin_eq_of_lt {base fuel other n : Nat} (hbase : 1 < base) (hfuel : n < fuel)
    (hother : n < other) : digitsWithin base fuel n = digitsWithin base other n := by
  induction fuel generalizing other n with
  | zero => contradiction
  | succ fuel ih =>
      cases other with
      | zero => contradiction
      | succ other =>
          unfold digitsWithin
          by_cases hn : n < base
          · rw [if_pos hn, if_pos hn]
          · have hless : n / base < n := Nat.div_lt_self (by omega) hbase
            rw [if_neg hn, if_neg hn, ih (by omega) (by omega : n / base < other)]

theorem digits_of_lt {base n : Nat} (h : n < base) : digits base n = [n] := by
  simp only [digits, digitsWithin, h, if_true]

theorem digits_of_le {base n : Nat} (hbase : 1 < base) (h : base ≤ n) :
    digits base n = digits base (n / base) ++ [n % base] := by
  have hless : n / base < n := Nat.div_lt_self (by omega) hbase
  rw [digits, digitsWithin, if_neg (by omega : ¬ n < base), digits,
    digitsWithin_eq_of_lt hbase hless (Nat.lt_succ_self _)]

/-- A statement about numbers and their digits that holds of single digits and is kept when a digit
comes behind. -/
theorem digits_induction {base : Nat} (hbase : 1 < base) {motive : Nat → List Nat → Prop}
    (single : ∀ d, d < base → motive d [d])
    (concat : ∀ n d ds, d < base → motive n ds → motive (base * n + d) (ds ++ [d])) (n : Nat) :
    motive n (digits base n) := by
  induction n using Nat.strongRecOn with
  | ind n ih =>
      by_cases hn : n < base
      · rw [digits_of_lt hn]
        exact single n hn
      · have hless : n / base < n := Nat.div_lt_self (by omega) hbase
        have hdigit : n % base < base := Nat.mod_lt n (by omega)
        have hkept := concat (n / base) (n % base) _ hdigit (ih (n / base) hless)
        rw [Nat.div_add_mod] at hkept
        rwa [digits_of_le hbase (by omega)]

theorem toNat_digitByte {d : Nat} (h : d < 10) : (digitByte d).toNat = 48 + d := by
  rw [digitByte, if_pos h, UInt8.toNat_ofNat']
  omega

theorem isDigit_digitByte {d : Nat} (h : d < 10) : (digitByte d).isDigit = true := by
  simp only [Byte.isDigit, Bool.and_eq_true, decide_eq_true_eq, UInt8.le_iff_toNat_le,
    toNat_digitByte h]
  exact ⟨Nat.le_add_right 48 d, by change 48 + d ≤ 57; omega⟩

/-- What is written in decimal is a numeral of the number. -/
theorem numeral_decimal (n : Nat) : Numeral (decimal n) n := by
  have hvalue : ∀ d, d < 10 → (digitByte d).toNat - 48 = d := by
    intro d hd
    rw [toNat_digitByte hd, Nat.add_sub_cancel_left]
  refine digits_induction (by decide : 1 < 10)
    (motive := fun n ds => Numeral (ds.map digitByte) n) ?single ?concat n
  case single =>
    intro d hd
    have hnumeral := Numeral.digit (isDigit_digitByte hd)
    rwa [hvalue d hd] at hnumeral
  case concat =>
    intro n d ds hd ih
    have hnumeral := ih.concat (isDigit_digitByte hd)
    rwa [hvalue d hd, ← List.map_singleton, ← List.map_append] at hnumeral

theorem unsigned?_decimal {limit n : Nat} (h : n < limit) : unsigned? limit (decimal n) = some n :=
  unsigned?_eq_some_iff.mpr ⟨h, .inl (numeral_decimal n)⟩

theorem hexValue?_digitByte {d : Nat} (h : d < 16) : (digitByte d).hexValue? = some d := by
  have hall : ∀ d : Fin 16, (digitByte d).hexValue? = some d.val := by decide
  exact hall ⟨d, h⟩

end Number

end Turnpike
