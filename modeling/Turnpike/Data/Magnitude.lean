import Turnpike.Text.Number

/-!
How large a decimal numeral is, as far as a word of 64 bits and doubles tell.  A numeral is read as
a significand of one word and a power of ten, each of which is rounded to a double before they are
multiplied.
-/

namespace Turnpike

structure Magnitude where
  significand : Nat
  power : Int
  deriving DecidableEq, Repr

namespace Magnitude

def digit (b : Byte) : Nat := b.toNat - 48

/-- Adds digits before the point.  From the first that a word has no room for on, they only count. -/
def addWhole : Magnitude → Bytes → Magnitude
  | magnitude, [] => magnitude
  | ⟨significand, power⟩, b :: rest =>
    if 10 * significand + digit b < Number.wordLimit then
      addWhole ⟨10 * significand + digit b, power⟩ rest
    else ⟨significand, power + (rest.length + 1)⟩

/-- Adds digits behind the point, up to the first that a word has no room for. -/
def addFraction : Magnitude → Bytes → Magnitude
  | magnitude, [] => magnitude
  | ⟨significand, power⟩, b :: rest =>
    if 10 * significand + digit b < Number.wordLimit then
      addFraction ⟨10 * significand + digit b, power - 1⟩ rest
    else ⟨significand, power⟩

def ofDigits (whole fraction : Bytes) (exponent : Int) : Magnitude :=
  let read := (addWhole ⟨0, 0⟩ whole).addFraction fraction
  { read with power := read.power + exponent }

def precision : Nat := 53

/-- The nearest natural number that a double can hold, of two the even one, as if there were no
largest. -/
def nearest (n : Nat) : Nat :=
  let unit := 1 <<< (n.log2 + 1 - precision)
  let quotient := n / unit
  let rest := n % unit
  if 2 * rest > unit ∨ (2 * rest = unit ∧ quotient % 2 = 1) then (quotient + 1) * unit
  else quotient * unit

theorem nearest_of_lt {n : Nat} (h : n < 1 <<< precision) : nearest n = n := by
  have hshift : n.log2 + 1 - precision = 0 := by
    by_cases hzero : n = 0
    · subst hzero
      decide
    · have hlog := (Nat.log2_lt hzero).mpr (Nat.one_shiftLeft precision ▸ h)
      omega
  simp [nearest, hshift, Nat.mod_one]

/-- From here on a number is rounded beyond every double. -/
def limit : Nat := (1 <<< 1024) - (1 <<< 970)

def maxPower : Nat := 308

def isTooLarge (magnitude : Magnitude) : Bool :=
  magnitude.significand != 0 && 0 ≤ magnitude.power &&
    (magnitude.power > maxPower ||
      nearest magnitude.significand * nearest (Nat.pow 10 magnitude.power.toNat) ≥ limit)

end Magnitude

end Turnpike
