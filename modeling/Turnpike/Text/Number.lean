import Turnpike.Bytes

/-!
Numerals: naturals written in a base without leading zeros, and read back with a bound.
-/

namespace Turnpike.Number

/-- One past the largest announced length. -/
def wordLimit : Nat := UInt64.size

/-- The digits of `n`, most significant first; `fuel` bounds their number. -/
def digitsWithin (base : Nat) : Nat → Nat → List Nat
  | 0, _ => []
  | fuel + 1, n => if n < base then [n] else digitsWithin base fuel (n / base) ++ [n % base]

def digits (base n : Nat) : List Nat := digitsWithin base (n + 1) n

/-- Above nine come capital letters. -/
def digitByte (d : Nat) : Byte := UInt8.ofNat (if d < 10 then 48 + d else 55 + d)

def decimal (n : Nat) : Bytes := (digits 10 n).map digitByte

def hexadecimal (n : Nat) : Bytes := (digits 16 n).map digitByte

/-- A possibly empty run of decimal digits. -/
def value? : Bytes → Option Nat :=
  go 0
where
  go (total : Nat) : Bytes → Option Nat
    | [] => some total
    | b :: rest => if b.isDigit then go (10 * total + (b.toNat - 48)) rest else none

def natural? (bytes : Bytes) : Option Nat :=
  if bytes.isEmpty then none else value? bytes

/-- A plus sign may stand in front. -/
def unsigned? (limit : Nat) (bytes : Bytes) : Option Nat := do
  let n ← match bytes with
    | 43 :: rest => natural? rest
    | _ => natural? bytes
  if n < limit then some n else none

def signed? (bytes : Bytes) : Option Int := do
  let n : Int ← match bytes with
    | 45 :: rest => (natural? rest).map fun n => - (n : Int)
    | 43 :: rest => (natural? rest).map Int.ofNat
    | _ => (natural? bytes).map Int.ofNat
  if Int64.minValue.toInt ≤ n ∧ n ≤ Int64.maxValue.toInt then some n else none

end Turnpike.Number
