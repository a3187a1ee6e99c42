import Turnpike.Bytes

/-!
UTF-8: one character at a time from the front of an octet string, and from it strict reading, which
tells where an invalid sequence starts, and lossy reading, which puts one U+FFFD in its place.
-/

namespace Turnpike.Utf8

/-- The character at the front of an octet string. -/
inductive Front where
  | char (value : Char) (length : Nat)
  /-- `length` octets that can start no character. -/
  | invalid (length : Nat)
  /-- All octets there are, the start of a character that is cut short. -/
  | cut

def isTail (b : Byte) : Bool := 128 ≤ b && b < 192

/-- Whether `second` may follow `first` in a sequence of three octets. -/
def isSecondOfThree (first second : Byte) : Bool :=
  if first == 224 then 160 ≤ second && second < 192
  else if first == 237 then 128 ≤ second && second < 160
  else isTail second

def isSecondOfFour (first second : Byte) : Bool :=
  if first == 240 then 144 ≤ second && second < 192
  else if first == 244 then 128 ≤ second && second < 144
  else isTail second

def tailBits (b : Byte) : Nat := b.toNat % 64

def front : Bytes → Front
  | [] => .cut
  | a :: rest =>
    if a < 128 then .char (Char.ofNat a.toNat) 1
    else if 194 ≤ a && a < 224 then
      match rest with
      | [] => .cut
      | b :: _ => if isTail b then .char (Char.ofNat (a.toNat % 32 * 64 + tailBits b)) 2 else .invalid 1
    else if 224 ≤ a && a < 240 then
      match rest with
      | [] => .cut
      | [b] => if isSecondOfThree a b then .cut else .invalid 1
      | b :: c :: _ =>
        if !isSecondOfThree a b then .invalid 1
        else if !isTail c then .invalid 2
        else .char (Char.ofNat (a.toNat % 16 * 4096 + tailBits b * 64 + tailBits c)) 3
    else if 240 ≤ a && a < 245 then
      match rest with
      | [] => .cut
      | [b] => if isSecondOfFour a b then .cut else .invalid 1
      | [b, c] =>
        if !isSecondOfFour a b then .invalid 1 else if !isTail c then .invalid 2 else .cut
      | b :: c :: d :: _ =>
        if !isSecondOfFour a b then .invalid 1
        else if !isTail c then .invalid 2
        else if !isTail d then .invalid 3
        else
          .char (Char.ofNat (a.toNat % 8 * 262144 + tailBits b * 4096 + tailBits c * 64 + tailBits d)) 4
    else .invalid 1

/-- Where reading stopped; `length` is missing when the text is merely cut short. -/
structure Fault where
  start : Nat
  length : Option Nat
  deriving DecidableEq, Repr

def Fault.message (fault : Fault) : String :=
  match fault.length with
  | some n => s!"invalid utf-8 sequence of {n} bytes from index {fault.start}"
  | none => s!"incomplete utf-8 byte sequence from index {fault.start}"

def readWithin : Nat → Nat → List Char → Bytes → Except Fault (List Char)
  | _, _, seen, [] => .ok seen.reverse
  | 0, _, seen, _ :: _ => .ok seen.reverse
  | fuel + 1, start, seen, bytes =>
    match front bytes with
    | .char c n => readWithin fuel (start + n) (c :: seen) (bytes.drop n)
    | .invalid n => .error ⟨start, some n⟩
    | .cut => .error ⟨start, none⟩

def read (bytes : Bytes) : Except Fault String :=
  (readWithin bytes.length 0 [] bytes).map String.ofList

def read? (bytes : Bytes) : Option String := (read bytes).toOption

def isValid (bytes : Bytes) : Bool := (read? bytes).isSome

def readLossyWithin : Nat → List Char → Bytes → List Char
  | _, seen, [] => seen.reverse
  | 0, seen, _ :: _ => seen.reverse
  | fuel + 1, seen, bytes =>
    match front bytes with
    | .char c n => readLossyWithin fuel (c :: seen) (bytes.drop n)
    | .invalid n => readLossyWithin fuel ('\ufffd' :: seen) (bytes.drop n)
    | .cut => ('\ufffd' :: seen).reverse

/-- The text with U+FFFD for every sequence that is not valid. -/
def readLossy (bytes : Bytes) : String :=
  String.ofList (readLossyWithin bytes.length [] bytes)

end Turnpike.Utf8
