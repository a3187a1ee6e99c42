import Turnpike.Bytes.Utf8
import Turnpike.Data.Magnitude
import Turnpike.Data.Record

/-!
Reading JSON text as a record, given as an object or as the list of its members in order.  Members
the record does not have are passed over.
-/

namespace Turnpike.Json

inductive Flaw where
  | malformed
  | cutShort
  /-- Well-formed as far as it was read, but not what the record asks for. -/
  | wrongShape
  deriving DecidableEq, Repr

def isBlank (b : Byte) : Bool := b == 32 || b == 9 || b == 10 || b == 13

def skipBlanks (bytes : Bytes) : Bytes := bytes.dropWhile isBlank

/-! Strings. -/

def hexFour? : Bytes → Option Nat
  | [a, b, c, d] => do
    let a ← a.hexValue?
    let b ← b.hexValue?
    let c ← c.hexValue?
    let d ← d.hexValue?
    some (4096 * a + 256 * b + 16 * c + d)
  | _ => none

def hexEscape (bytes : Bytes) : Except Flaw (Nat × Bytes) :=
  if bytes.length < 4 then .error .cutShort
  else match hexFour? (bytes.take 4) with
    | some unit => .ok (unit, bytes.drop 4)
    | none => .error .malformed

def isLeading (unit : Nat) : Bool := 0xD800 ≤ unit && unit ≤ 0xDBFF

def isTrailing (unit : Nat) : Bool := 0xDC00 ≤ unit && unit ≤ 0xDFFF

def codePoint (n : Nat) : Bytes := String.utf8EncodeChar (Char.ofNat n)

def trailingEscape (leading : Nat) (bytes : Bytes) : Except Flaw (Bytes × Bytes) := do
  match bytes with
  | [] => .error .cutShort
  | 92 :: [] => .error .cutShort
  | 92 :: 117 :: rest =>
    let (trailing, rest) ← hexEscape rest
    if isTrailing trailing then
      .ok (codePoint (0x10000 + (leading - 0xD800) * 0x400 + (trailing - 0xDC00)), rest)
    else .error .malformed
  | _ => .error .malformed

/-- What stands after `\u`; surrogates have to come in pairs where the text is kept. -/
def unicodeEscape (kept : Bool) (bytes : Bytes) : Except Flaw (Bytes × Bytes) := do
  let (unit, rest) ← hexEscape bytes
  if !kept then .ok ([], rest)
  else if isTrailing unit then .error .malformed
  else if isLeading unit then trailingEscape unit rest
  else .ok (codePoint unit, rest)

def plainEscape? (b : Byte) : Option Byte :=
  if b == 34 || b == 92 || b == 47 then some b
  else if b == 98 then some 8
  else if b == 102 then some 12
  else if b == 110 then some 10
  else if b == 114 then some 13
  else if b == 116 then some 9
  else none

def escape (kept : Bool) : Bytes → Except Flaw (Bytes × Bytes)
  | [] => .error .cutShort
  | b :: rest =>
    if b == 117 then unicodeEscape kept rest
    else match plainEscape? b with
      | some octet => .ok ([octet], rest)
      | none => .error .malformed

def stringWithin (kept : Bool) : Nat → Bytes → Bytes → Except Flaw (Bytes × Bytes)
  | 0, _, _ => .error .cutShort
  | _ + 1, _, [] => .error .cutShort
  | fuel + 1, seen, b :: rest =>
    if b == 34 then .ok (seen.reverse, rest)
    else if b == 92 then do
      let (octets, rest) ← escape kept rest
      stringWithin kept fuel (octets.reverse ++ seen) rest
    else if b < 32 then .error .malformed
    else stringWithin kept fuel (b :: seen) rest

def string (bytes : Bytes) : Except Flaw (String × Bytes) := do
  let (octets, rest) ← stringWithin true (bytes.length + 1) [] bytes
  match Utf8.read? octets with
  | some text => .ok (text, rest)
  | none => .error .malformed

/-- Passes over a string, without a look at its encoding. -/
def skipString (bytes : Bytes) : Except Flaw Bytes :=
  (stringWithin false (bytes.length + 1) [] bytes).map Prod.snd

/-! Literals and numbers. -/

/-- The rest of a literal whose first letter is read already. -/
def literal : Bytes → Bytes → Except Flaw Bytes
  | [], bytes => .ok bytes
  | _ :: _, [] => .error .cutShort
  | letter :: letters, b :: rest => if b = letter then literal letters rest else .error .malformed

def afterNull : Bytes := Bytes.ofText "ull"
def afterTrue : Bytes := Bytes.ofText "rue"
def afterFalse : Bytes := Bytes.ofText "alse"

inductive Number where
  | natural (value : Nat)
  | other
  deriving DecidableEq, Repr

def valueOf (digits : Bytes) : Nat := digits.foldl (fun n b => 10 * n + (b.toNat - 48)) 0

/-- The digits that have to come next; `atEnd` is the flaw of a text that ends before them. -/
def someDigits (atEnd : Flaw) (bytes : Bytes) : Except Flaw (Bytes × Bytes) :=
  let digits := bytes.takeWhile Byte.isDigit
  let rest := bytes.drop digits.length
  if digits.isEmpty then .error (if rest.isEmpty then atEnd else .malformed) else .ok (digits, rest)

/-- The digits before a fraction or an exponent, without leading zeros. -/
def integerPart (atEnd : Flaw) (bytes : Bytes) : Except Flaw (Bytes × Bytes) := do
  let (digits, rest) ← someDigits atEnd bytes
  match digits with
  | 48 :: _ :: _ => .error .malformed
  | _ => .ok (digits, rest)

def fractionPart (atEnd : Flaw) : Bytes → Except Flaw (Bytes × Bytes)
  | 46 :: rest => someDigits atEnd rest
  | bytes => .ok ([], bytes)

def unsignedExponent (atEnd : Flaw) (bytes : Bytes) : Except Flaw (Int × Bytes) := do
  let (digits, rest) ← someDigits atEnd bytes
  .ok (valueOf digits, rest)

def exponentPart (atEnd : Flaw) (bytes : Bytes) : Except Flaw (Option Int × Bytes) :=
  match bytes with
  | b :: rest =>
    if b == 101 || b == 69 then
      match rest with
      | 45 :: rest => (unsignedExponent atEnd rest).map fun (exponent, rest) => (some (-exponent), rest)
      | 43 :: rest => (unsignedExponent atEnd rest).map fun (exponent, rest) => (some exponent, rest)
      | _ => (unsignedExponent atEnd rest).map fun (exponent, rest) => (some exponent, rest)
    else .ok (none, bytes)
  | [] => .ok (none, bytes)

/-- A number behind its sign.  One that comes out beyond every double is refused. -/
def number (negative : Bool) (bytes : Bytes) : Except Flaw (Number × Bytes) := do
  let (whole, rest) ← integerPart .cutShort bytes
  let (fraction, rest) ← fractionPart .cutShort rest
  let (exponent, rest) ← exponentPart .cutShort rest
  let value := valueOf whole
  if fraction.isEmpty && exponent.isNone && !negative && value < Turnpike.Number.wordLimit then
    .ok (.natural value, rest)
  else if (Magnitude.ofDigits whole fraction (exponent.getD 0)).isTooLarge then .error .malformed
  else .ok (.other, rest)

def skipNumber (bytes : Bytes) : Except Flaw Bytes := do
  let (_, rest) ← integerPart .malformed bytes
  let (_, rest) ← fractionPart .malformed rest
  let (_, rest) ← exponentPart .malformed rest
  .ok rest

/-! Values nobody asks for. -/

mutual

/-- Passes over a value; `fuel` bounds the number of values in it. -/
def skipValue : Nat → Bytes → Except Flaw Bytes
  | 0, _ => .error .cutShort
  | fuel + 1, bytes =>
    match skipBlanks bytes with
    | [] => .error .cutShort
    | b :: rest =>
      if b == 110 then literal afterNull rest
      else if b == 116 then literal afterTrue rest
      else if b == 102 then literal afterFalse rest
      else if b == 45 then skipNumber rest
      else if b.isDigit then skipNumber (b :: rest)
      else if b == 34 then skipString rest
      else if b == 91 then
        match skipBlanks rest with
        | [] => .error .cutShort
        | 93 :: rest => .ok rest
        | rest => skipElements fuel rest
      else if b == 123 then
        match skipBlanks rest with
        | [] => .error .cutShort
        | 125 :: rest => .ok rest
        | rest => skipMembers fuel rest
      else .error .malformed

def skipElements : Nat → Bytes → Except Flaw Bytes
  | 0, _ => .error .cutShort
  | fuel + 1, bytes => do
    let rest ← skipValue fuel bytes
    match skipBlanks rest with
    | [] => .error .cutShort
    | 44 :: rest => skipElements fuel rest
    | 93 :: rest => .ok rest
    | _ => .error .malformed

def skipMembers : Nat → Bytes → Except Flaw Bytes
  | 0, _ => .error .cutShort
  | fuel + 1, bytes => do
    match skipBlanks bytes with
    | [] => .error .cutShort
    | 34 :: rest =>
      let rest ← skipString rest
      match skipBlanks rest with
      | [] => .error .cutShort
      | 58 :: rest =>
        let rest ← skipValue fuel rest
        match skipBlanks rest with
        | [] => .error .cutShort
        | 44 :: rest => skipMembers fuel rest
        | 125 :: rest => .ok rest
        | _ => .error .malformed
      | _ => .error .malformed
    | _ => .error .malformed

end

def skip (bytes : Bytes) : Except Flaw Bytes := skipValue (2 * bytes.length + 2) bytes

/-! Members. -/

/-- The flaw of a value of another kind: its own, if it is malformed at the front. -/
def mismatch (b : Byte) (rest : Bytes) : Flaw :=
  let flawOf {α : Type} : Except Flaw α → Flaw
    | .ok _ => .wrongShape
    | .error flaw => flaw
  if b == 110 then flawOf (literal afterNull rest)
  else if b == 116 then flawOf (literal afterTrue rest)
  else if b == 102 then flawOf (literal afterFalse rest)
  else if b == 45 then flawOf (number true rest)
  else if b.isDigit then flawOf (number false (b :: rest))
  else if b == 34 then flawOf (string rest)
  else if b == 91 || b == 123 then .wrongShape
  else .malformed

def textValue (b : Byte) (rest : Bytes) : Except Flaw (Value × Bytes) := do
  if b == 34 then
    let (text, rest) ← string rest
    .ok (.text text, rest)
  else .error (mismatch b rest)

def naturalValue (limit : Nat) (b : Byte) (rest : Bytes) : Except Flaw (Value × Bytes) := do
  if b == 45 || b.isDigit then
    let (number, rest) ← if b == 45 then number true rest else number false (b :: rest)
    match number with
    | .natural n => if n < limit then .ok (.natural n, rest) else .error .wrongShape
    | .other => .error .wrongShape
  else .error (mismatch b rest)

def booleanValue (b : Byte) (rest : Bytes) : Except Flaw (Value × Bytes) := do
  if b == 116 then
    let rest ← literal afterTrue rest
    .ok (.boolean true, rest)
  else if b == 102 then
    let rest ← literal afterFalse rest
    .ok (.boolean false, rest)
  else .error (mismatch b rest)

def value (kind : Kind) (bytes : Bytes) : Except Flaw (Value × Bytes) :=
  match skipBlanks bytes with
  | [] => .error .cutShort
  | b :: rest =>
    match kind with
    | .text => textValue b rest
    | .natural limit => naturalValue limit b rest
    | .boolean => booleanValue b rest

/-- The value of a member that is asked for once, or of one that is not asked for. -/
def memberValue (shape : Shape) (name : String) (slots : Slots) (bytes : Bytes) : Except Flaw (Slots × Bytes) :=
  match shape.index? name with
  | none => (skip bytes).map fun rest => (slots, rest)
  | some index =>
    match shape[index]?, slots[index]? with
    | some member, some none => do
      let (found, rest) ← value member.kind bytes
      .ok (slots.set index (some found), rest)
    | _, _ => .error .wrongShape

/-- A member: its name, whose opening quote is read already, a colon and its value. -/
def member (shape : Shape) (slots : Slots) (bytes : Bytes) : Except Flaw (Slots × Bytes) := do
  let (name, rest) ← string bytes
  match shape.index? name with
  | some index =>
    if (slots[index]?.join).isSome then .error .wrongShape
  | none => pure ()
  match skipBlanks rest with
  | [] => .error .cutShort
  | 58 :: rest => memberValue shape name slots rest
  | _ => .error .malformed

/-- The members of an object after one of them, up to its end. -/
def moreMembers (shape : Shape) : Nat → Slots → Bytes → Except Flaw (Slots × Bytes)
  | 0, _, _ => .error .cutShort
  | fuel + 1, slots, bytes => do
    match skipBlanks bytes with
    | [] => .error .cutShort
    | 125 :: rest => .ok (slots, rest)
    | 44 :: rest =>
      match skipBlanks rest with
      | [] => .error .cutShort
      | 34 :: rest =>
        let (slots, rest) ← member shape slots rest
        moreMembers shape fuel slots rest
      | _ => .error .malformed
    | _ => .error .malformed

def object (shape : Shape) (bytes : Bytes) : Except Flaw (Slots × Bytes) := do
  match skipBlanks bytes with
  | [] => .error .cutShort
  | 125 :: rest => .ok (shape.slots, rest)
  | 34 :: rest =>
    let (slots, rest) ← member shape shape.slots rest
    moreMembers shape (bytes.length + 1) slots rest
  | _ => .error .malformed

def listEnd (bytes : Bytes) : Except Flaw Bytes :=
  match skipBlanks bytes with
  | [] => .error .cutShort
  | 93 :: rest => .ok rest
  | _ => .error .malformed

/-- The members of a list in order; a list that ends early leaves the fallbacks. -/
def listMembers (first : Bool) : Shape → Bytes → Except Flaw (List Value × Bytes)
  | [], bytes => (listEnd bytes).map fun rest => ([], rest)
  | asked :: shape, bytes => do
    match skipBlanks bytes with
    | [] => .error .cutShort
    | 93 :: rest =>
      match (asked :: shape).mapM (·.fallback) with
      | some values => .ok (values, rest)
      | none => .error .wrongShape
    | b :: rest =>
      let bytes ←
        if first then pure (b :: rest)
        else if b == 44 then
          match skipBlanks rest with
          | [] => .error .cutShort
          | 93 :: _ => .error .malformed
          | rest => pure rest
        else .error .malformed
      let (found, rest) ← value asked.kind bytes
      let (values, rest) ← listMembers false shape rest
      .ok (found :: values, rest)

def record (shape : Shape) (bytes : Bytes) : Except Flaw (List Value) := do
  match skipBlanks bytes with
  | [] => .error .cutShort
  | b :: rest =>
    let (values, rest) ←
      if b == 123 then do
        let (slots, rest) ← object shape rest
        match shape.complete? slots with
        | some values => pure (values, rest)
        | none => .error .wrongShape
      else if b == 91 then listMembers true shape rest
      else .error (mismatch b rest)
    if (skipBlanks rest).isEmpty then .ok values else .error .malformed

end Turnpike.Json
