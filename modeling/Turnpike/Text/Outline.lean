import Turnpike.Bytes
import Turnpike.Text.Number
import Turnpike.Text.Printable

/-!
Outlines: the structure of a value as one line of text, for people to look at.
-/

namespace Turnpike.Outline

def list (items : List String) : String := "[" ++ ", ".intercalate items ++ "]"

def tuple (items : List String) : String := "(" ++ ", ".intercalate items ++ ")"

def wrap (name item : String) : String := name ++ tuple [item]

def maybe : Option String → String
  | some item => wrap "Some" item
  | none => "None"

def flag (b : Bool) : String := toString b

def number (n : Nat) : String := toString n

def fieldList (fields : List (String × String)) : List String :=
  fields.map fun field => field.1 ++ ": " ++ field.2

def braces (items : List String) : String := " \x7b " ++ ", ".intercalate items ++ " \x7d"

def record (name : String) (fields : List (String × String)) : String :=
  name ++ braces (fieldList fields)

/-- A record that has more fields than it shows. -/
def partialRecord (name : String) (fields : List (String × String)) : String :=
  name ++ braces (fieldList fields ++ [".."])

/-! Quoted text. -/

def lowerHex (n : Nat) : List Char := Nat.toDigits 16 n

def codePoint (c : Char) : List Char :=
  ['\\', 'u', '\x7b'] ++ lowerHex c.toNat ++ ['\x7d']

def quotedChar (c : Char) : List Char :=
  if c = '"' ∨ c = '\\' then ['\\', c]
  else if c = '\n' then ['\\', 'n']
  else if c = '\r' then ['\\', 'r']
  else if c = '\t' then ['\\', 't']
  else if c.toNat = 0 then ['\\', '0']
  else if Printable.isPrintable c then [c]
  else codePoint c

def text (text : String) : String :=
  String.ofList ('"' :: (text.toList.flatMap quotedChar ++ ['"']))

def texts (items : List String) : String := list (items.map text)

def hexByte (b : Byte) : List Char :=
  ['\\', 'x', Nat.digitChar (b.toNat / 16), Nat.digitChar (b.toNat % 16)]

def quotedByte (b : Byte) : List Char :=
  if 127 ≤ b ∨ (b < 32 ∧ b ≠ 0 ∧ b ≠ 9 ∧ b ≠ 10 ∧ b ≠ 13) then hexByte b
  else quotedChar (Char.ofNat b.toNat)

def octets (bytes : Bytes) : String :=
  String.ofList ('b' :: '"' :: (bytes.flatMap quotedByte ++ ['"']))

end Turnpike.Outline
