import Turnpike.Bytes.Utf8
import Turnpike.Data.Record
import Turnpike.Text.Number

/-!
Form data and query strings: pairs between ampersands, a name up to the first equals sign, blanks
written as plus signs and any octet as a percent sign with two hexadecimal digits.
-/

namespace Turnpike.Form

def ampersand : Byte := 38

def equals : Byte := 61

/-- A percent sign without two digits stands for itself. -/
def percentDecode : Bytes → Bytes
  | b :: high :: low :: rest =>
    match b == 37, high.hexValue?, low.hexValue? with
    | true, some upper, some lower => UInt8.ofNat (16 * upper + lower) :: percentDecode rest
    | _, _, _ => b :: percentDecode (high :: low :: rest)
  | bytes => bytes

def decode (bytes : Bytes) : Bytes :=
  percentDecode (bytes.map fun b => if b == 43 then Byte.space else b)

def parts (bytes : Bytes) : List Bytes :=
  (bytes.splitOn ampersand).filter fun part => !part.isEmpty

def pairs (bytes : Bytes) : List (String × String) :=
  (parts bytes).map fun part =>
    let name := part.takeWhile (· != equals)
    (Utf8.readLossy (decode name), Utf8.readLossy (decode ((part.drop name.length).drop 1)))

def value? (kind : Kind) (text : String) : Option Value :=
  match kind with
  | .text => some (.text text)
  | .natural limit => (Number.unsigned? limit (Bytes.ofText text)).map .natural
  | .boolean =>
    if text = "true" then some (.boolean true)
    else if text = "false" then some (.boolean false)
    else none

/-- Puts a value into the place of its member, which has to be free. -/
def place? (shape : Shape) (name text : String) (slots : Slots) : Option Slots :=
  match shape.index? name with
  | none => some slots
  | some index =>
    match shape[index]?, slots[index]? with
    | some member, some none =>
      (value? member.kind text).map fun value => slots.set index (some value)
    | _, _ => none

def record? (shape : Shape) (bytes : Bytes) : Option (List Value) := do
  let slots ← (pairs bytes).foldlM (fun slots pair => place? shape pair.1 pair.2 slots) shape.slots
  shape.complete? slots

end Turnpike.Form
