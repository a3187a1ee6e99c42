import Turnpike.Bytes

/-!
Socket addresses: an IPv4 or IPv6 address with a port, read from their text form and written in the
shortest one.
-/

namespace Turnpike

inductive SocketAddress where
  | v4 (octets : List Nat) (port : Nat)
  | v6 (groups : List Nat) (scope port : Nat)
  deriving DecidableEq, Repr

inductive AddressFault where
  | malformed
  | invalidPort
  deriving DecidableEq, Repr

def AddressFault.message : AddressFault → String
  | .malformed => "invalid socket address"
  | .invalidPort => "invalid port value"

namespace SocketAddress

/-! Reading from the front of a text; what fails leaves the text as it was. -/

abbrev Front := StateT (List Char) Option

def digit? (base : Nat) (c : Char) : Option Nat :=
  let value :=
    if c.isDigit then c.toNat - 48
    else if 'a' ≤ c ∧ c ≤ 'f' then c.toNat - 87
    else if 'A' ≤ c ∧ c ≤ 'F' then c.toNat - 55
    else base
  if value < base then some value else none

def digits (base : Nat) : Front (List Char) := fun text =>
  let digits := text.takeWhile fun c => (digit? base c).isSome
  if digits.isEmpty then none else some (digits, text.drop digits.length)

def value? (base limit : Nat) (digits : List Char) : Option Nat :=
  let value := digits.foldl (fun value c => base * value + (digit? base c).getD 0) 0
  if value < limit then some value else none

def number (base limit : Nat) : Front Nat := do
  let digits ← digits base
  StateT.lift (value? base limit digits)

def char (c : Char) : Front Unit := fun text =>
  if text.head? = some c then some ((), text.tail) else none

def octet : Front Nat := do
  let digits ← digits 10
  if digits.length > 3 ∨ (digits.length > 1 ∧ digits.head? = some '0') then failure
  StateT.lift (value? 10 256 digits)

def octets : Front (List Nat) := do
  let a ← octet
  char '.'
  let b ← octet
  char '.'
  let c ← octet
  char '.'
  let d ← octet
  return [a, b, c, d]

def group : Front Nat := do
  let digits ← digits 16
  if digits.length > 4 then failure
  StateT.lift (value? 16 65536 digits)

def separator (isFirst : Bool) : Front Unit := if isFirst then pure () else char ':'

/-- Two groups written as an IPv4 address. -/
def mixed (isFirst : Bool) : Front (List Nat) := do
  separator isFirst
  match ← octets with
  | [a, b, c, d] => return [256 * a + b, 256 * c + d]
  | _ => failure

/-- Up to `room` groups between colons, and whether the last two of them are mixed, which ends the
run. -/
def groupsWithin : Nat → Bool → Front (List Nat × Bool)
  | 0, _ => return ([], false)
  | room + 1, isFirst =>
    (do
      if room = 0 then failure
      let last ← mixed isFirst
      return (last, true)) <|>
    (do
      separator isFirst
      let value ← group
      let (values, isMixed) ← groupsWithin room false
      return (value :: values, isMixed)) <|>
    return ([], false)

/-- Eight groups; two colons stand for the zeros that are missing. -/
def groups : Front (List Nat) := do
  let (front, isMixed) ← groupsWithin 8 true
  if front.length = 8 then return front
  if isMixed then failure
  char ':'
  char ':'
  let (back, _) ← groupsWithin (7 - front.length) true
  return front ++ List.replicate (8 - front.length - back.length) 0 ++ back

def port : Front Nat := do
  char ':'
  number 10 65536

def v4Address : Front SocketAddress := do
  let octets ← octets
  let port ← port
  return .v4 octets port

def scope : Front Nat := do
  char '%'
  number 10 UInt32.size

def v6Address : Front SocketAddress := do
  char '['
  let groups ← groups
  let scope ← scope <|> return 0
  char ']'
  let port ← port
  return .v6 groups scope port

def all? (front : Front α) (text : List Char) : Option α :=
  match front text with
  | some (value, []) => some value
  | _ => none

def ofText? (text : String) : Option SocketAddress := all? (v4Address <|> v6Address) text.toList

def portText? (text : List Char) : Option (List Char) :=
  let port := text.reverse.takeWhile (· != ':')
  if port.length = text.length then none else some port.reverse

/-- A plus sign may go before a port. -/
def isPort (text : List Char) : Bool :=
  (all? (number 10 65536) (if text.head? = some '+' then text.tail else text)).isSome

def ofText (text : String) : Except AddressFault SocketAddress :=
  match ofText? text with
  | some address => .ok address
  | none =>
    match portText? text.toList with
    | none => .error .malformed
    | some port => if isPort port then .error .malformed else .error .invalidPort

/-! Writing. -/

def dotted (octets : List Nat) : String := ".".intercalate (octets.map toString)

def colons (groups : List Nat) : String :=
  ":".intercalate (groups.map fun group => String.ofList (Nat.toDigits 16 group))

def zeros (groups : List Nat) : Nat := (groups.takeWhile (· == 0)).length

/-- Where the longest run of zeros starts, and how long it is; the first of equally long ones. -/
def zeroRun : List Nat → Nat × Nat
  | [] => (0, 0)
  | group :: groups =>
    let here := zeros (group :: groups)
    let (start, length) := zeroRun groups
    if here ≥ length then (0, here) else (start + 1, length)

def v6Text (groups : List Nat) : String :=
  match groups with
  | [0, 0, 0, 0, 0, 65535, a, b] => "::ffff:" ++ dotted [a / 256, a % 256, b / 256, b % 256]
  | _ =>
    let (start, length) := zeroRun groups
    if length < 2 then colons groups
    else colons (groups.take start) ++ "::" ++ colons (groups.drop (start + length))

def text : SocketAddress → String
  | .v4 octets port => s!"{dotted octets}:{port}"
  | .v6 groups 0 port => s!"[{v6Text groups}]:{port}"
  | .v6 groups scope port => s!"[{v6Text groups}%{scope}]:{port}"

end SocketAddress

end Turnpike
