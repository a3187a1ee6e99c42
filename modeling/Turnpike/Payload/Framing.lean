import Turnpike.Message.Fault
import Turnpike.Message.Fields
import Turnpike.Payload.Size
import Turnpike.Text.Number

/-!
The framing of a request body, read off its `Transfer-Encoding` and `Content-Length` fields.
-/

namespace Turnpike.Framing

def chunkedToken : Bytes := Bytes.ofText "chunked"

/-- Chunked has to be the last coding of a `Transfer-Encoding` value. -/
def endsChunked (value : Bytes) : Bool :=
  match (value.splitOn Byte.comma).getLast? with
  | some coding => coding.trim.equalsIgnoringCase chunkedToken
  | none => false

def lowHexadecimal (b : Byte) : String :=
  String.ofList (Nat.toDigits 16 b.toNat)

/-- A field value in double quotes, with what is not visible as a hexadecimal escape. -/
def quoted (value : Bytes) : String :=
  "\"" ++ String.join (value.map piece) ++ "\""
where
  piece (b : Byte) : String :=
    if b == 34 then "\\\""
    else if b.isVisible then Bytes.toLatin [b]
    else "\\x" ++ lowHexadecimal b

def length? (value : Bytes) : Option Nat :=
  if value.all Byte.isVisible then Number.unsigned? Number.wordLimit value.trim else none

def conflicting : RequestFault := .invalidContentLength "conflicting values"

/-- All values have to be one and the same length. -/
def lengthOf (known : Option Nat) : List Bytes → Except RequestFault (Option Nat)
  | [] => .ok known
  | value :: values =>
    match length? value with
    | none => .error (.invalidContentLength (quoted value ++ " is not a length"))
    | some octets =>
      if known.all (· == octets) then lengthOf (some octets) values else .error conflicting

def ofFields (fields : Fields) : Except RequestFault PayloadSize :=
  match fields.get? FieldName.transferEncoding, fields.all FieldName.contentLength with
  | none, [] => .ok .empty
  | some coding, [] =>
    if endsChunked coding then .ok .chunked
    else .error (.invalidHead "transfer-encoding of a request must end with chunked")
  | none, values => (lengthOf none values).map fun octets => .ofLength (octets.getD 0)
  | some _, _ => .error (.invalidContentLength "transfer-encoding and content-length both present")

end Turnpike.Framing
