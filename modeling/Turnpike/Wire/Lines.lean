import Turnpike.Bytes.Utf8
import Turnpike.Message.Version
import Turnpike.Wire.Reading

/-!
The lines of a message head.  A line ends with LF, and a CR may stand before it and nowhere else.
-/

namespace Turnpike.Wire

/-- Empty lines in front of a message are passed over. -/
def emptyLines : Bytes → Reading Unit
  | [] => .more
  | b :: rest =>
    if b = Byte.lf then emptyLines rest
    else if b = Byte.cr then
      match rest with
      | [] => .more
      | c :: rest => if c = Byte.lf then emptyLines rest else .bad .newLine
    else .done () (b :: rest)

/-- The end of a line, or the flaw that its absence is. -/
def lineEnd (flaw : Flaw) : Bytes → Reading Unit
  | [] => .more
  | b :: rest =>
    if b = Byte.lf then .done () rest
    else if b = Byte.cr then
      match rest with
      | [] => .more
      | c :: rest => if c = Byte.lf then .done () rest else .bad flaw
    else .bad flaw

def methodToken (bytes : Bytes) : Reading Bytes :=
  let name := bytes.takeWhile Byte.isToken
  match bytes.drop name.length with
  | [] => .more
  | b :: rest => if b = Byte.space && !name.isEmpty then .done name rest else .bad .token

def isTargetByte (b : Byte) : Bool := 33 ≤ b && b != 127

def requestTarget (bytes : Bytes) : Reading Bytes :=
  let name := bytes.takeWhile isTargetByte
  match bytes.drop name.length with
  | [] => .more
  | b :: rest =>
    if b = Byte.space && !name.isEmpty && Utf8.isValid name then .done name rest else .bad .token

def http1 : Bytes := Bytes.ofText "HTTP/1."

/-- A version is decided by eight octets; fewer have to be the start of one. -/
def protocolVersion (bytes : Bytes) : Reading Version :=
  if bytes.length < 8 then
    if (bytes.take 7).isPrefixOf http1 then .more else .bad .version
  else if bytes.take 8 = http1 ++ [48] then .done .http10 (bytes.drop 8)
  else if bytes.take 8 = http1 ++ [49] then .done .http11 (bytes.drop 8)
  else .bad .version

/-- A field line: name, colon, value without the blanks around it. -/
def fieldLine (bytes : Bytes) : Reading (Bytes × Bytes) :=
  let name := bytes.takeWhile Byte.isToken
  match bytes.drop name.length with
  | [] => .more
  | b :: rest =>
    if b = Byte.colon && !name.isEmpty then
      let content := rest.takeWhile Byte.isFieldContent
      (lineEnd .fieldValue (rest.drop content.length)).andThen fun _ rest =>
        .done (name, Bytes.trim content) rest
    else .bad .fieldName

/-- Field lines up to the empty line that ends the section; at most `limit` of them. -/
def fieldSection (limit : Nat) (bytes : Bytes) : Reading (List (Bytes × Bytes)) :=
  match bytes with
  | [] => .more
  | b :: _ =>
    if b = Byte.lf || b = Byte.cr then (lineEnd .newLine bytes).map fun _ => []
    else (fieldLine bytes).andThen fun field rest =>
      match limit with
      | 0 => .bad .tooManyFields
      | limit + 1 => (fieldSection limit rest).map (field :: ·)
termination_by structural limit

end Turnpike.Wire
