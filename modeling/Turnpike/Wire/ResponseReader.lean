import Turnpike.Message.Head
import Turnpike.Wire.Lines

/-!
Reading the head of a response.
-/

namespace Turnpike

namespace Wire

def digits : Nat → Nat → Bytes → Reading Nat
  | 0, value, bytes => .done value bytes
  | _ + 1, _, [] => .more
  | count + 1, value, b :: rest =>
    if b.isDigit then digits count (10 * value + (b.toNat - 48)) rest else .bad .status

def versionEnd : Bytes → Reading Unit
  | [] => .more
  | b :: rest => if b = Byte.space then .done () rest else .bad .version

/-- The end of a status line, with a reason phrase or without. -/
def reasonEnd (bytes : Bytes) : Reading Unit :=
  match bytes with
  | b :: rest =>
    if b = Byte.space then lineEnd .status (rest.dropWhile Byte.isFieldContent)
    else lineEnd .status bytes
  | [] => .more

end Wire

namespace ResponseHead

def maxFields : Nat := 64

open Wire in
def read (bytes : Bytes) : Reading ResponseHead :=
  (emptyLines bytes).andThen fun _ rest =>
  (protocolVersion rest).andThen fun version rest =>
  (versionEnd rest).andThen fun _ rest =>
  (digits 3 0 rest).andThen fun code rest =>
  (reasonEnd rest).andThen fun _ rest =>
  (fieldSection maxFields rest).map fun fields => ⟨⟨code⟩, version, .ofList fields⟩

end ResponseHead

end Turnpike
