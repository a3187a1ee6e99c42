import Turnpike.Bytes

/-!
Reading a piece of text from the front of an octet string of which more may still arrive.
-/

namespace Turnpike.Wire

inductive Flaw where
  | fieldName
  | fieldValue
  | newLine
  | token
  | tooManyFields
  | version
  | status
  deriving DecidableEq, Repr

def Flaw.message : Flaw → String
  | .fieldName => "invalid header name"
  | .fieldValue => "invalid header value"
  | .newLine => "invalid new line"
  | .token => "invalid token"
  | .tooManyFields => "too many headers"
  | .version => "invalid HTTP version"
  | .status => "invalid response status"

inductive Reading (α : Type) where
  | done (value : α) (rest : Bytes)
  /-- What is there may still become readable. -/
  | more
  | bad (flaw : Flaw)
  deriving Repr

namespace Reading

def andThen (reading : Reading α) (next : α → Bytes → Reading β) : Reading β :=
  match reading with
  | .done value rest => next value rest
  | .more => .more
  | .bad flaw => .bad flaw

def map (f : α → β) (reading : Reading α) : Reading β :=
  reading.andThen fun value rest => .done (f value) rest

@[simp] theorem andThen_done (value : α) (rest : Bytes) (next : α → Bytes → Reading β) :
    (Reading.done value rest).andThen next = next value rest := rfl

@[simp] theorem andThen_more (next : α → Bytes → Reading β) :
    (Reading.more : Reading α).andThen next = .more := rfl

@[simp] theorem andThen_bad (flaw : Flaw) (next : α → Bytes → Reading β) :
    (Reading.bad flaw : Reading α).andThen next = .bad flaw := rfl

end Reading

end Turnpike.Wire
