/-!
How long a message body is, as its framing announces it, and what a body in memory knows of its
own length.
-/

namespace Turnpike

inductive PayloadSize where
  | length (octets : Nat)
  | chunked
  | empty
  deriving DecidableEq, Repr

/-- Bounds on what a body still holds. -/
structure SizeHint where
  lower : Nat
  upper : Option Nat
  deriving DecidableEq, Repr

namespace SizeHint

def unknown : SizeHint := ⟨0, none⟩

def ofExact (octets : Nat) : SizeHint := ⟨octets, some octets⟩

def octets? (hint : SizeHint) : Option Nat :=
  if hint.upper = some hint.lower then some hint.lower else none

@[simp] theorem octets?_ofExact (octets : Nat) : (ofExact octets).octets? = some octets := by
  simp [octets?, ofExact]

end SizeHint

namespace PayloadSize

/-- A body of no octets is no body. -/
def ofLength (octets : Nat) : PayloadSize := if octets = 0 then .empty else .length octets

def ofHint (hint : SizeHint) : PayloadSize :=
  match hint.octets? with
  | some octets => .ofLength octets
  | none => .chunked

def isChunked (size : PayloadSize) : Bool := size == .chunked

def isEmpty (size : PayloadSize) : Bool := size == .empty

def octets? : PayloadSize → Option Nat
  | .length octets => some octets
  | .chunked => none
  | .empty => some 0

def hint : PayloadSize → SizeHint
  | .length octets => .ofExact octets
  | .chunked => .unknown
  | .empty => .ofExact 0

@[simp] theorem octets?_ofLength (octets : Nat) : (ofLength octets).octets? = some octets := by
  unfold ofLength
  split
  · next h => rw [h, octets?]
  · rfl

theorem isEmpty_iff {size : PayloadSize} : size.isEmpty = true ↔ size = .empty := by
  simp [isEmpty]

theorem isChunked_iff {size : PayloadSize} : size.isChunked = true ↔ size = .chunked := by
  simp [isChunked]

@[simp] theorem ofLength_isChunked (octets : Nat) : (ofLength octets).isChunked = false := by
  unfold ofLength
  split <;> rfl

@[simp] theorem ofHint_ofExact (octets : Nat) : ofHint (.ofExact octets) = ofLength octets := by
  simp [ofHint]

theorem octets?_hint (size : PayloadSize) : size.hint.octets? = size.octets? := by
  cases size <;> simp [hint, octets?, SizeHint.octets?, SizeHint.unknown, SizeHint.ofExact]

end PayloadSize

end Turnpike
