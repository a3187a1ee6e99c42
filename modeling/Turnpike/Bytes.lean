/-!
Octets and octet strings, with the few character classes that the wire format is made of.
-/

namespace Turnpike

abbrev Byte := UInt8

abbrev Bytes := List Byte

namespace Byte

def tab : Byte := 9
def lf : Byte := 10
def cr : Byte := 13
def space : Byte := 32
def comma : Byte := 44
def slash : Byte := 47
def colon : Byte := 58
def semicolon : Byte := 59

def isDigit (b : Byte) : Bool := 48 ≤ b && b ≤ 57

def isUpper (b : Byte) : Bool := 65 ≤ b && b ≤ 90

def isLower (b : Byte) : Bool := 97 ≤ b && b ≤ 122

def isAlpha (b : Byte) : Bool := b.isUpper || b.isLower

def isAlphanumeric (b : Byte) : Bool := b.isAlpha || b.isDigit

def isBlank (b : Byte) : Bool := b == space || b == tab

def isVisible (b : Byte) : Bool := (32 ≤ b && b < 127) || b == tab

/-- The letters of a token: method names and field names. -/
def isToken (b : Byte) : Bool :=
  b.isAlphanumeric || [33, 35, 36, 37, 38, 39, 42, 43, 45, 46, 94, 95, 96, 124, 126].contains b

/-- What a field value may hold on the wire: the tab, printable ASCII and every octet above it. -/
def isFieldContent (b : Byte) : Bool := b == tab || (32 ≤ b && b != 127)

def lower (b : Byte) : Byte := if b.isUpper then b + 32 else b

theorem isUpper_iff {b : Byte} : b.isUpper = true ↔ 65 ≤ b.toNat ∧ b.toNat ≤ 90 := by
  simp [isUpper, UInt8.le_iff_toNat_le]

@[simp] theorem isUpper_lower (b : Byte) : b.lower.isUpper = false := by
  rw [Bool.eq_false_iff]
  intro hupper
  unfold lower at hupper
  split at hupper
  · next h =>
    rw [isUpper_iff] at h hupper
    rw [UInt8.toNat_add] at hupper
    have hshift : UInt8.toNat 32 = 32 := rfl
    omega
  · contradiction

theorem lower_eq_self {b : Byte} (h : b.isUpper = false) : b.lower = b := by
  simp [lower, h]

@[simp] theorem lower_lower (b : Byte) : b.lower.lower = b.lower := lower_eq_self (isUpper_lower b)

def hexValue? (b : Byte) : Option Nat :=
  if b.isDigit then some (b.toNat - 48)
  else if 97 ≤ b && b ≤ 102 then some (b.toNat - 87)
  else if 65 ≤ b && b ≤ 70 then some (b.toNat - 55)
  else none

end Byte

namespace Bytes

def ofText (text : String) : Bytes :=
  text.toList.flatMap String.utf8EncodeChar

@[simp] theorem ofText_append (left right : String) :
    ofText (left ++ right) = ofText left ++ ofText right := by
  simp [ofText]

/-- Reads every octet as the character of that number. -/
def toLatin (bytes : Bytes) : String :=
  String.ofList (bytes.map fun b => Char.ofNat b.toNat)

def lower (bytes : Bytes) : Bytes := bytes.map Byte.lower

@[simp] theorem lower_lower (bytes : Bytes) : bytes.lower.lower = bytes.lower := by
  simp [lower]

def equalsIgnoringCase (left right : Bytes) : Bool := left.lower == right.lower

theorem equalsIgnoringCase_iff {left right : Bytes} :
    left.equalsIgnoringCase right = true ↔ left.lower = right.lower := by
  simp [equalsIgnoringCase]

def trimStart (bytes : Bytes) : Bytes := bytes.dropWhile Byte.isBlank

def trimEnd (bytes : Bytes) : Bytes := (bytes.reverse.dropWhile Byte.isBlank).reverse

def trim (bytes : Bytes) : Bytes := bytes.trimStart.trimEnd

/-- The parts between separators; there is always at least one. -/
def splitOn (separator : Byte) : Bytes → List Bytes
  | [] => [[]]
  | b :: rest =>
    if b = separator then [] :: splitOn separator rest
    else match splitOn separator rest with
      | [] => [[b]]
      | part :: parts => (b :: part) :: parts

theorem splitOn_cons (separator b : Byte) (rest : Bytes) :
    splitOn separator (b :: rest) =
      if b = separator then [] :: splitOn separator rest
      else match splitOn separator rest with
        | [] => [[b]]
        | part :: parts => (b :: part) :: parts := rfl

theorem splitOn_ne_nil (separator : Byte) (bytes : Bytes) : splitOn separator bytes ≠ [] := by
  cases bytes with
  | nil => exact List.cons_ne_nil [] []
  | cons b rest =>
    rw [splitOn_cons]
    split
    · simp
    · split <;> simp

theorem not_mem_of_mem_splitOn {separator : Byte} {bytes part : Bytes}
    (hpart : part ∈ splitOn separator bytes) : separator ∉ part := by
  induction bytes generalizing part with
  | nil =>
    obtain rfl := List.mem_singleton.mp hpart
    exact List.not_mem_nil
  | cons b rest ih =>
    rw [splitOn_cons] at hpart
    split at hpart
    · rcases List.mem_cons.mp hpart with rfl | hlater
      · exact List.not_mem_nil
      · exact ih hlater
    · next hne =>
      cases hparts : splitOn separator rest with
      | nil => exact absurd hparts (splitOn_ne_nil separator rest)
      | cons first parts =>
        rw [hparts] at hpart ih
        rcases List.mem_cons.mp hpart with rfl | hlater
        · intro hmem
          rcases List.mem_cons.mp hmem with heq | hin
          · exact hne heq.symm
          · exact ih (List.mem_cons_self ..) hin
        · exact ih (List.mem_cons_of_mem _ hlater)

theorem intercalate_splitOn (separator : Byte) (bytes : Bytes) :
    [separator].intercalate (splitOn separator bytes) = bytes := by
  induction bytes with
  | nil => rfl
  | cons b rest ih =>
    rw [splitOn_cons]
    cases hparts : splitOn separator rest with
    | nil => exact absurd hparts (splitOn_ne_nil separator rest)
    | cons first parts =>
      rw [hparts] at ih
      split
      · next heq =>
        subst heq
        simpa [List.intercalate] using ih
      · cases parts with
        | nil => simpa [List.intercalate] using ih
        | cons second parts => simpa [List.intercalate] using ih

end Bytes

end Turnpike
