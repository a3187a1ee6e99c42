import Turnpike.Data.Form

/-!
Query strings.  A pair is a path of names and a value: a first name, or a bracket in its place, and
further brackets, each with a name, with the number of an element, or empty for the next element.
The pairs fill a tree; a plain value is a leaf right below its root.
-/

namespace Turnpike.Query

def openBracket : Byte := 91

def closeBracket : Byte := 93

inductive Step where
  | name (text : String)
  | element (index : Nat)
  | next
  deriving DecidableEq, Repr

structure Pair where
  first : Step
  path : List Step
  value : String
  deriving DecidableEq, Repr

/-! Reading pairs. -/

/-- Text has to be UTF-8 once it is decoded. -/
def text? (bytes : Bytes) : Option String := Utf8.read? (Form.decode bytes)

def name? (bytes : Bytes) : Option Step := (text? bytes).map .name

def element? (bytes : Bytes) : Option Step := do
  let text ← text? bytes
  let index ← Number.natural? (Bytes.ofText text)
  if index < Number.wordLimit then some (.element index) else none

/-- Whether a name in a bracket can start with an octet. -/
def startsName (b : Byte) : Bool := 32 ≤ b && b < 127 && b != openBracket && b != closeBracket

/-- What stands behind an opening bracket.  A bracket that is not closed reaches to the end of its
pair, but nothing at all may not be the end of the query string. -/
def bracket? (isLast : Bool) : Bytes → Option (Step × Bytes)
  | [] => if isLast then none else some (.name "", [])
  | b :: rest =>
    if b = closeBracket then some (.next, rest)
    else
      let inside := (b :: rest).takeWhile (· != closeBracket)
      let behind := ((b :: rest).drop inside.length).drop 1
      if b.isDigit then (element? inside).map fun step => (step, behind)
      else if startsName b then (name? inside).map fun step => (step, behind)
      else none

/-- The steps after a step, and the value behind them.  From a depth of `levels` brackets on all
that stands in front of the value is one name. -/
def path? (isLast : Bool) : Nat → Step → Bytes → Option (List Step × String)
  | _, _, [] => some ([], "")
  | levels, step, b :: rest =>
    if b = Form.equals then (text? rest).map fun value => ([], value)
    else if b ≠ openBracket ∨ step = .next then none
    else
      match levels with
      | 0 => do
        let inside := (b :: rest).takeWhile (· != Form.equals)
        let name ← name? inside
        let value ← text? (((b :: rest).drop inside.length).drop 1)
        some ([name], value)
      | levels + 1 => do
        let (inner, rest) ← bracket? isLast rest
        let (path, value) ← path? isLast levels inner rest
        some (inner :: path, value)

/-- The first step of a pair.  A name ends at an equals sign or a bracket, but not with its first
octet. -/
def first? (isLast : Bool) : Bytes → Option (Step × Bytes)
  | [] => none
  | b :: rest =>
    if b = openBracket then bracket? isLast rest
    else
      let tail := rest.takeWhile fun b => b != Form.equals && b != openBracket
      (name? (b :: tail)).map fun step => (step, rest.drop tail.length)

def pair? (isLast : Bool) (levels : Nat) (part : Bytes) : Option Pair := do
  let (first, rest) ← first? isLast part
  let (path, value) ← path? isLast levels first rest
  some ⟨first, path, value⟩

/-- The pairs of the parts between ampersands; each pair may nest one level deeper than the one
before it. -/
def pairsFrom? (levels : Nat) : List Bytes → Option (List Pair)
  | [] => some []
  | part :: parts =>
    if part.isEmpty then pairsFrom? levels parts
    else do
      let pair ← pair? parts.isEmpty levels part
      let pairs ← pairsFrom? (levels + 1) parts
      some (pair :: pairs)

/-- How many levels the first pair may nest below its first step. -/
def firstLevels : Nat := 4

def pairs? (bytes : Bytes) : Option (List Pair) :=
  pairsFrom? firstLevels (bytes.splitOn Form.ampersand)

/-! The tree. -/

inductive Tree where
  | fresh
  | leaf (value : String)
  | named (children : List (String × Tree))
  | numbered (children : List (Nat × Tree))
  | listed (values : List String)
  /-- A value was put where none may be. -/
  | broken

abbrev Children (κ : Type) := List (κ × Tree)

namespace Children

variable {κ : Type} [BEq κ]

def get? (children : Children κ) (key : κ) : Option Tree :=
  (children.find? fun child => child.1 == key).map Prod.snd

def set (children : Children κ) (key : κ) (tree : Tree) : Children κ :=
  if children.any fun child => child.1 == key then
    children.map fun child => if child.1 == key then (child.1, tree) else child
  else children ++ [(key, tree)]

@[simp] theorem get?_nil (key : κ) : get? ([] : Children κ) key = none := rfl

theorem get?_set_self [LawfulBEq κ] (children : Children κ) (key : κ) (tree : Tree) :
    (children.set key tree).get? key = some tree := by
  induction children with
  | nil => simp [set, get?]
  | cons child children ih =>
    by_cases h : child.1 = key
    · simp [set, get?, h]
    · unfold set get? at ih ⊢
      by_cases hany : (children.any fun child => child.1 == key) = true
      · simpa [h, hany] using ih
      · simpa [h, hany] using ih

/-- A key can have one value only. -/
def put (children : Children κ) (key : κ) (value : String) : Children κ :=
  children.set key (if (children.get? key).isSome then .broken else .leaf value)

end Children

namespace Tree

def named? : Tree → Option (Children String)
  | .fresh => some []
  | .named children => some children
  | _ => none

def numbered? : Tree → Option (Children Nat)
  | .fresh => some []
  | .numbered children => some children
  | _ => none

def listed? : Tree → Option (List String)
  | .fresh => some []
  | .listed values => some values
  | _ => none

/-- Puts a value one step below a tree.  A tree of another kind breaks. -/
def put (tree : Tree) (step : Step) (value : String) : Tree :=
  match step with
  | .name text => (tree.named?.map fun children => .named (children.put text value)).getD .broken
  | .element index =>
    (tree.numbered?.map fun children => .numbered (children.put index value)).getD .broken
  | .next => (tree.listed?.map fun values => .listed (values ++ [value])).getD .broken

/-- Puts a value at the end of a path; `none` if the path leads through a tree of another kind. -/
def insert? (value : String) : Step → List Step → Tree → Option Tree
  | step, [], tree => some (tree.put step value)
  | .name text, inner :: path, tree => do
    let children ← tree.named?
    let child ← insert? value inner path ((children.get? text).getD .fresh)
    some (.named (children.set text child))
  | .element index, inner :: path, tree => do
    let children ← tree.numbered?
    let child ← insert? value inner path ((children.get? index).getD .fresh)
    some (.numbered (children.set index child))
  | .next, _ :: _, _ => none

mutual

def isSound : Tree → Bool
  | .fresh | .broken => false
  | .leaf _ | .listed _ => true
  | .named children => areSound children
  | .numbered children => areSoundElements children

def areSound : List (String × Tree) → Bool
  | [] => true
  | (_, tree) :: children => tree.isSound && areSound children

def areSoundElements : List (Nat × Tree) → Bool
  | [] => true
  | (_, tree) :: children => tree.isSound && areSoundElements children

end

def leaf? : Tree → Option String
  | .leaf value => some value
  | _ => none

end Tree

/-- What a query string says of each name.  Once its root breaks it says nothing. -/
def names? (bytes : Bytes) : Option (Children String) := do
  let pairs ← pairs? bytes
  let tree ← pairs.foldlM (fun tree pair => Tree.insert? pair.value pair.first pair.path tree)
    (.named [])
  some (tree.named?.getD [])

def map? (bytes : Bytes) : Option (List (String × String)) := do
  let names ← names? bytes
  names.mapM fun (name, tree) => tree.leaf?.map fun value => (name, value)

def place? (shape : Shape) (slots : Slots) (child : String × Tree) : Option Slots :=
  if (shape.index? child.1).isSome then do
    let value ← child.2.leaf?
    Form.place? shape child.1 value slots
  else if child.2.isSound then some slots
  else none

/-- The query string as a record; what else it names has to be sound. -/
def record? (shape : Shape) (bytes : Bytes) : Option (List Value) := do
  let names ← names? bytes
  let slots ← names.foldlM (place? shape) shape.slots
  shape.complete? slots

end Turnpike.Query
