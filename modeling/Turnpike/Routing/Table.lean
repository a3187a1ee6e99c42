import Turnpike.Routing.Template

/-!
A table of templates with what they lead to, walked by what is left of its templates: every step
keeps those that go on with the text at hand.  At one place of a path literal text goes before a
parameter, and a parameter stands with no wildcard for the rest of the path.
-/

namespace Turnpike

/-- What is left of a template on the way to its entry. -/
abbrev Branch (α : Type) := Template × α

abbrev Branches (α : Type) := List (Branch α)

namespace Branches

variable {α : Type}

def ended? (branches : Branches α) : Option α :=
  (branches.find? fun branch => branch.1.isEmpty).map Prod.snd

/-- The entry of a branch that goes on with all that is left of a path. -/
def rest? (branches : Branches α) : Option α :=
  (branches.find? fun branch => branch.1.head?.any TemplateToken.isRest).map Prod.snd

def afterLiteral (c : Char) (branches : Branches α) : Branches α :=
  branches.filterMap fun branch => match branch.1 with
    | .literal d :: rest => if d = c then some (rest, branch.2) else none
    | _ => none

def afterText (text : List Char) (branches : Branches α) : Branches α :=
  text.foldl (fun branches c => branches.afterLiteral c) branches

def afterParam (branches : Branches α) : Branches α :=
  branches.filterMap fun branch => match branch.1 with
    | .param _ :: rest => some (rest, branch.2)
    | _ => none

/-- The texts that may end a segment whose start is captured, each once. -/
def suffixes (branches : Branches α) : List (List Char) :=
  ((branches.map fun branch => branch.1.leadingText).filter fun text => !text.isEmpty).eraseDups

/-! Finding the entry of a path. -/

def longest : List (List Char) → Option (List Char)
  | [] => none
  | text :: texts =>
    match longest texts with
    | some other => if other.length > text.length then some other else some text
    | none => some text

/-- The text up to the first slash, which is part of it. -/
def segment : List Char → List Char
  | [] => []
  | c :: path => if c = '/' then [c] else c :: segment path

def endsInSlash (segment : List Char) : Bool := segment.getLast? == some '/'

/-- The longest suffix that leaves something of the segment to capture. -/
def suffixFor? (branches : Branches α) (segment : List Char) : Option (List Char) :=
  longest (branches.suffixes.filter fun suffix =>
    suffix.length < segment.length && suffix.isSuffixOf segment)

/-- The entry of a path, and what its wildcards capture.  Literal text is tried first; of the
suffixes of a segment only the longest is tried. -/
def findWithin : Nat → Branches α → List Char → Option (α × List (List Char))
  | _, branches, [] => branches.ended?.map fun entry => (entry, [])
  | 0, _, _ :: _ => none
  | fuel + 1, branches, c :: path =>
    match findWithin fuel (branches.afterLiteral c) path with
    | some found => some found
    | none =>
      match branches.rest? with
      | some entry => some (entry, [c :: path])
      | none =>
        let segment := segment (c :: path)
        let branches := branches.afterParam
        if c = '/' then none
        else
          match branches.suffixFor? segment with
          | some suffix =>
            (findWithin fuel (branches.afterText suffix) (path.drop (segment.length - 1))).map
              fun found => (found.1, segment.take (segment.length - suffix.length) :: found.2)
          | none =>
            if endsInSlash segment then none
            else branches.ended?.map fun entry => (entry, [segment])

def find? (branches : Branches α) (path : List Char) : Option (α × List (List Char)) :=
  findWithin path.length branches path

/-! The branch that stands first below others.  It names those that a new template clashes with. -/

/-- The first to come as often as the most frequent one does. -/
def mostUsed (all : List Char) : List Char → List Char → Option Char
  | _, [] => none
  | seen, c :: rest =>
    if all.all fun other => all.count other ≤ (c :: seen).count c then some c
    else mostUsed all (c :: seen) rest

def literals (branches : Branches α) : List Char :=
  branches.filterMap fun branch => match branch.1 with
    | .literal c :: _ => some c
    | _ => none

/-- Literal text goes before wildcards, much used text before other text, and below a parameter a
long suffix before a short one.  Uses and lengths are counted in octets. -/
def firstWithin : Nat → Branches α → Option α
  | 0, _ => none
  | fuel + 1, branches =>
    match mostUsed branches.literals [] branches.literals with
    | some c => firstWithin fuel (branches.afterLiteral c)
    | none =>
      match branches.rest? with
      | some entry => some entry
      | none =>
        let below := branches.afterParam
        match longest below.suffixes with
        | some suffix => firstWithin fuel (below.afterText suffix)
        | none => below.ended?.or branches.ended?

/-- The number of tokens in all branches. -/
def size (branches : Branches α) : Nat := (branches.flatMap fun branch => branch.1).length

def first? (branches : Branches α) : Option α := firstWithin (branches.size + 1) branches

def wildcard? (branches : Branches α) : Option α :=
  branches.rest?.or (first? (branches.filter fun branch => !branch.1.head?.all TemplateToken.isLiteral))

end Branches

inductive TableFlaw where
  | clash (earlier : String)
  | twoWildcards
  | invalidName
  | restNotLast
  deriving DecidableEq, Repr

def TableFlaw.message : TableFlaw → String
  | .clash earlier =>
    "Insertion failed due to conflict with previously registered route: " ++ earlier
  | .twoWildcards => "Only one parameter is allowed per path segment"
  | .invalidName => "Parameters must be registered with a valid name"
  | .restNotLast => "Catch-all parameters are only allowed at the end of a route"

namespace Template

/-- A wildcard as it reads when parameters are named by letters, in octets. -/
def plainOctets (index : Nat) : TemplateToken → Template
  | .literal c => [.literal c]
  | .param _ => [.literal '{', .literal (Char.ofNat (97 + index)), .literal '}']
  | .rest name => octets ((TemplateToken.rest name).text.map .literal)

/-- How a template is named that clashes at a wildcard; `seen` is the way to the wildcard, last token
first.  If the way ends in text that reads like the wildcard, it is taken for the wildcard, and the
names move on to those that are left. -/
def clashText (seen : Template) (earlier : Template) : String :=
  let index := seen.wildcards.length
  match earlier.wildcards[index]? with
  | none => earlier.text
  | some token =>
    if (plainOctets index token).reverse.isPrefixOf seen then
      ((earlier.eraseWildcard index).rename earlier.paramNames).text
    else earlier.text

/-- The first flaw of a template next to the branches that have gone the same way. -/
def flawWithin (seen : Template) : Template → Branches Template → Option TableFlaw
  | [], branches => branches.ended?.map fun earlier => .clash earlier.text
  | .literal c :: rest, branches =>
    flawWithin (.literal c :: seen) rest (branches.afterLiteral c)
  | .param name :: rest, branches =>
    match branches.rest? with
    | some earlier => some (.clash (clashText seen earlier))
    | none =>
      if hasWildcardAhead rest then some .twoWildcards
      else flawWithin (.param name :: seen) rest branches.afterParam
  | .rest name :: rest, branches =>
    match branches.wildcard? with
    | some earlier =>
      if rest.isEmpty ∧ earlier.getLast? = some (.rest name) ∧ branches.rest?.isSome then
        some (.clash earlier.text)
      else some (.clash (clashText seen earlier))
    | none => if rest.isEmpty then none else some .restNotLast

end Template

structure TableRow (α : Type) where
  template : Template
  entry : α

structure RouteTable (α : Type) where
  rows : List (TableRow α)

namespace RouteTable

variable {α : Type}

def empty : RouteTable α := ⟨[]⟩

/-- The templates, which are compared octet by octet. -/
def templates (table : RouteTable α) : Branches Template :=
  table.rows.map fun row => (row.template.octets, row.template)

def insert? (table : RouteTable α) (template : String) (entry : α) :
    Except TableFlaw (RouteTable α) :=
  match Template.parse? template with
  | none => .error .invalidName
  | some template =>
    match Template.flawWithin [] template.octets table.templates with
    | some flaw => .error flaw
    | none => .ok ⟨table.rows ++ [⟨template, entry⟩]⟩

/-- The entry of the template that a path selects, and what the template captures of the path. -/
def find? (table : RouteTable α) (path : String) : Option (α × List (String × String)) :=
  let branches : Branches (TableRow α) := table.rows.map fun row => (row.template, row)
  (branches.find? path.toList).map fun (row, values) =>
    (row.entry, row.template.names.zip (values.map String.ofList))

end RouteTable

end Turnpike
