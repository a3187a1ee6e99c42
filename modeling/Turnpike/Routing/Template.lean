/-!
Path templates: literal text, parameters `{name}` that capture a part of one segment, and `{*name}`
for all that is left of a path.  A brace written twice stands for itself.
-/

namespace Turnpike

inductive TemplateToken where
  | literal (c : Char)
  | param (name : String)
  | rest (name : String)
  deriving DecidableEq, Repr

abbrev Template := List TemplateToken

namespace TemplateToken

def isLiteral : TemplateToken → Bool
  | .literal _ => true
  | _ => false

def isRest : TemplateToken → Bool
  | .rest _ => true
  | _ => false

def name? : TemplateToken → Option String
  | .literal _ => none
  | .param name | .rest name => some name

/-- Literal text octet by octet. -/
def octets : TemplateToken → List TemplateToken
  | .literal c => (String.utf8EncodeChar c).map fun b => .literal (Char.ofNat b.toNat)
  | token => [token]

/-- The token as it reads, a literal brace written once. -/
def text : TemplateToken → List Char
  | .literal c => [c]
  | .param name => '{' :: (name.toList ++ ['}'])
  | .rest name => '{' :: '*' :: (name.toList ++ ['}'])

end TemplateToken

namespace Template

/-- A character of a template, and whether it was written twice to stand for itself. -/
structure Glyph where
  char : Char
  isEscaped : Bool
  deriving DecidableEq, Repr

def unescape : List Char → List Glyph
  | '{' :: '{' :: rest => ⟨'{', true⟩ :: unescape rest
  | '}' :: '}' :: rest => ⟨'}', true⟩ :: unescape rest
  | c :: rest => ⟨c, false⟩ :: unescape rest
  | [] => []

def isOpening (glyph : Glyph) : Bool := glyph.char == '{' && !glyph.isEscaped

def isClosing (glyph : Glyph) : Bool := glyph.char == '}' && !glyph.isEscaped

/-- Whether a name can go on with a character; what stands first is not looked at. -/
def isNameTail (c : Char) : Bool := c != '*' && c != '/'

def wildcard? : List Char → Option TemplateToken
  | [] | ['*'] => none
  | '*' :: name => some (.rest (String.ofList name))
  | name => some (.param (String.ofList name))

/-- The mark of an escaped brace right behind a parameter slips to the right, by as many places as
the name of the parameter has octets after the first. -/
def slip (token : TemplateToken) (glyphs : List Glyph) : List Glyph :=
  match token, glyphs with
  | .param name, ⟨c, true⟩ :: rest =>
    (⟨c, false⟩ :: rest).modify (name.utf8ByteSize - 1) fun glyph => { glyph with isEscaped := true }
  | _, glyphs => glyphs

/-- The tokens of a text of at most so many glyphs; `seen` is what stands since an opening brace,
last character first. -/
def readWithin : Nat → Option (List Char) → List Glyph → Option Template
  | _, none, [] => some []
  | _, some _, [] => none
  | 0, _, _ :: _ => none
  | fuel + 1, none, glyph :: rest =>
    if isClosing glyph then none
    else if isOpening glyph then readWithin fuel (some []) rest
    else (readWithin fuel none rest).map (.literal glyph.char :: ·)
  | fuel + 1, some seen, glyph :: rest =>
    if isClosing glyph then do
      let token ← wildcard? seen.reverse
      (readWithin fuel none (slip token rest)).map (token :: ·)
    else if seen.isEmpty then
      if glyph.char = '}' then none else readWithin fuel (some [glyph.char]) rest
    else if isNameTail glyph.char then readWithin fuel (some (glyph.char :: seen)) rest
    else none

def read (glyphs : List Glyph) : Option Template := readWithin glyphs.length none glyphs

/-- `none` if braces do not match or enclose no name. -/
def parse? (text : String) : Option Template := read (unescape text.toList)

def names (template : Template) : List String := template.filterMap TemplateToken.name?

/-- The names of the parameters, without that of the rest of a path. -/
def paramNames (template : Template) : List String :=
  template.filterMap fun token => match token with
    | .param name => some name
    | _ => none

def wildcards (template : Template) : Template := template.filter fun token => !token.isLiteral

/-- Leaves the wildcard with that many wildcards in front of it out. -/
def eraseWildcard : Nat → Template → Template
  | _, [] => []
  | index, .literal c :: rest => .literal c :: eraseWildcard index rest
  | 0, _ :: rest => rest
  | index + 1, token :: rest => token :: eraseWildcard index rest

/-- Turns wildcards into parameters of these names, as far as there are names. -/
def rename : List String → Template → Template
  | _, [] => []
  | names, .literal c :: rest => .literal c :: rename names rest
  | [], token :: rest => token :: rest
  | name :: names, _ :: rest => .param name :: rename names rest

def octets (template : Template) : Template := template.flatMap TemplateToken.octets

def text (template : Template) : String := String.ofList (template.flatMap TemplateToken.text)

/-- The characters in front of the first wildcard, up to the first slash. -/
def leadingText : Template → List Char
  | .literal c :: rest => if c = '/' then [c] else c :: leadingText rest
  | _ => []

def hasWildcardAhead : Template → Bool
  | [] => false
  | .literal c :: rest => c != '/' && hasWildcardAhead rest
  | _ :: _ => true

end Template

end Turnpike
