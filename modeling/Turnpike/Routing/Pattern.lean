import Turnpike.Routing.PathParams
import Turnpike.Text.Number

/-!
Route patterns.  A parameter stands in angle brackets, with its kind behind a colon: one segment
(`<id>`, `<id:str>`, `<id:string>`), one segment that is a number (`<id:int>`), or all that is left
of the path (`<rest:path>`, at the end only).  A pattern is turned into a template, whose
parameters stand in braces, and a list of those that have to be numbers.
-/

namespace Turnpike

inductive ParamKind where
  | segment
  | number
  | remainder
  deriving DecidableEq, Repr

inductive PatternFlaw where
  | notRooted
  | unmatchedClose
  | unclosedOpen
  | unknownKind (kind : String)
  | invalidName (name : String)
  | remainderNotLast
  deriving DecidableEq, Repr

def PatternFlaw.message : PatternFlaw → String
  | .notRooted => "must start with '/'"
  | .unmatchedClose => "unmatched '>'"
  | .unclosedOpen => "unclosed '<'"
  | .unknownKind kind => "unknown parameter type '" ++ kind ++ "'"
  | .invalidName name => "invalid parameter name '" ++ name ++ "'"
  | .remainderNotLast => "a path parameter must come last"

structure PatternParam where
  name : List Char
  kind : ParamKind
  deriving DecidableEq, Repr

namespace PatternParam

def kind? (kind : List Char) : Option ParamKind :=
  if kind = "str".toList ∨ kind = "string".toList then some .segment
  else if kind = "int".toList then some .number
  else if kind = "path".toList then some .remainder
  else none

def isNameChar (c : Char) : Bool := c.isAlphanum || c == '_'

def isName (name : List Char) : Bool := !name.isEmpty && name.all isNameChar

def ofName (name : List Char) (kind : ParamKind) : Except PatternFlaw PatternParam :=
  if isName name then .ok ⟨name, kind⟩ else .error (.invalidName (String.ofList name))

def parse (inside : List Char) : Except PatternFlaw PatternParam :=
  let name := inside.takeWhile (· != ':')
  match inside.drop name.length with
  | [] => ofName name .segment
  | _ :: kind =>
    match kind? kind with
    | some kind => ofName name kind
    | none => .error (.unknownKind (String.ofList kind))

def template (param : PatternParam) : List Char :=
  match param.kind with
  | .remainder => '{' :: '*' :: (param.name ++ ['}'])
  | _ => '{' :: (param.name ++ ['}'])

end PatternParam

inductive PatternPiece where
  | literal (c : Char)
  | slot (param : PatternParam)
  deriving DecidableEq, Repr

namespace PatternPiece

def template : PatternPiece → List Char
  | .literal c => [c]
  | .slot param => param.template

def numberName? : PatternPiece → Option String
  | .slot ⟨name, .number⟩ => some (String.ofList name)
  | _ => none

/-- The pieces of a text; `seen` is what stands since an opening bracket, last character first. -/
def read : Option (List Char) → List Char → Except PatternFlaw (List PatternPiece)
  | none, [] => .ok []
  | some _, [] => .error .unclosedOpen
  | none, c :: rest =>
    if c = '>' then .error .unmatchedClose
    else if c = '<' then read (some []) rest
    else (read none rest).map (.literal c :: ·)
  | some seen, c :: rest =>
    if c = '>' then
      match PatternParam.parse seen.reverse with
      | .error flaw => .error flaw
      | .ok param =>
        if param.kind = .remainder ∧ rest ≠ [] then .error .remainderNotLast
        else (read none rest).map (.slot param :: ·)
    else read (some (c :: seen)) rest

end PatternPiece

/-- A pattern in the form the table takes. -/
structure RoutePattern where
  template : String
  /-- The names of the parameters that have to be numbers, in order. -/
  numbers : List String
  deriving DecidableEq, Repr

namespace RoutePattern

def ofPieces (pieces : List PatternPiece) : RoutePattern :=
  ⟨String.ofList (pieces.flatMap PatternPiece.template), pieces.filterMap PatternPiece.numberName?⟩

/-- Whether the first value of every such name is a signed number of 64 bits. -/
def accepts (pattern : RoutePattern) (params : PathParams) : Bool :=
  pattern.numbers.all fun name =>
    (params.get? name).any fun value => (Number.signed? (Bytes.ofText value)).isSome

def parse (pattern : String) : Except PatternFlaw RoutePattern :=
  if pattern.toList.head? = some '/' then (PatternPiece.read none pattern.toList).map ofPieces
  else .error .notRooted

end RoutePattern

end Turnpike
