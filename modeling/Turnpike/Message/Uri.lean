import Turnpike.Bytes.Utf8

/-!
Request targets: origin form, `*`, authority form and absolute form.  A fragment is dropped.
-/

namespace Turnpike

structure Uri where
  scheme : Option Bytes
  authority : Option Bytes
  path : Bytes
  query : Option Bytes
  deriving DecidableEq, Repr

namespace Uri

def maxLength : Nat := 65534

def maxSchemeLength : Nat := 64

def maxColons : Nat := 8

/-! Character classes. -/

def isSchemeByte (b : Byte) : Bool := b.isAlphanumeric || [43, 45, 46, 58, 126].contains b

def isAuthorityByte (b : Byte) : Bool :=
  b.isAlphanumeric ||
    [33, 36, 38, 39, 40, 41, 42, 43, 44, 45, 46, 58, 59, 61, 64, 91, 93, 95, 126].contains b

def endsAuthority (b : Byte) : Bool := b == 47 || b == 63 || b == 35

def isPathByte (b : Byte) : Bool :=
  b == 33 || b == 34 || (36 ≤ b && b ≤ 59) || b == 61 || (64 ≤ b && b ≤ 95) || (97 ≤ b && b ≤ 123) ||
    124 ≤ b

def isQueryByte (b : Byte) : Bool :=
  b == 33 || (36 ≤ b && b ≤ 59) || b == 61 || 63 ≤ b

/-! Path and query. -/

structure PathAndQuery where
  path : Bytes
  query : Option Bytes

def isFragmentMark (b : Byte) : Bool := b == 35

/-- Octets above ASCII have to make up valid UTF-8. -/
def ofUtf8? (path : Bytes) (query : Option Bytes) : Option PathAndQuery :=
  if Utf8.isValid path && (query.all Utf8.isValid) then some ⟨path, query⟩ else none

def pathAndQuery? (bytes : Bytes) : Option PathAndQuery :=
  let path := bytes.takeWhile isPathByte
  match bytes.drop path.length with
  | [] => ofUtf8? path none
  | b :: rest =>
    if b == 35 then ofUtf8? path none
    else if b == 63 then
      let query := rest.takeWhile isQueryByte
      match rest.drop query.length with
      | [] => ofUtf8? path (some query)
      | c :: _ => if c == 35 then ofUtf8? path (some query) else none
    else none

/-! Authority. -/

/-- What has been seen since the start of the host or of the user information. -/
structure AuthorityScan where
  colons : Nat
  opened : Bool
  closed : Bool
  percent : Bool
  afterAt : Bool

def AuthorityScan.start : AuthorityScan := ⟨0, false, false, false, false⟩

def AuthorityScan.step? (scan : AuthorityScan) (b : Byte) : Option AuthorityScan :=
  if b == 58 then
    if scan.colons ≥ maxColons then none
    else some { scan with colons := scan.colons + 1, afterAt := false }
  else if b == 91 then
    if scan.percent || scan.opened then none else some { scan with opened := true, afterAt := false }
  else if b == 93 then
    if !scan.opened || scan.closed then none
    else some { scan with closed := true, colons := 0, percent := false, afterAt := false }
  else if b == 64 then some { scan with colons := 0, percent := false, afterAt := true }
  else if b == 37 then some { scan with percent := true, afterAt := false }
  else if isAuthorityByte b then some { scan with afterAt := false }
  else none

def AuthorityScan.accepts (scan : AuthorityScan) : Bool :=
  scan.opened == scan.closed && scan.colons ≤ 1 && !scan.afterAt && !scan.percent

def scanAuthority (scan : AuthorityScan) : Bytes → Option AuthorityScan
  | [] => some scan
  | b :: rest =>
    match scan.step? b with
    | none => none
    | some next => scanAuthority next rest

/-- The octets up to the first slash, question mark or number sign, if they name a host. -/
def authority? (bytes : Bytes) : Option Bytes :=
  let name := bytes.takeWhile fun b => !endsAuthority b
  match scanAuthority .start name with
  | none => none
  | some scan => if scan.accepts then some name else none

/-! Scheme. -/

inductive SchemeFront where
  | none
  | tooLong
  | scheme (name rest : Bytes)

def schemeFront (bytes : Bytes) : SchemeFront :=
  if Bytes.equalsIgnoringCase (bytes.take 7) (Bytes.ofText "http://") then
    .scheme (Bytes.ofText "http") (bytes.drop 7)
  else if Bytes.equalsIgnoringCase (bytes.take 8) (Bytes.ofText "https://") then
    .scheme (Bytes.ofText "https") (bytes.drop 8)
  else if bytes.length ≤ 3 then .none
  else
    let name := bytes.takeWhile fun b => isSchemeByte b && b != 58
    let rest := bytes.drop name.length
    if (Bytes.ofText "://").isPrefixOf rest then
      if name.length > maxSchemeLength then .tooLong else .scheme name (rest.drop 3)
    else .none

/-! The whole target. -/

def ofAuthority? (bytes : Bytes) : Option Uri := do
  let name ← authority? bytes
  if name.length = bytes.length then some ⟨none, some name, [], none⟩ else none

def slash : Bytes := [47]

def ofBytes? (bytes : Bytes) : Option Uri :=
  if bytes.length > maxLength then none
  else match bytes with
    | [] => none
    | [42] => some ⟨none, none, [42], none⟩
    | 47 :: _ => do
      let parts ← pathAndQuery? bytes
      some ⟨none, none, if parts.path.isEmpty then slash else parts.path, parts.query⟩
    | [_] => ofAuthority? bytes
    | _ =>
      match schemeFront bytes with
      | .tooLong => none
      | .none => ofAuthority? bytes
      | .scheme scheme rest => do
        let name ← authority? rest
        if name.isEmpty then none
        else
          let parts ← pathAndQuery? (rest.drop name.length)
          some ⟨some scheme, some name, if parts.path.isEmpty then slash else parts.path, parts.query⟩

/-- The path as text, which `ofBytes?` has made sure it is. -/
def pathText (uri : Uri) : String := Utf8.readLossy uri.path

def queryText (uri : Uri) : Option String := uri.query.map Utf8.readLossy

end Uri

end Turnpike
