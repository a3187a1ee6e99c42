import Mathlib.Data.List.TakeWhile
import Turnpike.Proofs.Routing.Built

/-!
How patterns are written.  Text without angle brackets and placeholders stand in turn, and the last of
all may be a placeholder for what is left of a path.  Exactly what is written so is read: text stays as
it stands, and every placeholder gives way to a wildcard of its name.
-/

namespace Turnpike

/-- One or more letters, digits and underscores, as ASCII has them. -/
abbrev ParamName := { name : List Char // name ≠ [] ∧ ∀ c ∈ name, c.isAlphanum = true ∨ c = '_' }

def IsPlain (text : List Char) : Prop := '<' ∉ text ∧ '>' ∉ text

/-- Text in which no angle bracket stands. -/
abbrev PlainText := { text : List Char // IsPlain text }

/-- The ways to write a placeholder for one segment. -/
inductive PlaceholderForm where
  | bare
  | str
  | string
  | int
  deriving DecidableEq, Repr

/-- What stands behind the name. -/
def PlaceholderForm.suffix : PlaceholderForm → List Char
  | .bare => []
  | .str => ":str".toList
  | .string => ":string".toList
  | .int => ":int".toList

structure Placeholder where
  name : ParamName
  form : PlaceholderForm

namespace Placeholder

def text (placeholder : Placeholder) : List Char :=
  '<' :: (placeholder.name.val ++ (placeholder.form.suffix ++ ['>']))

def template (placeholder : Placeholder) : List Char := '{' :: (placeholder.name.val ++ ['}'])

def number? (placeholder : Placeholder) : Option String :=
  if placeholder.form = .int then some (String.ofList placeholder.name.val) else none

end Placeholder

/-- A pattern by its parts: text, placeholders each with the text behind it, and at the very end there
may be the name of what is left of a path. -/
structure WrittenPattern where
  lead : PlainText
  slots : List (Placeholder × PlainText)
  remainder : Option ParamName

namespace WrittenPattern

/-- The pattern as it is written. -/
def text (written : WrittenPattern) : List Char :=
  written.lead.val ++ ((written.slots.flatMap fun slot => slot.1.text ++ slot.2.val) ++
    written.remainder.elim [] fun name => '<' :: (name.val ++ ":path>".toList))

def template (written : WrittenPattern) : List Char :=
  written.lead.val ++ ((written.slots.flatMap fun slot => slot.1.template ++ slot.2.val) ++
    written.remainder.elim [] fun name => '{' :: '*' :: (name.val ++ ['}']))

def numbers (written : WrittenPattern) : List String :=
  written.slots.filterMap fun slot => slot.1.number?

end WrittenPattern

theorem bne_of_not_mem {text : List Char} {c : Char} (h : c ∉ text) :
    ∀ other ∈ text, (other != c) = true :=
  fun _ hother => bne_iff_ne.mpr (ne_of_mem_of_not_mem hother h)

/-! One placeholder. -/

/-- What may stand behind the name of a parameter. -/
def ParamKind.suffixes : ParamKind → List (List Char)
  | .segment => [[], ":str".toList, ":string".toList]
  | .number => [":int".toList]
  | .remainder => [":path".toList]

namespace PatternParam

variable {name inside written : List Char} {kind : ParamKind} {param : PatternParam}

theorem isName_iff : isName name = true ↔
    name ≠ [] ∧ ∀ c ∈ name, c.isAlphanum = true ∨ c = '_' := by
  simp [isName, isNameChar]

theorem not_mem_of_isName (h : isName name = true) {c : Char} (hletter : c.isAlphanum = false)
    (hunderscore : c ≠ '_') : c ∉ name := by
  intro hmem
  rcases (isName_iff.mp h).2 c hmem with hc | hc
  · rw [hletter] at hc
    contradiction
  · exact hunderscore hc

theorem ofName_eq_ok_iff :
    ofName name kind = .ok param ↔ isName name = true ∧ param = ⟨name, kind⟩ := by
  unfold ofName
  split
  · next hname => simp [hname, eq_comm]
  · next hname => simp [hname]

theorem kind?_eq_some_iff : kind? written = some kind ↔ ':' :: written ∈ kind.suffixes := by
  unfold kind?
  split
  · next h => rcases h with rfl | rfl <;> cases kind <;> decide
  · split
    · next h => subst h; cases kind <;> decide
    · split
      · next h => subst h; cases kind <;> decide
      · cases kind <;> simp_all [ParamKind.suffixes]

theorem parse_bare (h : ':' ∉ name) : parse name = ofName name .segment := by
  rw [parse, List.takeWhile_eq_self_iff.mpr (bne_of_not_mem h)]
  simp

theorem parse_kind (h : ':' ∉ name) : parse (name ++ ':' :: written) =
    match kind? written with
    | some kind => ofName name kind
    | none => .error (.unknownKind (String.ofList written)) := by
  rw [parse, List.takeWhile_append_of_pos (bne_of_not_mem h)]
  cases hkind : kind? written <;> simp [hkind]

theorem suffix_cases : ∀ suffix ∈ kind.suffixes,
    (suffix = [] ∧ kind = .segment) ∨ suffix.head? = some ':' := by
  cases kind <;> decide

/-- A name, and one of the ways to write the kind behind it. -/
theorem parse_eq_ok_iff : parse inside = .ok param ↔
    isName param.name = true ∧ ∃ suffix ∈ param.kind.suffixes, inside = param.name ++ suffix := by
  constructor
  · intro h
    by_cases hcolon : ':' ∈ inside
    · obtain ⟨name, written, rfl, hname⟩ := List.eq_append_cons_of_mem hcolon
      rw [parse_kind hname] at h
      split at h
      · next kind hkind =>
        obtain ⟨hname, rfl⟩ := ofName_eq_ok_iff.mp h
        exact ⟨hname, _, kind?_eq_some_iff.mp hkind, rfl⟩
      · contradiction
    · rw [parse_bare hcolon] at h
      obtain ⟨hname, rfl⟩ := ofName_eq_ok_iff.mp h
      exact ⟨hname, [], List.mem_cons_self .., (List.append_nil _).symm⟩
  · rintro ⟨hname, suffix, hsuffix, rfl⟩
    have hcolon : ':' ∉ param.name := not_mem_of_isName hname (by decide) (by decide)
    rcases suffix_cases suffix hsuffix with ⟨rfl, hkind⟩ | hhead
    · rw [List.append_nil, parse_bare hcolon]
      exact ofName_eq_ok_iff.mpr ⟨hname, by rw [← hkind]⟩
    · obtain ⟨written, rfl⟩ := List.head?_eq_some_iff.mp hhead
      rw [parse_kind hcolon, kind?_eq_some_iff.mpr hsuffix]
      exact ofName_eq_ok_iff.mpr ⟨hname, rfl⟩

end PatternParam

/-! Brackets. -/

theorem exists_bracket (text : List Char) : IsPlain text ∨ ∃ front bracket behind,
    text = front ++ bracket :: behind ∧ IsPlain front ∧ (bracket = '<' ∨ bracket = '>') := by
  induction text with
  | nil => exact .inl ⟨List.not_mem_nil, List.not_mem_nil⟩
  | cons c text ih =>
      by_cases hc : c = '<' ∨ c = '>'
      · exact .inr ⟨[], c, text, rfl, ⟨List.not_mem_nil, List.not_mem_nil⟩, hc⟩
      · rw [not_or] at hc
        have hplain : ∀ front, IsPlain front → IsPlain (c :: front) := fun front h =>
          ⟨List.not_mem_cons_of_ne_of_not_mem (Ne.symm hc.1) h.1,
            List.not_mem_cons_of_ne_of_not_mem (Ne.symm hc.2) h.2⟩
        rcases ih with htext | ⟨front, bracket, behind, rfl, hfront, hbracket⟩
        · exact .inl (hplain text htext)
        · exact .inr ⟨c :: front, bracket, behind, rfl, hplain front hfront, hbracket⟩

/-- A text by its first bracket: there is none, or it closes nothing, or it is not closed, or it opens
a placeholder. -/
theorem bracket_induction {motive : List Char → Prop}
    (plain : ∀ text, IsPlain text → motive text)
    (unmatched : ∀ front behind, IsPlain front → motive (front ++ '>' :: behind))
    (unclosed : ∀ front inside, IsPlain front → '>' ∉ inside → motive (front ++ '<' :: inside))
    (placeholder : ∀ front inside rest, IsPlain front → '>' ∉ inside → motive rest →
      motive (front ++ '<' :: (inside ++ '>' :: rest))) (text : List Char) : motive text := by
  induction hlength : text.length using Nat.strongRecOn generalizing text with
  | ind length ih =>
      subst hlength
      rcases exists_bracket text with htext | ⟨front, bracket, behind, rfl, hfront, rfl | rfl⟩
      · exact plain text htext
      · by_cases hclose : '>' ∈ behind
        · obtain ⟨inside, rest, rfl, hinside⟩ := List.eq_append_cons_of_mem hclose
          refine placeholder front inside rest hfront hinside (ih rest.length ?_ rest rfl)
          simp only [List.length_append, List.length_cons]
          omega
        · exact unclosed front behind hfront hclose
      · exact unmatched front behind hfront

namespace PatternPiece

variable {text front inside seen rest : List Char} {param : PatternParam} {c : Char}

theorem read_nil : read none [] = .ok [] := rfl

theorem read_close (rest : List Char) : read none ('>' :: rest) = .error .unmatchedClose := rfl

theorem read_open (rest : List Char) : read none ('<' :: rest) = read (some []) rest := rfl

theorem read_literal (hclose : c ≠ '>') (hopen : c ≠ '<') (rest : List Char) :
    read none (c :: rest) = (read none rest).map (.literal c :: ·) :=
  (if_neg hclose).trans (if_neg hopen)

theorem readInside_nil : read (some seen) [] = .error .unclosedOpen := rfl

theorem readInside_cons (hclose : c ≠ '>') (rest : List Char) :
    read (some seen) (c :: rest) = read (some (c :: seen)) rest :=
  if_neg hclose

theorem read_append (h : IsPlain front) (rest : List Char) :
    read none (front ++ rest) = (read none rest).map (front.map .literal ++ ·) := by
  induction front with
  | nil =>
      rw [List.nil_append]
      cases read none rest <;> rfl
  | cons c front ih =>
      obtain ⟨hopen, hclose⟩ := h
      rw [List.mem_cons, not_or] at hopen hclose
      rw [List.cons_append, read_literal (Ne.symm hclose.1) (Ne.symm hopen.1),
        ih ⟨hopen.2, hclose.2⟩]
      cases read none rest <;> rfl

theorem read_plain (h : IsPlain text) : read none text = .ok (text.map .literal) := by
  have hread := read_append h []
  rw [List.append_nil, read_nil] at hread
  rw [hread, Except.map, List.append_nil]

theorem read_unmatched (h : IsPlain front) (behind : List Char) :
    read none (front ++ '>' :: behind) = .error .unmatchedClose := by
  rw [read_append h, read_close]
  rfl

theorem readInside_unclosed (h : '>' ∉ inside) :
    read (some seen) inside = .error .unclosedOpen := by
  induction inside generalizing seen with
  | nil => exact readInside_nil
  | cons c inside ih =>
      rw [List.mem_cons, not_or] at h
      rw [readInside_cons (Ne.symm h.1), ih h.2]

theorem read_unclosed (hfront : IsPlain front) (hinside : '>' ∉ inside) :
    read none (front ++ '<' :: inside) = .error .unclosedOpen := by
  rw [read_append hfront, read_open, readInside_unclosed hinside]
  rfl

/-- What comes of a placeholder and of what stands behind it. -/
def readBehind (rest : List Char) (param : PatternParam) : Except PatternFlaw (List PatternPiece) :=
  if param.kind = .remainder ∧ rest ≠ [] then .error .remainderNotLast
  else (read none rest).map (.slot param :: ·)

theorem readInside_close (rest : List Char) :
    read (some seen) ('>' :: rest) = (PatternParam.parse seen.reverse).bind (readBehind rest) := by
  rw [read, if_pos rfl]
  cases PatternParam.parse seen.reverse <;> rfl

theorem readInside_closed (h : '>' ∉ inside) : read (some seen) (inside ++ '>' :: rest) =
    (PatternParam.parse (seen.reverse ++ inside)).bind (readBehind rest) := by
  induction inside generalizing seen with
  | nil =>
      rw [List.nil_append, List.append_nil, readInside_close]
  | cons c inside ih =>
      rw [List.mem_cons, not_or] at h
      rw [List.cons_append, readInside_cons (Ne.symm h.1), ih h.2, List.reverse_cons,
        List.append_assoc, List.singleton_append]

theorem read_placeholder (hfront : IsPlain front) (hinside : '>' ∉ inside) (rest : List Char) :
    read none (front ++ '<' :: (inside ++ '>' :: rest)) =
      ((PatternParam.parse inside).bind (readBehind rest)).map (front.map .literal ++ ·) := by
  rw [read_append hfront, read_open, readInside_closed hinside]
  rfl

end PatternPiece

/-! What is written is read, and nothing else. -/

def PlaceholderForm.kind : PlaceholderForm → ParamKind
  | .int => .number
  | _ => .segment

theorem PlaceholderForm.suffix_mem (form : PlaceholderForm) : form.suffix ∈ form.kind.suffixes := by
  cases form <;> decide

theorem PlaceholderForm.kind_ne_remainder (form : PlaceholderForm) : form.kind ≠ .remainder := by
  cases form <;> decide

def Placeholder.param (placeholder : Placeholder) : PatternParam :=
  ⟨placeholder.name.val, placeholder.form.kind⟩

theorem Placeholder.exists_param {param : PatternParam} {inside : List Char}
    (hname : PatternParam.isName param.name = true) (hkind : param.kind ≠ .remainder)
    {suffix : List Char} (hsuffix : suffix ∈ param.kind.suffixes)
    (hinside : inside = param.name ++ suffix) :
    ∃ placeholder : Placeholder, placeholder.param = param ∧
      placeholder.text = '<' :: (inside ++ ['>']) := by
  obtain ⟨name, kind⟩ := param
  have hform : ∃ form : PlaceholderForm, form.kind = kind ∧ form.suffix = suffix := by
    cases kind with
    | remainder => contradiction
    | number => exact ⟨.int, rfl, (List.mem_singleton.mp hsuffix).symm⟩
    | segment =>
        simp only [ParamKind.suffixes, List.mem_cons, List.not_mem_nil, or_false] at hsuffix
        rcases hsuffix with rfl | rfl | rfl
        · exact ⟨.bare, rfl, rfl⟩
        · exact ⟨.str, rfl, rfl⟩
        · exact ⟨.string, rfl, rfl⟩
  obtain ⟨form, rfl, rfl⟩ := hform
  subst hinside
  exact ⟨⟨⟨name, PatternParam.isName_iff.mp hname⟩, form⟩, rfl, by simp [text]⟩

theorem PatternPiece.flatMap_template_literals (text : List Char) :
    (text.map PatternPiece.literal).flatMap PatternPiece.template = text := by
  simp [List.flatMap_map, PatternPiece.template]

theorem PatternPiece.filterMap_numberName?_literals (text : List Char) :
    (text.map PatternPiece.literal).filterMap PatternPiece.numberName? = [] := by
  simp [List.filterMap_map, Function.comp_def, PatternPiece.numberName?]

namespace WrittenPattern

def pieces (written : WrittenPattern) : List PatternPiece :=
  written.lead.val.map .literal ++
    ((written.slots.flatMap fun slot => .slot slot.1.param :: slot.2.val.map .literal) ++
      written.remainder.elim [] fun name => [.slot ⟨name.val, .remainder⟩])

variable {lead : PlainText} {placeholder : Placeholder} {slot : Placeholder × PlainText}
  {slots : List (Placeholder × PlainText)} {remainder : Option ParamName}

theorem text_cons : text ⟨lead, slot :: slots, remainder⟩ =
    lead.val ++ (slot.1.text ++ text ⟨slot.2, slots, remainder⟩) := by
  simp [text]

theorem pieces_cons : pieces ⟨lead, slot :: slots, remainder⟩ =
    lead.val.map .literal ++ .slot slot.1.param :: pieces ⟨slot.2, slots, remainder⟩ := by
  simp [pieces]

theorem template_cons : template ⟨lead, slot :: slots, remainder⟩ =
    lead.val ++ (slot.1.template ++ template ⟨slot.2, slots, remainder⟩) := by
  simp [template]

theorem not_close_mem (param : PatternParam) (hname : PatternParam.isName param.name = true)
    {suffix : List Char} (hsuffix : suffix ∈ param.kind.suffixes) : '>' ∉ param.name ++ suffix := by
  have hfree : ∀ suffix ∈ param.kind.suffixes, '>' ∉ suffix := by
    cases param.kind <;> decide
  exact List.not_mem_append (PatternParam.not_mem_of_isName hname (by decide) (by decide))
    (hfree suffix hsuffix)

theorem read_text (written : WrittenPattern) :
    PatternPiece.read none written.text = .ok written.pieces := by
  obtain ⟨lead, slots, remainder⟩ := written
  induction slots generalizing lead with
  | nil =>
      cases remainder with
      | none => simpa [text, pieces] using PatternPiece.read_plain lead.property
      | some name =>
          have hname := PatternParam.isName_iff.mpr name.property
          have hparse : PatternParam.parse (name.val ++ ":path".toList) =
              .ok ⟨name.val, .remainder⟩ :=
            PatternParam.parse_eq_ok_iff.mpr ⟨hname, _, List.mem_singleton.mpr rfl, rfl⟩
          have htext : text ⟨lead, [], some name⟩ =
              lead.val ++ '<' :: ((name.val ++ ":path".toList) ++ '>' :: []) := by simp [text]
          have hfree : '>' ∉ name.val ++ ":path".toList :=
            not_close_mem ⟨name.val, .remainder⟩ hname (List.mem_singleton.mpr rfl)
          rw [htext, PatternPiece.read_placeholder lead.property hfree, hparse]
          rfl
  | cons slot slots ih =>
      obtain ⟨placeholder, behind⟩ := slot
      have hname := PatternParam.isName_iff.mpr placeholder.name.property
      have hparse : PatternParam.parse (placeholder.name.val ++ placeholder.form.suffix) =
          .ok placeholder.param :=
        PatternParam.parse_eq_ok_iff.mpr ⟨hname, _, placeholder.form.suffix_mem, rfl⟩
      have hkind : placeholder.param.kind ≠ .remainder := placeholder.form.kind_ne_remainder
      have htext : text ⟨lead, (placeholder, behind) :: slots, remainder⟩ =
          lead.val ++ '<' :: ((placeholder.name.val ++ placeholder.form.suffix) ++
            '>' :: text ⟨behind, slots, remainder⟩) := by
        simp [text_cons, Placeholder.text]
      have hfree : '>' ∉ placeholder.name.val ++ placeholder.form.suffix :=
        not_close_mem placeholder.param hname placeholder.form.suffix_mem
      rw [htext, PatternPiece.read_placeholder lead.property hfree, hparse, pieces_cons,
        Except.bind, PatternPiece.readBehind, if_neg fun h => hkind h.1, ih behind]
      rfl

theorem exists_of_read {text : List Char} {pieces : List PatternPiece}
    (h : PatternPiece.read none text = .ok pieces) :
    ∃ written : WrittenPattern, written.text = text ∧ written.pieces = pieces := by
  induction text using bracket_induction generalizing pieces with
  | plain text htext =>
      rw [PatternPiece.read_plain htext] at h
      obtain rfl := Except.ok.inj h
      exact ⟨⟨⟨text, htext⟩, [], none⟩, by simp [WrittenPattern.text], by simp [WrittenPattern.pieces]⟩
  | unmatched front behind hfront =>
      rw [PatternPiece.read_unmatched hfront] at h
      contradiction
  | unclosed front inside hfront hinside =>
      rw [PatternPiece.read_unclosed hfront hinside] at h
      contradiction
  | placeholder front inside rest hfront hinside ih =>
      rw [PatternPiece.read_placeholder hfront hinside] at h
      obtain ⟨found, hfound, rfl⟩ := Except.exists_of_map h
      cases hparse : PatternParam.parse inside with
      | error flaw =>
          rw [hparse] at hfound
          contradiction
      | ok param =>
          rw [hparse, Except.bind, PatternPiece.readBehind] at hfound
          obtain ⟨hname, suffix, hsuffix, hwritten⟩ := PatternParam.parse_eq_ok_iff.mp hparse
          split at hfound
          · contradiction
          · next hlast =>
            obtain ⟨later, hlater, rfl⟩ := Except.exists_of_map hfound
            by_cases hkind : param.kind = .remainder
            · obtain rfl : rest = [] := by_contra fun hne => hlast ⟨hkind, hne⟩
              obtain ⟨name, kind⟩ := param
              obtain rfl : kind = .remainder := hkind
              obtain rfl := List.mem_singleton.mp hsuffix
              subst hwritten
              obtain rfl := Except.ok.inj hlater
              exact ⟨⟨⟨front, hfront⟩, [], some ⟨name, PatternParam.isName_iff.mp hname⟩⟩,
                by simp [WrittenPattern.text], by simp [WrittenPattern.pieces]⟩
            · obtain ⟨placeholder, rfl, htext⟩ :=
                Placeholder.exists_param hname hkind hsuffix hwritten
              obtain ⟨⟨lead, slots, remainder⟩, rfl, rfl⟩ := ih hlater
              refine ⟨⟨⟨front, hfront⟩, (placeholder, lead) :: slots, remainder⟩, ?_, pieces_cons⟩
              simp [text_cons, htext]

theorem template_pieces (written : WrittenPattern) :
    written.pieces.flatMap PatternPiece.template = written.template := by
  obtain ⟨lead, slots, remainder⟩ := written
  induction slots generalizing lead with
  | nil =>
      cases remainder <;>
        simp [pieces, template, PatternPiece.flatMap_template_literals, PatternPiece.template,
          PatternParam.template]
  | cons slot slots ih =>
      have hslot : slot.1.param.template = slot.1.template := by
        obtain ⟨⟨name, form⟩, behind⟩ := slot
        cases form <;> rfl
      rw [pieces_cons, template_cons, List.flatMap_append, PatternPiece.flatMap_template_literals,
        List.flatMap_cons, ih, PatternPiece.template, hslot]

theorem numbers_pieces (written : WrittenPattern) :
    written.pieces.filterMap PatternPiece.numberName? = written.numbers := by
  obtain ⟨lead, slots, remainder⟩ := written
  induction slots generalizing lead with
  | nil =>
      cases remainder <;>
        simp [pieces, numbers, PatternPiece.numberName?]
  | cons slot slots ih =>
      have hslot : PatternPiece.numberName? (.slot slot.1.param) = slot.1.number? := by
        obtain ⟨⟨name, form⟩, behind⟩ := slot
        cases form <;> rfl
      rw [pieces_cons, List.filterMap_append, PatternPiece.filterMap_numberName?_literals,
        List.nil_append, List.filterMap_cons, hslot, ih, numbers, numbers, List.filterMap_cons]

end WrittenPattern

/-! Bracket by bracket. -/

/-- How far the translation of a pattern has come. -/
structure PatternScan where
  template : List Char
  numbers : List String
  rest : List Char

namespace PatternScan

def isText (c : Char) : Bool := c != '<' && c != '>'

/-- One turn: either a placeholder is behind, or this was the last turn. -/
def step (scan : PatternScan) : PatternScan ⊕ Except PatternFlaw RoutePattern :=
  match scan.rest.dropWhile isText with
  | [] => .inr (.ok ⟨String.ofList (scan.template ++ scan.rest), scan.numbers⟩)
  | bracket :: behind =>
    if bracket = '>' then .inr (.error .unmatchedClose)
    else
      match behind.dropWhile (· != '>') with
      | [] => .inr (.error .unclosedOpen)
      | _ :: rest =>
        match PatternParam.parse (behind.takeWhile (· != '>')) with
        | .error flaw => .inr (.error flaw)
        | .ok param =>
          if param.kind = .remainder ∧ rest ≠ [] then .inr (.error .remainderNotLast)
          else .inl ⟨scan.template ++ scan.rest.takeWhile isText ++ param.template,
            scan.numbers ++ (PatternPiece.numberName? (.slot param)).toList, rest⟩

/-- What has come of it after so many turns, if it has ended by then. -/
def run : Nat → PatternScan → Option (Except PatternFlaw RoutePattern)
  | 0, _ => none
  | turns + 1, scan =>
    match scan.step with
    | .inl next => run turns next
    | .inr result => some result

def parseWithin (turns : Nat) (text : List Char) : Option (Except PatternFlaw RoutePattern) :=
  if text.head? = some '/' then run turns ⟨[], [], text⟩ else some (.error .notRooted)

/-- The pattern of what is translated and of the pieces that are still to come. -/
def completed (template : List Char) (numbers : List String) (pieces : List PatternPiece) :
    RoutePattern :=
  ⟨String.ofList (template ++ pieces.flatMap PatternPiece.template),
    numbers ++ pieces.filterMap PatternPiece.numberName?⟩

variable {scan : PatternScan} {front behind inside rest : List Char}

theorem completed_placeholder (template : List Char) (numbers : List String) (front : List Char)
    (param : PatternParam) (later : List PatternPiece) :
    completed (template ++ front ++ param.template)
        (numbers ++ (PatternPiece.numberName? (.slot param)).toList) later =
      completed template numbers (front.map .literal ++ .slot param :: later) := by
  have hnumbers : (PatternPiece.slot param :: later).filterMap PatternPiece.numberName? =
      (PatternPiece.numberName? (.slot param)).toList ++
        later.filterMap PatternPiece.numberName? := by
    cases hname : PatternPiece.numberName? (.slot param) <;> simp [hname]
  rw [completed, completed, List.flatMap_append, PatternPiece.flatMap_template_literals,
    List.filterMap_append, PatternPiece.filterMap_numberName?_literals, hnumbers, List.flatMap_cons,
    PatternPiece.template, List.nil_append, List.append_assoc, List.append_assoc, List.append_assoc]

theorem isText_of_isPlain (h : IsPlain front) : ∀ c ∈ front, isText c = true := by
  intro c hc
  rw [isText, Bool.and_eq_true, bne_iff_ne, bne_iff_ne]
  exact ⟨ne_of_mem_of_not_mem hc h.1, ne_of_mem_of_not_mem hc h.2⟩

theorem dropWhile_isText (hfront : IsPlain front) {bracket : Char} (h : isText bracket = false) :
    (front ++ bracket :: behind).dropWhile isText = bracket :: behind := by
  rw [List.dropWhile_append_of_pos (isText_of_isPlain hfront), List.dropWhile_cons_of_neg (by simp [h])]

theorem takeWhile_isText (hfront : IsPlain front) {bracket : Char} (h : isText bracket = false) :
    (front ++ bracket :: behind).takeWhile isText = front := by
  rw [List.takeWhile_append_of_pos (isText_of_isPlain hfront),
    List.takeWhile_cons_of_neg (by simp [h]), List.append_nil]

theorem step_placeholder (hrest : scan.rest = front ++ '<' :: (inside ++ '>' :: rest))
    (hfront : IsPlain front) (hinside : '>' ∉ inside) : scan.step =
      match PatternParam.parse inside with
      | .error flaw => .inr (.error flaw)
      | .ok param =>
        if param.kind = .remainder ∧ rest ≠ [] then .inr (.error .remainderNotLast)
        else .inl ⟨scan.template ++ front ++ param.template,
          scan.numbers ++ (PatternPiece.numberName? (.slot param)).toList, rest⟩ := by
  have hall := bne_of_not_mem hinside
  have hdrop : (inside ++ '>' :: rest).dropWhile (· != '>') = '>' :: rest := by
    rw [List.dropWhile_append_of_pos hall, List.dropWhile_cons_of_neg (by simp)]
  have htake : (inside ++ '>' :: rest).takeWhile (· != '>') = inside := by
    rw [List.takeWhile_append_of_pos hall, List.takeWhile_cons_of_neg (by simp), List.append_nil]
  simp only [step, hrest, dropWhile_isText hfront (rfl : isText '<' = false),
    takeWhile_isText hfront (rfl : isText '<' = false), hdrop, htake]
  cases PatternParam.parse inside <;> rfl

theorem count_placeholder (hfront : IsPlain front) (hinside : '>' ∉ inside) (rest : List Char) :
    (front ++ '<' :: (inside ++ '>' :: rest)).count '>' = rest.count '>' + 1 := by
  rw [List.count_append, List.count_eq_zero.mpr hfront.2, List.count_cons_of_ne (by decide),
    List.count_append, List.count_eq_zero.mpr hinside, List.count_cons_self, Nat.zero_add,
    Nat.zero_add]

/-- Every turn but the last takes a closing bracket, so that the turns come to an end, and then the
pattern is what reads. -/
theorem run_eq (template : List Char) (numbers : List String) (text : List Char) :
    run (text.count '>' + 1) ⟨template, numbers, text⟩ =
      some ((PatternPiece.read none text).map (completed template numbers)) := by
  induction text using bracket_induction generalizing template numbers with
  | plain text htext =>
      have hstep : step ⟨template, numbers, text⟩ =
          .inr (.ok ⟨String.ofList (template ++ text), numbers⟩) := by
        simp only [step, List.dropWhile_eq_nil_iff.mpr (isText_of_isPlain htext)]
      rw [run, hstep, PatternPiece.read_plain htext, Except.map, completed,
        PatternPiece.flatMap_template_literals, PatternPiece.filterMap_numberName?_literals,
        List.append_nil]
  | unmatched front behind hfront =>
      have hstep : step ⟨template, numbers, front ++ '>' :: behind⟩ = .inr (.error .unmatchedClose) := by
        simp [step, dropWhile_isText hfront (rfl : isText '>' = false)]
      rw [run, hstep, PatternPiece.read_unmatched hfront]
      rfl
  | unclosed front inside hfront hinside =>
      have hstep : step ⟨template, numbers, front ++ '<' :: inside⟩ = .inr (.error .unclosedOpen) := by
        simp [step, dropWhile_isText hfront (rfl : isText '<' = false),
          List.dropWhile_eq_nil_iff.mpr (bne_of_not_mem hinside)]
      rw [run, hstep, PatternPiece.read_unclosed hfront hinside]
      rfl
  | placeholder front inside rest hfront hinside ih =>
      rw [run, step_placeholder rfl hfront hinside, PatternPiece.read_placeholder hfront hinside,
        count_placeholder hfront hinside]
      cases PatternParam.parse inside with
      | error flaw => rfl
      | ok param =>
          by_cases hlast : param.kind = .remainder ∧ rest ≠ []
          · simp only [if_pos hlast, Except.bind, PatternPiece.readBehind]
            rfl
          · simp only [if_neg hlast, Except.bind, PatternPiece.readBehind, ih]
            cases PatternPiece.read none rest with
            | error flaw => rfl
            | ok later => exact congrArg (some ∘ Except.ok) (completed_placeholder ..)

end PatternScan

namespace RoutePattern

/-- A pattern is read if and only if it starts with a slash and is written of text and placeholders, of
which only the last may be for what is left of a path.  Then its template is the text with a wildcard
for each placeholder, and its numbers are those that are written so.  Bracket by bracket this takes a
turn for each closing bracket and one more. -/
theorem parse_reads_written (text : String) :
    (∀ pattern, parse text = .ok pattern ↔ text.toList.head? = some '/' ∧
      ∃ written : WrittenPattern, written.text = text.toList ∧
        pattern = ⟨String.ofList written.template, written.numbers⟩) ∧
    PatternScan.parseWithin (text.toList.count '>' + 1) text.toList = some (parse text) := by
  constructor
  · intro pattern
    unfold parse
    split
    · next hroot =>
      rw [and_iff_right hroot]
      constructor
      · intro h
        obtain ⟨pieces, hread, rfl⟩ := Except.exists_of_map h
        obtain ⟨written, htext, rfl⟩ := WrittenPattern.exists_of_read hread
        exact ⟨written, htext, by rw [ofPieces, written.template_pieces, written.numbers_pieces]⟩
      · rintro ⟨written, htext, rfl⟩
        rw [← htext, written.read_text, Except.map, ofPieces, written.template_pieces,
          written.numbers_pieces]
    · next hroot => simp [hroot]
  · unfold parse PatternScan.parseWithin
    split
    · rw [PatternScan.run_eq]
      rfl
    · rfl

-- Native wildcards are text, and so is whatever else stands outside angle brackets.
example : (parse "/{org}/é<id:int><kind>/<rest:path>").toOption =
    some ⟨"/{org}/é{id}{kind}/{*rest}", ["id"]⟩ := by decide

end RoutePattern

end Turnpike
