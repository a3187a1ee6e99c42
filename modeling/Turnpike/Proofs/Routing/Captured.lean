import Turnpike.Proofs.Routing.NotFound
import Turnpike.Proofs.Routing.Parts

/-!
What the placeholders of a pattern capture.  The text around them is handed to the table as it stands,
where its braces may meet those of a placeholder.  Where none does, every placeholder captures its own
part of a path.
-/

namespace Turnpike

/-- Placeholders, each with the text up to the next one. -/
abbrev PatternSlots := List (PatternParam × List Char)

structure PatternParts where
  lead : List Char
  slots : PatternSlots
  deriving DecidableEq, Repr

def PatternPiece.param? : PatternPiece → Option PatternParam
  | .literal _ => none
  | .slot param => some param

namespace PatternParts

def ofPieces : List PatternPiece → PatternParts
  | [] => ⟨[], []⟩
  | .literal c :: pieces => ⟨c :: (ofPieces pieces).lead, (ofPieces pieces).slots⟩
  | .slot param :: pieces => ⟨[], (param, (ofPieces pieces).lead) :: (ofPieces pieces).slots⟩

def slotsText (slots : PatternSlots) : List Char := slots.flatMap fun slot => slot.1.template ++ slot.2

theorem slotsText_cons (param : PatternParam) (text : List Char) (slots : PatternSlots) :
    slotsText ((param, text) :: slots) = param.template ++ (text ++ slotsText slots) :=
  List.append_assoc ..

/-- Text reads by itself, and no closing brace follows that of a placeholder. -/
def IsClear (parts : PatternParts) : Prop :=
  Template.parse? (String.ofList parts.lead) ≠ none ∧
    ∀ slot ∈ parts.slots, Template.parse? (String.ofList slot.2) ≠ none ∧ slot.2.head? ≠ some '}'

instance : DecidablePred IsClear := fun _ => inferInstanceAs (Decidable (_ ∧ _))

theorem template_ofPieces (pieces : List PatternPiece) :
    pieces.flatMap PatternPiece.template =
      (ofPieces pieces).lead ++ slotsText (ofPieces pieces).slots := by
  induction pieces with
  | nil => rfl
  | cons piece pieces ih =>
      rw [List.flatMap_cons, ih]
      cases piece with
      | literal c => rfl
      | slot param => exact (slotsText_cons ..).symm

theorem params_ofPieces (pieces : List PatternPiece) :
    (ofPieces pieces).slots.map Prod.fst = pieces.filterMap PatternPiece.param? := by
  induction pieces with
  | nil => rfl
  | cons piece pieces ih =>
      cases piece with
      | literal c => exact ih
      | slot param => exact congrArg (List.cons param) ih

theorem slot_mem_pieces {pieces : List PatternPiece} {slot : PatternParam × List Char}
    (h : slot ∈ (ofPieces pieces).slots) : .slot slot.1 ∈ pieces := by
  have hparam := List.mem_map_of_mem (f := Prod.fst) h
  rw [params_ofPieces] at hparam
  obtain ⟨piece, hpiece, hsame⟩ := List.mem_filterMap.mp hparam
  cases piece with
  | literal c => contradiction
  | slot param =>
      obtain rfl := Option.some.inj hsame
      exact hpiece

end PatternParts

/-- The wildcard of a kind. -/
def ParamKind.token : ParamKind → List Char → TemplateToken
  | .remainder, name => .rest (String.ofList name)
  | _, name => .param (String.ofList name)

theorem ParamKind.name?_token (kind : ParamKind) (name : List Char) :
    (kind.token name).name? = some (String.ofList name) := by
  cases kind <;> rfl

namespace PatternParam

theorem isName_of_ofName {name : List Char} {kind : ParamKind} {param : PatternParam}
    (h : ofName name kind = .ok param) : isName param.name = true := by
  unfold ofName at h
  split at h
  · next hname =>
    cases h
    exact hname
  · contradiction

theorem isName_of_parse {inside : List Char} {param : PatternParam}
    (h : parse inside = .ok param) : isName param.name = true := by
  revert h
  fun_cases parse inside with
  | case1 => exact isName_of_ofName
  | case2 => exact isName_of_ofName
  | case3 => exact nofun

/-- What stands between the braces of a placeholder. -/
def inside (param : PatternParam) : List Char :=
  match param.kind with
  | .remainder => '*' :: param.name
  | _ => param.name

variable {param : PatternParam}

theorem template_eq (param : PatternParam) : param.template = '{' :: (param.inside ++ ['}']) := by
  obtain ⟨name, kind⟩ := param
  cases kind <;> rfl

theorem isNameTail_of_isNameChar {c : Char} (h : isNameChar c = true) :
    Template.isNameTail c = true := by
  rw [Template.isNameTail, Bool.and_eq_true, bne_iff_ne, bne_iff_ne]
  constructor
  · rintro rfl
    contradiction
  · rintro rfl
    contradiction

theorem not_isBrace_of_isNameChar {c : Char} (h : isNameChar c = true) : ¬ Template.IsBrace c := by
  rintro (rfl | rfl)
  · contradiction
  · contradiction

theorem exists_of_isName {name : List Char} (h : isName name = true) :
    ∃ first rest, name = first :: rest ∧ isNameChar first = true ∧
      ∀ c ∈ rest, isNameChar c = true := by
  rw [isName, Bool.and_eq_true, List.all_eq_true] at h
  obtain ⟨hsome, hchars⟩ := h
  cases name with
  | nil => contradiction
  | cons first rest => exact ⟨first, rest, rfl, List.forall_mem_cons.mp hchars⟩

theorem exists_inside (h : isName param.name = true) : ∃ first rest, param.inside = first :: rest ∧
    ¬ Template.IsBrace first ∧ ∀ c ∈ rest, isNameChar c = true := by
  obtain ⟨name, kind⟩ := param
  obtain ⟨first, rest, rfl, hfirst, hrest⟩ := exists_of_isName h
  cases kind with
  | remainder =>
      exact ⟨'*', first :: rest, rfl, by decide, List.forall_mem_cons.mpr ⟨hfirst, hrest⟩⟩
  | segment | number => exact ⟨first, rest, rfl, not_isBrace_of_isNameChar hfirst, hrest⟩

theorem not_isBrace_inside (h : isName param.name = true) :
    ∀ c ∈ param.inside, ¬ Template.IsBrace c := by
  obtain ⟨first, rest, hinside, hfirst, hrest⟩ := exists_inside h
  rw [hinside]
  intro c hmem
  rcases List.mem_cons.mp hmem with rfl | hlater
  · exact hfirst
  · exact not_isBrace_of_isNameChar (hrest c hlater)

theorem wildcard?_inside (h : isName param.name = true) (tail : List Char) :
    Template.wildcard? (param.inside ++ tail) = some (param.kind.token (param.name ++ tail)) := by
  obtain ⟨name, kind⟩ := param
  obtain ⟨first, rest, rfl, hfirst, -⟩ := exists_of_isName h
  have hstar : first ≠ '*' := by
    rintro rfl
    contradiction
  cases kind with
  | remainder => rfl
  | segment | number => exact Template.wildcard?_of_ne hstar (rest ++ tail)

theorem unescape_template (h : isName param.name = true) (behind : List Char) :
    Template.unescape (param.template ++ behind) = ⟨'{', false⟩ ::
      (param.inside.map (Template.Glyph.mk · false) ++ Template.unescape ('}' :: behind)) := by
  obtain ⟨first, rest, hinside, hfirst, -⟩ := exists_inside h
  have hopening : (param.inside ++ '}' :: behind).head? ≠ some '{' := by
    rw [hinside]
    rintro ⟨⟩
    exact hfirst (.inl rfl)
  rw [template_eq, List.cons_append, List.append_assoc, List.singleton_append,
    Template.unescape_cons fun _ => hopening, Template.unescape_free (not_isBrace_inside h)]

/-- A placeholder reads by itself, as its wildcard. -/
theorem parse?_template (h : isName param.name = true) :
    Template.parse? (String.ofList param.template) = some [param.kind.token param.name] := by
  obtain ⟨first, rest, hinside, hfirst, hrest⟩ := exists_inside h
  have hname : ∀ c ∈ rest, Template.isNameTail c = true ∧ ¬ Template.IsBrace c := fun c hc =>
    ⟨isNameTail_of_isNameChar (hrest c hc), not_isBrace_of_isNameChar (hrest c hc)⟩
  have hglyphs := unescape_template h []
  have htoken := wildcard?_inside h []
  rw [List.append_nil, hinside] at hglyphs htoken
  rw [List.append_nil] at htoken
  rw [Template.parse?, String.toList_ofList, hglyphs]
  exact (Template.read_wildcard hfirst hname).trans (by rw [htoken, Option.map_some])

end PatternParam

namespace Template

theorem Reads.of_slot {param : PatternParam} (hname : PatternParam.isName param.name = true)
    {behind : List Char} {template : Template}
    (h : Reads none (unescape (param.template ++ behind)) template)
    (hbehind : behind.head? ≠ some '}') :
    ∃ later, template = param.kind.token param.name :: later ∧
      Reads none (unescape behind) later := by
  have hseam : unescape (param.template ++ behind) =
      unescape param.template ++ unescape behind := by
    have halone := PatternParam.unescape_template hname []
    rw [List.append_nil] at halone
    rw [PatternParam.unescape_template hname, halone, unescape_cons fun _ => hbehind,
      List.cons_append, List.append_assoc]
    rfl
  have halone := PatternParam.parse?_template hname
  rw [parse?_eq] at halone
  rw [hseam] at h
  exact h.split halone

/-- Of a closing brace behind a placeholder the name takes hold. -/
theorem Reads.of_slot_closed {param : PatternParam} (hname : PatternParam.isName param.name = true)
    {behind : List Char} {template : Template}
    (h : Reads none (unescape (param.template ++ '}' :: behind)) template) :
    ∃ tail later, template = param.kind.token (param.name ++ '}' :: tail) :: later := by
  rw [PatternParam.unescape_template hname, unescape_pair (.inr rfl)] at h
  cases h with
  | literal _ hopening _ => contradiction
  | opening _ _ hreads =>
      have hfront : ∀ glyph ∈ param.inside.map (Glyph.mk · false), isClosing glyph = false := by
        intro glyph hmem
        obtain ⟨c, hc, rfl⟩ := List.mem_map.mp hmem
        exact isClosing_of_not_isBrace (PatternParam.not_isBrace_inside hname c hc)
      have hbehind := hreads.behind_name hfront
      cases hbehind with
      | closing hclosing _ _ _ => contradiction
      | name _ hrest =>
          obtain ⟨tail, token, later, rfl, htoken⟩ := hrest.exists_name
          have hinside := PatternParam.wildcard?_inside hname ('}' :: tail)
          simp only [List.append_nil, List.map_map, List.reverse_cons, List.reverse_reverse,
            Function.comp_def, List.map_id', List.append_assoc, List.singleton_append] at htoken
          obtain rfl := Option.some.inj (hinside.symm.trans htoken)
          exact ⟨tail, later, rfl⟩

end Template

theorem PatternPiece.isName_of_read {seen? : Option (List Char)} {text : List Char}
    {pieces : List PatternPiece} (h : read seen? text = .ok pieces) {param : PatternParam}
    (hmem : .slot param ∈ pieces) : PatternParam.isName param.name = true := by
  fun_induction read seen? text generalizing pieces with
  | case1 =>
      cases h
      contradiction
  | case2 => contradiction
  | case3 => contradiction
  | case4 rest _ ih => exact ih h hmem
  | case5 c rest _ _ ih =>
      obtain ⟨later, hread, rfl⟩ := Except.exists_of_map h
      cases hmem with
      | tail _ hlater => exact ih hread hlater
  | case6 => contradiction
  | case7 => contradiction
  | case8 seen rest first hparse _ ih =>
      obtain ⟨later, hread, rfl⟩ := Except.exists_of_map h
      cases hmem with
      | head => exact PatternParam.isName_of_parse hparse
      | tail _ hlater => exact ih hread hlater
  | case9 seen c rest _ ih => exact ih h hmem

namespace PatternParts

variable {param : PatternParam} {text : List Char} {slots : PatternSlots}

theorem head?_slotsText (slots : PatternSlots) : ∀ c ∈ (slotsText slots).head?, c = '{' := by
  cases slots with
  | nil => exact nofun
  | cons slot slots =>
      intro c hc
      rw [slotsText_cons, PatternParam.template_eq] at hc
      exact (Option.some.inj hc).symm

theorem head?_text_append (h : text.head? ≠ some '}') :
    (text ++ slotsText slots).head? ≠ some '}' := by
  cases text with
  | nil =>
      intro hhead
      have hopening := head?_slotsText slots '}' hhead
      contradiction
  | cons c text => exact h

/-- A placeholder and the text behind it read as what they are by themselves. -/
theorem reads_cons {template tokens : Template} (hname : PatternParam.isName param.name = true)
    (hclosing : text.head? ≠ some '}') (htext : Template.parse? (String.ofList text) = some tokens)
    (h : Template.Reads none (Template.unescape (slotsText ((param, text) :: slots))) template) :
    ∃ later, template = param.kind.token param.name :: (tokens ++ later) ∧
      Template.Reads none (Template.unescape (slotsText slots)) later := by
  rw [slotsText_cons] at h
  obtain ⟨behind, rfl, hbehind⟩ := Template.Reads.of_slot hname h (head?_text_append hclosing)
  obtain ⟨later, rfl, hlater⟩ := hbehind.of_part htext (head?_slotsText slots)
  exact ⟨later, rfl, hlater⟩

end PatternParts

/-! Captures. -/

/-- A value that a pattern captures: by a wildcard in its text, or by a placeholder. -/
inductive PathCapture where
  | native (name value : String)
  | placeholder (param : PatternParam) (value : String)
  deriving DecidableEq, Repr

namespace PathCapture

def pair : PathCapture → String × String
  | .native name value => (name, value)
  | .placeholder param value => (String.ofList param.name, value)

def param? : PathCapture → Option PatternParam
  | .native _ _ => none
  | .placeholder param _ => some param

end PathCapture

/-- What the wildcards of a template capture. -/
def Template.natives (template : Template) (values : List (List Char)) : List PathCapture :=
  (template.names.zip (values.map String.ofList)).map fun pair => .native pair.1 pair.2

theorem Template.map_pair_natives (template : Template) (values : List (List Char)) :
    (template.natives values).map PathCapture.pair =
      template.names.zip (values.map String.ofList) := by
  rw [natives, List.map_map]
  exact List.map_id _

theorem Template.filterMap_natives (template : Template) (values : List (List Char)) :
    (template.natives values).filterMap PathCapture.param? = [] := by
  rw [natives, List.filterMap_map]
  exact List.filterMap_eq_nil_iff.mpr fun _ _ => rfl

namespace Template

theorem names_token (kind : ParamKind) (name : List Char) (later : Template) :
    names (kind.token name :: later) = String.ofList name :: later.names := by
  rw [names, List.filterMap_cons_some (kind.name?_token name)]
  rfl

theorem names_append (first second : Template) :
    names (first ++ second) = first.names ++ second.names :=
  List.filterMap_append

variable {template first : Template} {path : List Char} {values taken : List (List Char)}

theorem Matches.zip_append (h : first.Matches path taken) (second : Template)
    (left : List (List Char)) : (names (first ++ second)).zip ((taken ++ left).map String.ofList) =
      first.names.zip (taken.map String.ofList) ++ second.names.zip (left.map String.ofList) := by
  rw [names_append, List.map_append, List.zip_append]
  rw [List.length_map]
  exact h.length_names

theorem Matches.map_fst_zip_names (h : template.Matches path values) :
    (template.names.zip (values.map String.ofList)).map Prod.fst = template.names := by
  apply List.map_fst_zip
  rw [List.length_map]
  exact h.length_names.le

theorem Matches.names_natives (h : template.Matches path values) :
    ((template.natives values).map fun capture => capture.pair.1) = template.names := by
  rw [← h.map_fst_zip_names, ← map_pair_natives, List.map_map]
  rfl

end Template

namespace PatternParts

/-- Text takes what it matches as a template of its own. -/
inductive TextTakes : List Char → List Char → List PathCapture → Prop
  | mk {text path : List Char} {template : Template} {values : List (List Char)} :
      Template.parse? (String.ofList text) = some template → template.Matches path values →
      TextTakes text path (template.natives values)

/-- A placeholder takes a part that is not empty, within one segment unless it is for all that is
left. -/
inductive SlotsTake : PatternSlots → List Char → List PathCapture → Prop
  | nil : SlotsTake [] [] []
  | cons {param : PatternParam} {text : List Char} {slots : PatternSlots}
      {captured front back : List Char} {natives captures : List PathCapture} :
      captured ≠ [] → (param.kind ≠ .remainder → '/' ∉ captured) → TextTakes text front natives →
      SlotsTake slots back captures →
      SlotsTake ((param, text) :: slots) (captured ++ (front ++ back))
        (.placeholder param (String.ofList captured) :: (natives ++ captures))

/-- How the parts of a pattern take a path, one behind the other. -/
inductive Takes : PatternParts → List Char → List PathCapture → Prop
  | mk {lead : List Char} {slots : PatternSlots} {front back : List Char}
      {natives captures : List PathCapture} : TextTakes lead front natives →
      SlotsTake slots back captures → Takes ⟨lead, slots⟩ (front ++ back) (natives ++ captures)

theorem matches_token {kind : ParamKind} {name path : List Char} {values : List (List Char)}
    (h : Template.Matches [kind.token name] path values) :
    values = [path] ∧ path ≠ [] ∧ (kind ≠ .remainder → '/' ∉ path) := by
  cases kind with
  | remainder =>
      cases h with
      | rest hsome => exact ⟨rfl, hsome, fun hne => absurd rfl hne⟩
  | segment | number =>
      cases h with
      | param hsome hslash hlater =>
          cases hlater
          rw [List.append_nil]
          exact ⟨rfl, hsome, fun _ => hslash⟩

variable {slots : PatternSlots} {template : Template}

/-- Where every seam is clear, every placeholder takes a part of its own. -/
theorem slotsTake_of_reads (hnames : ∀ slot ∈ slots, PatternParam.isName slot.1.name = true)
    (hclear : ∀ slot ∈ slots,
      Template.parse? (String.ofList slot.2) ≠ none ∧ slot.2.head? ≠ some '}')
    {path : List Char} {values : List (List Char)}
    (hreads : Template.Reads none (Template.unescape (slotsText slots)) template)
    (hmatches : template.Matches path values) :
    ∃ captures, SlotsTake slots path captures ∧
      template.names.zip (values.map String.ofList) = captures.map PathCapture.pair := by
  induction slots generalizing template path values with
  | nil =>
      cases hreads
      cases hmatches
      exact ⟨[], .nil, rfl⟩
  | cons slot slots ih =>
      obtain ⟨param, text⟩ := slot
      obtain ⟨hname, hnames⟩ := List.forall_mem_cons.mp hnames
      obtain ⟨⟨htext, hclosing⟩, hclear⟩ := List.forall_mem_cons.mp hclear
      obtain ⟨tokens, htokens⟩ := Option.ne_none_iff_exists'.mp htext
      obtain ⟨later, rfl, hlater⟩ := reads_cons hname hclosing htokens hreads
      have hmatches : Template.Matches ([param.kind.token param.name] ++ (tokens ++ later)) path
        values := hmatches
      obtain ⟨captured, behind, taken, left, rfl, rfl, hslot, hbehind⟩ := hmatches.split
      obtain ⟨front, back, natives, others, rfl, rfl, hfront, hback⟩ := hbehind.split
      obtain ⟨captures, htakes, hparams⟩ := ih hnames hclear hlater hback
      obtain ⟨rfl, hsome, hslash⟩ := matches_token hslot
      refine ⟨_, .cons hsome hslash (.mk htokens hfront) htakes, ?_⟩
      rw [Template.names_token, List.singleton_append, List.map_cons, List.zip_cons_cons,
        hfront.zip_append, hparams, ← Template.map_pair_natives, ← List.map_append]
      rfl

/-- Where the names are those of the placeholders, no brace behind one of them closes it. -/
theorem not_closing_of_slotsTake (hnames : ∀ slot ∈ slots, PatternParam.isName slot.1.name = true)
    {path : List Char} {captures : List PathCapture}
    (hreads : Template.Reads none (Template.unescape (slotsText slots)) template)
    (htakes : SlotsTake slots path captures)
    (hsame : template.names = captures.map fun capture => capture.pair.1) :
    ∀ slot ∈ slots, Template.parse? (String.ofList slot.2) ≠ none ∧ slot.2.head? ≠ some '}' := by
  induction htakes generalizing template with
  | nil => exact nofun
  | @cons param text slots captured front back natives captures hsome hslash hfront htakes ih =>
      obtain ⟨hname, hnames⟩ := List.forall_mem_cons.mp hnames
      obtain ⟨htokens, hmatches⟩ := hfront
      rw [List.map_cons, List.map_append, hmatches.names_natives] at hsame
      have hclosing : text.head? ≠ some '}' := by
        intro hhead
        obtain ⟨behind, rfl⟩ := List.head?_eq_some_iff.mp hhead
        rw [slotsText_cons] at hreads
        obtain ⟨tail, later, rfl⟩ := Template.Reads.of_slot_closed hname hreads
        rw [Template.names_token] at hsame
        have hlonger := congrArg List.length (String.ofList_injective (List.cons.inj hsame).1)
        simp at hlonger
      obtain ⟨later, rfl, hlater⟩ := reads_cons hname hclosing htokens hreads
      rw [Template.names_token, Template.names_append] at hsame
      have hrest := List.append_cancel_left (List.cons.inj hsame).2
      exact List.forall_mem_cons.mpr
        ⟨⟨Option.ne_none_iff_exists'.mpr ⟨_, htokens⟩, hclosing⟩, ih hnames hlater hrest⟩

theorem SlotsTake.filterMap_param? {path : List Char} {captures : List PathCapture}
    (h : SlotsTake slots path captures) :
    captures.filterMap PathCapture.param? = slots.map Prod.fst := by
  induction h with
  | nil => rfl
  | cons _ _ hfront _ ih =>
      obtain ⟨-, -⟩ := hfront
      simp only [List.filterMap_cons, PathCapture.param?, List.filterMap_append,
        Template.filterMap_natives, ih]
      rfl

theorem Takes.filterMap_param? {parts : PatternParts} {path : List Char}
    {captures : List PathCapture} (h : parts.Takes path captures) :
    captures.filterMap PathCapture.param? = parts.slots.map Prod.fst := by
  obtain ⟨hfront, hback⟩ := h
  obtain ⟨-, -⟩ := hfront
  rw [List.filterMap_append, Template.filterMap_natives, hback.filterMap_param?]
  rfl

/-- Every placeholder captures its own part exactly where the seams are clear. -/
theorem exists_takes_iff_isClear {parts : PatternParts}
    (hnames : ∀ slot ∈ parts.slots, PatternParam.isName slot.1.name = true)
    {path : List Char} {values : List (List Char)} (hreads : Template.Reads none
      (Template.unescape (parts.lead ++ slotsText parts.slots)) template)
    (hmatches : template.Matches path values) :
    (∃ captures, parts.Takes path captures ∧
      template.names.zip (values.map String.ofList) = captures.map PathCapture.pair) ↔
        parts.IsClear := by
  constructor
  · rintro ⟨captures, htakes, hparams⟩
    have hsame := congrArg (List.map Prod.fst) hparams
    rw [hmatches.map_fst_zip_names, List.map_map] at hsame
    cases htakes with
    | mk hfront hback =>
        obtain ⟨htokens, hlead⟩ := hfront
        obtain ⟨later, rfl, hlater⟩ := hreads.of_part htokens (head?_slotsText _)
        rw [List.map_append, Template.names_append] at hsame
        have hrest : Template.names later = _ :=
          List.append_cancel_left (hsame.trans (congrArg (· ++ _) hlead.names_natives))
        exact ⟨Option.ne_none_iff_exists'.mpr ⟨_, htokens⟩,
          not_closing_of_slotsTake hnames hlater hback hrest⟩
  · intro hclear
    obtain ⟨lead, slots⟩ := parts
    obtain ⟨tokens, htokens⟩ := Option.ne_none_iff_exists'.mp hclear.1
    obtain ⟨later, rfl, hlater⟩ := hreads.of_part htokens (head?_slotsText _)
    obtain ⟨front, back, natives, others, rfl, rfl, hfront, hback⟩ := hmatches.split
    obtain ⟨captures, htakes, hparams⟩ := slotsTake_of_reads hnames hclear.2 hlater hback
    refine ⟨_, .mk (.mk htokens hfront) htakes, ?_⟩
    rw [hfront.zip_append, hparams, ← Template.map_pair_natives, ← List.map_append]

end PatternParts

theorem PatternPiece.number_mem {pieces : List PatternPiece} {param : PatternParam}
    (hmem : .slot param ∈ pieces) (hnumber : param.kind = .number) :
    String.ofList param.name ∈ (RoutePattern.ofPieces pieces).numbers := by
  obtain ⟨name, kind⟩ := param
  obtain rfl : kind = .number := hnumber
  exact List.mem_filterMap.mpr ⟨_, hmem, rfl⟩

/-- Of several values under one name the first counts. -/
theorem PathParams.get?_first {front back : PathParams} {name value : String}
    (h : ∀ pair ∈ front, pair.1 ≠ name) :
    PathParams.get? (front ++ (name, value) :: back) name = some value := by
  have hfront : front.find? (fun pair => pair.1 == name) = none := by
    rw [List.find?_eq_none]
    intro pair hpair heq
    exact h pair hpair (beq_iff_eq.mp heq)
  rw [get?, List.find?_append, hfront, Option.none_or, List.find?_cons, beq_self_eq_true]
  rfl

theorem RoutePattern.signed?_of_accepts {pattern : RoutePattern} {front back : PathParams}
    {name value : String} (h : pattern.accepts (front ++ (name, value) :: back) = true)
    (hname : name ∈ pattern.numbers) (hfirst : ∀ pair ∈ front, pair.1 ≠ name) :
    (Number.signed? (Bytes.ofText value)).isSome = true := by
  have hvalue := List.all_eq_true.mp h name hname
  rw [PathParams.get?_first hfirst] at hvalue
  exact hvalue

theorem RoutePattern.eq_ofPieces {text : String} {pattern : RoutePattern}
    {pieces : List PatternPiece} (h : RoutePattern.parse text = .ok pattern)
    (hread : PatternPiece.read none text.toList = .ok pieces) :
    pattern = RoutePattern.ofPieces pieces := by
  unfold RoutePattern.parse at h
  split at h
  · rw [hread] at h
    cases h
    rfl
  · contradiction

namespace Router

variable {η : Type} {builder : RouterBuilder η} {router : Router η} {method : Method}
  {path : String} {route : Route η}

theorem exists_template_of_dispatch (hbuild : builder.build = .ok router)
    (hdispatch : router.dispatch method path = .ok route) :
    ∃ template values, Template.parse? route.item.pattern.template = some template ∧
      template.Spaced ∧ template.Matches path.toList values ∧
      route.params = template.names.zip (values.map String.ofList) ∧
      route.item.pattern.accepts route.params = true := by
  have hsound := sound_of_build hbuild
  obtain ⟨hselect, hparams⟩ := dispatch_eq_ok hdispatch
  obtain ⟨hlocated, haccepts⟩ := List.mem_filter.mp (mem_of_select hselect)
  obtain ⟨row, values, hfind, hentry⟩ := mem_located.mp hlocated
  obtain ⟨hrow, hmatches⟩ := RouteTable.matches_of_find? hsound.restLast hfind
  rw [← hparams] at haccepts
  rw [locate_of_find?_eq_some hfind] at hparams
  exact ⟨row.template, values, hsound.template row hrow _ hentry, hsound.spaced row hrow, hmatches,
    hparams, haccepts⟩

/-- What a dispatched path leaves with its route, whose pattern is one that was registered.  Every
placeholder has captured its own part of the path, under its name and in its place, exactly where the
seams of the pattern are clear; and what it captured is a number if it has to be one, unless something
in front of it has the same name. -/
theorem captured_of_dispatch (hbuild : builder.build = .ok router)
    (hdispatch : router.dispatch method path = .ok route) :
    (∃ pattern, (pattern, route.item.endpoint) ∈ builder.draft.routes ∧
      RoutePattern.parse pattern = .ok route.item.pattern) ∧
    ∀ pattern pieces, RoutePattern.parse pattern = .ok route.item.pattern →
      PatternPiece.read none pattern.toList = .ok pieces →
      ((∃ captures, (PatternParts.ofPieces pieces).Takes path.toList captures ∧
          route.params = captures.map PathCapture.pair) ↔ (PatternParts.ofPieces pieces).IsClear) ∧
      ∀ captures, (PatternParts.ofPieces pieces).Takes path.toList captures →
        route.params = captures.map PathCapture.pair →
        captures.filterMap PathCapture.param? = pieces.filterMap PatternPiece.param? ∧
        ∀ front param value back, captures = front ++ .placeholder param value :: back →
          param.kind = .number → (∀ capture ∈ front, capture.pair.1 ≠ String.ofList param.name) →
          (Number.signed? (Bytes.ofText value)).isSome = true := by
  obtain ⟨template, values, hparse, hspaced, hmatches, hparams, haccepts⟩ :=
    exists_template_of_dispatch hbuild hdispatch
  constructor
  · obtain ⟨hselect, -⟩ := dispatch_eq_ok hdispatch
    obtain ⟨hlocated, -⟩ := List.mem_filter.mp (mem_of_select hselect)
    exact comesFrom_of_build hbuild (mem_items_of_located hbuild hlocated)
  · intro pattern pieces hpattern hread
    have heq := RoutePattern.eq_ofPieces hpattern hread
    rw [heq] at hparse haccepts
    have hreads : Template.Reads none (Template.unescape ((PatternParts.ofPieces pieces).lead ++
        PatternParts.slotsText (PatternParts.ofPieces pieces).slots)) template := by
      rw [RoutePattern.ofPieces, PatternParts.template_ofPieces, Template.parse?_eq] at hparse
      exact Template.reads_of_readWithin (fun _ => Template.isBrace_of_isEscaped) hparse hspaced
    have hnames : ∀ slot ∈ (PatternParts.ofPieces pieces).slots,
        PatternParam.isName slot.1.name = true := fun slot hslot =>
      PatternPiece.isName_of_read hread (PatternParts.slot_mem_pieces hslot)
    rw [hparams] at haccepts ⊢
    refine ⟨PatternParts.exists_takes_iff_isClear hnames hreads hmatches, ?_⟩
    intro captures htakes hsame
    have hplaceholders := htakes.filterMap_param?
    refine ⟨hplaceholders.trans (PatternParts.params_ofPieces pieces), ?_⟩
    intro front param value back hcaptures hnumber hfirst
    have hslot : param ∈ captures.filterMap PathCapture.param? :=
      List.mem_filterMap.mpr ⟨.placeholder param value, by simp [hcaptures], rfl⟩
    rw [hplaceholders] at hslot
    obtain ⟨slot, hmem, rfl⟩ := List.mem_map.mp hslot
    rw [hsame, hcaptures, List.map_append, List.map_cons] at haccepts
    refine RoutePattern.signed?_of_accepts haccepts
      (PatternPiece.number_mem (PatternParts.slot_mem_pieces hmem) hnumber) ?_
    exact List.forall_mem_map.mpr hfirst

-- The braces behind the placeholder make a pair with its own, so that the name goes on.
example :
    let builder := RouterBuilder.empty.register (.route "/<id>\x7d\x7d" ⟨[.get], (), false⟩)
    (builder.build.toOption.bind fun router =>
      (router.dispatch .get "/5").toOption.map Route.params) = some [("id\x7d", "5")] := by
  decide

/-- A router of one pattern. -/
def ofPattern (pattern : String) : RouterBuilder Unit :=
  RouterBuilder.empty.register (.route pattern ⟨[.get], (), false⟩)

theorem exists_dispatch_ofPattern {text path : String} {pattern : RoutePattern} {params : PathParams}
    (h : ((ofPattern text).build.toOption.bind fun router =>
      (router.dispatch .get path).toOption.map fun route => (route.item.pattern, route.params)) =
        some (pattern, params)) :
    ∃ router route, (ofPattern text).build = .ok router ∧ router.dispatch .get path = .ok route ∧
      route.item.pattern = pattern ∧ route.params = params := by
  obtain ⟨router, hbuild, hrouter⟩ := Option.bind_eq_some_iff.mp h
  obtain ⟨route, hdispatch, hroute⟩ := Option.map_eq_some_iff.mp hrouter
  obtain ⟨hpattern, hparams⟩ := Prod.mk.inj hroute
  exact ⟨router, route, Except.eq_ok_of_toOption hbuild, Except.eq_ok_of_toOption hdispatch,
    hpattern, hparams⟩

/-- A native parameter, a number with text around it, and the rest of the path. -/
theorem captured_of_dispatch_beside_native : ∃ router route pieces captures,
    (ofPattern "/{user}/v<major:int>.json/<rest:path>").build = .ok router ∧
      router.dispatch .get "/ann/v7.json/a/b" = .ok route ∧
      PatternPiece.read none "/{user}/v<major:int>.json/<rest:path>".toList = .ok pieces ∧
      (PatternParts.ofPieces pieces).Takes "/ann/v7.json/a/b".toList captures ∧
      captures.map PathCapture.pair = [("user", "ann"), ("major", "7"), ("rest", "a/b")] ∧
      captures.filterMap PathCapture.param? =
        [⟨"major".toList, .number⟩, ⟨"rest".toList, .remainder⟩] := by
  have hdispatches : ((ofPattern "/{user}/v<major:int>.json/<rest:path>").build.toOption.bind
      fun router => (router.dispatch .get "/ann/v7.json/a/b").toOption.map
        fun route => (route.item.pattern, route.params)) =
      some (⟨"/{user}/v{major}.json/{*rest}", ["major"]⟩,
        [("user", "ann"), ("major", "7"), ("rest", "a/b")]) := by decide
  obtain ⟨router, route, hbuild, hdispatch, hpattern, hparams⟩ :=
    exists_dispatch_ofPattern hdispatches
  have hread : (PatternPiece.read none "/{user}/v<major:int>.json/<rest:path>".toList).toOption =
      some ("/{user}/v".toList.map .literal ++ .slot ⟨"major".toList, .number⟩ ::
        (".json/".toList.map .literal ++ [.slot ⟨"rest".toList, .remainder⟩])) := by decide
  have hparse : RoutePattern.parse "/{user}/v<major:int>.json/<rest:path>" =
      .ok route.item.pattern := by
    rw [hpattern]
    decide
  have hread := Except.eq_ok_of_toOption hread
  obtain ⟨-, hcaptured⟩ := captured_of_dispatch hbuild hdispatch
  obtain ⟨hclear, hinOrder⟩ := hcaptured _ _ hparse hread
  obtain ⟨captures, htakes, hsame⟩ := hclear.mpr (by decide)
  obtain ⟨hplaceholders, -⟩ := hinOrder captures htakes hsame
  exact ⟨router, route, _, captures, hbuild, hdispatch, hread, htakes, hsame.symm.trans hparams,
    hplaceholders⟩

/-- What has to be a number is not one, where the value in front of it has the same name. -/
theorem dispatched_without_number : ∃ router route pieces,
    (ofPattern "/<a>/<a:int>").build = .ok router ∧ router.dispatch .get "/5/x" = .ok route ∧
      PatternPiece.read none "/<a>/<a:int>".toList = .ok pieces ∧
      (PatternParts.ofPieces pieces).Takes "/5/x".toList
        [.placeholder ⟨['a'], .segment⟩ "5", .placeholder ⟨['a'], .number⟩ "x"] ∧
      route.params = [("a", "5"), ("a", "x")] ∧ Number.signed? (Bytes.ofText "x") = none := by
  have hdispatches : ((ofPattern "/<a>/<a:int>").build.toOption.bind
      fun router => (router.dispatch .get "/5/x").toOption.map
        fun route => (route.item.pattern, route.params)) =
      some (⟨"/{a}/{a}", ["a"]⟩, [("a", "5"), ("a", "x")]) := by decide
  obtain ⟨router, route, hbuild, hdispatch, hpattern, hparams⟩ :=
    exists_dispatch_ofPattern hdispatches
  have hread : (PatternPiece.read none "/<a>/<a:int>".toList).toOption =
      some [.literal '/', .slot ⟨['a'], .segment⟩, .literal '/', .slot ⟨['a'], .number⟩] := by
    decide
  have hslash : Template.parse? (String.ofList ['/']) = some [.literal '/'] := by decide
  have hempty : Template.parse? (String.ofList []) = some [] := by decide
  have hnumber : PatternParts.SlotsTake [(⟨['a'], .number⟩, [])] (['x'] ++ ([] ++ [])) _ :=
    .cons nofun (by decide) (.mk hempty .nil) .nil
  have hslots : PatternParts.SlotsTake [(⟨['a'], .segment⟩, ['/']), (⟨['a'], .number⟩, [])]
      (['5'] ++ (['/'] ++ ['x'])) _ :=
    .cons nofun (by decide) (.mk hslash (.literal .nil)) hnumber
  have htakes : PatternParts.Takes ⟨['/'], [(⟨['a'], .segment⟩, ['/']), (⟨['a'], .number⟩, [])]⟩
      (['/'] ++ ['5', '/', 'x']) _ := .mk (.mk hslash (.literal .nil)) hslots
  exact ⟨router, route, _, hbuild, hdispatch, Except.eq_ok_of_toOption hread, htakes, hparams,
    by decide⟩

end Router

end Turnpike
