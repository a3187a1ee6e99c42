import Turnpike.Proofs.Routing.Conflict
import Turnpike.Proofs.Routing.Grammar
import Turnpike.Proofs.Routing.Parts

/-!
Literal text in front of patterns and templates.  What is read behind it is what is read without it,
but for the root, which leaves nothing behind it; and templates that can stand in one table can stand in
one with the text in front of each.
-/

namespace Turnpike

/-! The text that a mount puts in front of a path. -/

namespace Blueprint

/-- A mount without parameters. -/
def IsLiteral (mount : String) : Prop :=
  ∀ c ∈ mount.toList, c ≠ '<' ∧ c ≠ '>' ∧ c ≠ '{' ∧ c ≠ '}'

instance (mount : String) : Decidable (IsLiteral mount) :=
  List.decidableBAll (fun c => c ≠ '<' ∧ c ≠ '>' ∧ c ≠ '{' ∧ c ≠ '}') mount.toList

/-- What stands in front of the paths below a mount: the mount behind one slash, or nothing. -/
def base (mount : String) : List Char :=
  match trimSlashes mount.toList with
  | [] => []
  | trimmed => '/' :: trimmed

variable {mount : String}

theorem mem_trimSlashes {c : Char} {path : List Char} (h : c ∈ trimSlashes path) : c ∈ path := by
  have hback := (List.dropWhile_sublist _).subset (List.mem_reverse.mp h)
  exact (List.dropWhile_sublist _).subset (List.mem_reverse.mp hback)

theorem mem_base {c : Char} (h : c ∈ base mount) : c = '/' ∨ c ∈ mount.toList := by
  unfold base at h
  split at h
  · contradiction
  · rcases List.mem_cons.mp h with rfl | hmem
    · exact .inl rfl
    · exact .inr (mem_trimSlashes hmem)

theorem head?_base (h : base mount ≠ []) : (base mount).head? = some '/' := by
  unfold base at h ⊢
  split
  · next hnil => simp [hnil] at h
  · rfl

theorem IsLiteral.plain (h : IsLiteral mount) : IsPlain (base mount) := by
  constructor
  · intro hmem
    rcases mem_base hmem with heq | hmem
    · contradiction
    · exact (h _ hmem).1 rfl
  · intro hmem
    rcases mem_base hmem with heq | hmem
    · contradiction
    · exact (h _ hmem).2.1 rfl

theorem IsLiteral.not_isBrace (h : IsLiteral mount) : ∀ c ∈ base mount, ¬ Template.IsBrace c := by
  intro c hmem hbrace
  rcases mem_base hmem with rfl | hmem
  · rcases hbrace with heq | heq <;> contradiction
  · obtain ⟨-, -, hopen, hclose⟩ := h c hmem
    exact hbrace.elim hopen hclose

/-- What stands behind the mount: nothing for the root, if there is something in front. -/
def behind (mount : String) (path : List Char) : List Char :=
  if base mount ≠ [] ∧ path = ['/'] then [] else path

theorem joined_eq (mount : String) (rest : List Char) :
    joined mount.toList ('/' :: rest) = base mount ++ behind mount ('/' :: rest) := by
  unfold joined behind base
  cases htrimmed : trimSlashes mount.toList with
  | nil => simp
  | cons c trimmed => cases rest <;> simp

theorem behind_injective {rest other : List Char}
    (h : behind mount ('/' :: rest) = behind mount ('/' :: other)) : rest = other := by
  unfold behind at h
  split at h
  · split at h <;> simp_all
  · split at h <;> simp_all

/-- Paths below a mount are told apart as they are without it. -/
theorem joinedText_inj {first second : String} (hfirst : first.toList.head? = some '/')
    (hsecond : second.toList.head? = some '/')
    (h : joinedText mount first = joinedText mount second) : first = second := by
  obtain ⟨rest, hrest⟩ := List.head?_eq_some_iff.mp hfirst
  obtain ⟨other, hother⟩ := List.head?_eq_some_iff.mp hsecond
  have hlists := String.ofList_injective h
  rw [hrest, hother, joined_eq, joined_eq] at hlists
  have hsame := behind_injective (List.append_cancel_left hlists)
  exact String.toList_inj.mp (by rw [hrest, hother, hsame])

end Blueprint

/-! Patterns. -/

namespace PatternPiece

theorem map_cons_ne_nil {piece : PatternPiece} {result : Except PatternFlaw (List PatternPiece)} :
    result.map (piece :: ·) ≠ .ok [] := by
  intro h
  obtain ⟨found, -, heq⟩ := Except.exists_of_map h
  contradiction

theorem readInside_ne_nil {seen text : List Char} : read (some seen) text ≠ .ok [] := by
  induction text generalizing seen with
  | nil => rintro ⟨⟩
  | cons c text ih =>
      rw [read]
      split
      · split
        · rintro ⟨⟩
        · split
          · rintro ⟨⟩
          · exact map_cons_ne_nil
      · exact ih

theorem eq_nil_of_read {text : List Char} (h : read none text = .ok []) : text = [] := by
  cases text with
  | nil => rfl
  | cons c text =>
      rw [read] at h
      split at h
      · contradiction
      · split at h
        · exact absurd h readInside_ne_nil
        · exact absurd h map_cons_ne_nil

theorem template_ne_nil (piece : PatternPiece) : piece.template ≠ [] := by
  cases piece with
  | literal c => exact nofun
  | slot param =>
      obtain ⟨name, kind⟩ := param
      cases kind <;> exact nofun

theorem eq_nil_of_template {pieces : List PatternPiece}
    (h : pieces.flatMap PatternPiece.template = []) : pieces = [] := by
  refine List.eq_nil_iff_forall_not_mem.mpr fun piece hmem => ?_
  exact piece.template_ne_nil (List.flatMap_eq_nil_iff.mp h piece hmem)

end PatternPiece

namespace RoutePattern

/-- A pattern below a mount. -/
def under (mount : String) (pattern : RoutePattern) : RoutePattern :=
  ⟨Blueprint.joinedText mount pattern.template, pattern.numbers⟩

variable {path : String} {pattern : RoutePattern}

/-- A pattern that reads stands behind a slash, and is the root only if it is written so. -/
theorem exists_of_parse (h : parse path = .ok pattern) : ∃ rest pieces,
    path.toList = '/' :: rest ∧ PatternPiece.read none rest = .ok pieces ∧
      pattern = ofPieces (.literal '/' :: pieces) := by
  unfold parse at h
  split at h
  · next hrooted =>
    obtain ⟨rest, hrest⟩ := List.head?_eq_some_iff.mp hrooted
    obtain ⟨found, hread, rfl⟩ := Except.exists_of_map h
    rw [hrest, PatternPiece.read, if_neg (by decide), if_neg (by decide)] at hread
    obtain ⟨pieces, hpieces, rfl⟩ := Except.exists_of_map hread
    exact ⟨rest, pieces, hrest, hpieces, rfl⟩
  · contradiction

theorem rooted_of_parse (h : parse path = .ok pattern) :
    pattern.template.toList.head? = some '/' := by
  obtain ⟨rest, pieces, -, -, rfl⟩ := exists_of_parse h
  rw [ofPieces, String.toList_ofList]
  rfl

theorem ofPieces_text (text : List Char) (pieces : List PatternPiece) :
    ofPieces (text.map .literal ++ pieces) =
      ⟨String.ofList (text ++ pieces.flatMap PatternPiece.template),
        pieces.filterMap PatternPiece.numberName?⟩ := by
  have htext : (text.map PatternPiece.literal).flatMap PatternPiece.template = text := by
    rw [List.flatMap_map]
    exact List.flatMap_singleton' text
  have hnumbers : (text.map PatternPiece.literal).filterMap PatternPiece.numberName? = [] := by
    rw [List.filterMap_map]
    exact List.filterMap_eq_nil_iff.mpr fun _ _ => rfl
  rw [ofPieces, List.flatMap_append, List.filterMap_append, htext, hnumbers, List.nil_append]

/-- Text in front of a pattern is text in front of its template. -/
theorem parse_joined {mount : String} (hliteral : Blueprint.IsLiteral mount)
    (h : parse path = .ok pattern) :
    parse (Blueprint.joinedText mount path) = .ok (pattern.under mount) := by
  obtain ⟨rest, pieces, hpath, hread, rfl⟩ := exists_of_parse h
  have hroot : rest = [] ↔ pieces.flatMap PatternPiece.template = [] := by
    constructor
    · rintro rfl
      rw [← Except.ok.inj hread]
      rfl
    · intro hnil
      rw [PatternPiece.eq_nil_of_template hnil] at hread
      exact PatternPiece.eq_nil_of_read hread
  have hbehind : PatternPiece.read none (Blueprint.behind mount ('/' :: rest)) =
      .ok (if Blueprint.base mount ≠ [] ∧ rest = [] then [] else .literal '/' :: pieces) := by
    simp only [Blueprint.behind, List.cons.injEq, true_and]
    split
    · rfl
    · rw [PatternPiece.read, if_neg (by decide), if_neg (by decide), hread]
      rfl
  have hrooted : (Blueprint.base mount ++ Blueprint.behind mount ('/' :: rest)).head? = some '/' := by
    by_cases hbase : Blueprint.base mount = []
    · simp [hbase, Blueprint.behind]
    · rw [List.head?_append_of_ne_nil _ hbase, Blueprint.head?_base hbase]
  have htemplate : (ofPieces (.literal '/' :: pieces)).template.toList =
      '/' :: pieces.flatMap PatternPiece.template := String.toList_ofList ..
  rw [under, parse, Blueprint.joinedText, Blueprint.joinedText, htemplate, hpath, Blueprint.joined_eq,
    Blueprint.joined_eq, String.toList_ofList, if_pos hrooted, PatternPiece.read_append hliteral.plain,
    hbehind]
  change Except.ok (ofPieces _) = _
  rw [ofPieces_text, Blueprint.behind]
  simp only [List.cons.injEq, true_and, hroot]
  split
  · next hboth =>
    rw [PatternPiece.eq_nil_of_template hboth.2]
    rfl
  · rfl

end RoutePattern

/-! Templates. -/

namespace Template

theorem readWithin_text {text : List Char} (hfree : ∀ c ∈ text, ¬ IsBrace c) (glyphs : List Glyph) :
    readWithin (text.map (Glyph.mk · false) ++ glyphs).length none
        (text.map (Glyph.mk · false) ++ glyphs) =
      (readWithin glyphs.length none glyphs).map (text.map .literal ++ ·) := by
  induction text with
  | nil => exact Option.map_id'.symm
  | cons c text ih =>
      obtain ⟨hfirst, hlater⟩ := List.forall_mem_cons.mp hfree
      have hclosing : isClosing ⟨c, false⟩ = false := isClosing_of_not_isBrace hfirst
      have hopening : isOpening ⟨c, false⟩ = false := by
        rw [isOpening, beq_false_of_ne fun heq => hfirst (.inl heq), Bool.false_and]
      rw [List.map_cons, List.cons_append, List.length_cons, readWithin, hclosing, hopening,
        ih hlater]
      simp [Function.comp_def]

/-- Literal text in front of a template is read as it stands. -/
theorem parse?_text {text : List Char} (hfree : ∀ c ∈ text, ¬ IsBrace c) (behind : List Char) :
    parse? (String.ofList (text ++ behind)) =
      (parse? (String.ofList behind)).map (text.map .literal ++ ·) := by
  rw [parse?_eq, parse?_eq, unescape_free hfree, readWithin_text hfree]

theorem eq_nil_of_parse? {text : List Char} (h : parse? (String.ofList text) = some []) :
    text = [] := by
  rw [parse?_eq] at h
  refine unescape_eq_nil ?_
  generalize unescape text = glyphs at h
  generalize glyphs.length = fuel at h
  cases step_of_readWithin h with
  | nil => rfl
  | opening _ _ hname => exact absurd (hasWildcardAhead_of_readWithin hname) Bool.false_ne_true

/-- A template below a mount. -/
def under (mount : String) (template : Template) : Template :=
  (Blueprint.base mount).map .literal ++
    if Blueprint.base mount ≠ [] ∧ template = [.literal '/'] then [] else template

theorem parse?_slash (rest : List Char) : parse? (String.ofList ('/' :: rest)) =
    (parse? (String.ofList rest)).map (.literal '/' :: ·) := by
  have hfree : ∀ c ∈ ['/'], ¬ IsBrace c := by
    rintro c hmem (rfl | rfl) <;> simp at hmem
  exact parse?_text hfree rest

theorem parse?_joined {mount text : String} (hliteral : Blueprint.IsLiteral mount)
    (hrooted : text.toList.head? = some '/') :
    parse? (Blueprint.joinedText mount text) = (parse? text).map (under mount) := by
  obtain ⟨rest, hrest⟩ := List.head?_eq_some_iff.mp hrooted
  have htext : text = String.ofList ('/' :: rest) := by rw [← hrest, String.ofList_toList]
  rw [Blueprint.joinedText, hrest, Blueprint.joined_eq, parse?_text hliteral.not_isBrace, htext,
    parse?_slash, Blueprint.behind]
  simp only [List.cons.injEq, true_and]
  split
  · next hboth =>
    obtain ⟨hbase, rfl⟩ := hboth
    have hempty : parse? (String.ofList []) = some [] := rfl
    rw [hempty]
    simp [under, hbase]
  · next hother =>
    rw [parse?_slash, Option.map_map, Option.map_map]
    cases hparse : parse? (String.ofList rest) with
    | none => rfl
    | some later =>
        have hkept : ¬ (Blueprint.base mount ≠ [] ∧ later = []) := by
          rintro ⟨hbase, rfl⟩
          exact hother ⟨hbase, eq_nil_of_parse? hparse⟩
        simp [under, hkept]

theorem names_under (mount : String) (template : Template) :
    (template.under mount).names = template.names := by
  have htext : ∀ text : List Char, names (text.map .literal) = [] := by
    intro text
    rw [names, List.filterMap_map]
    exact List.filterMap_eq_nil_iff.mpr fun _ _ => rfl
  rw [under, names, List.filterMap_append, ← names, htext, List.nil_append]
  split
  · next hroot =>
    rw [hroot.2]
    rfl
  · rfl

variable {mount : String}

theorem RestLast.under {template : Template} (h : template.RestLast) :
    (template.under mount).RestLast := by
  refine restLast_text.mpr ?_
  split
  · trivial
  · exact h

theorem Spaced.under {template : Template} (h : template.Spaced) :
    (template.under mount).Spaced := by
  refine spaced_text.mpr ?_
  split
  · trivial
  · exact h

theorem Clashes.of_under {first second : Template} (hfirst : first ≠ []) (hsecond : second ≠ [])
    (h : Clashes (first.under mount) (second.under mount)) : Clashes first second := by
  have hbehind := h.of_text
  split at hbehind
  · next hroot =>
    split at hbehind
    · next hother =>
      rw [hroot.2, hother.2]
      exact .literal .ended
    · cases hbehind
      contradiction
  · split at hbehind
    · cases hbehind
      contradiction
    · exact hbehind

theorem parse?_ne_nil {text : String} {template : Template} (h : parse? text = some template)
    (hrooted : text.toList.head? = some '/') : ∃ later, template = .literal '/' :: later := by
  obtain ⟨rest, hrest⟩ := List.head?_eq_some_iff.mp hrooted
  rw [← String.ofList_toList (s := text), hrest, parse?_slash] at h
  obtain ⟨later, -, rfl⟩ := Option.map_eq_some_iff.mp h
  exact ⟨later, rfl⟩

variable {first second text : String}

theorem StandsAlone.joined (h : StandsAlone text) (hliteral : Blueprint.IsLiteral mount)
    (hrooted : text.toList.head? = some '/') : StandsAlone (Blueprint.joinedText mount text) := by
  obtain ⟨template, hparse, hlast, hspaced⟩ := h
  exact ⟨template.under mount, by rw [parse?_joined hliteral hrooted, hparse]; rfl, hlast.under,
    hspaced.under⟩

theorem TextsClash.of_joined (hliteral : Blueprint.IsLiteral mount)
    (hfirst : first.toList.head? = some '/') (hsecond : second.toList.head? = some '/')
    (h : TextsClash (Blueprint.joinedText mount first) (Blueprint.joinedText mount second)) :
    TextsClash first second := by
  obtain ⟨earlier, later, hearlier, hlater, hclash⟩ := h
  rw [parse?_joined hliteral hfirst] at hearlier
  rw [parse?_joined hliteral hsecond] at hlater
  obtain ⟨left, hleft, rfl⟩ := Option.map_eq_some_iff.mp hearlier
  obtain ⟨right, hright, rfl⟩ := Option.map_eq_some_iff.mp hlater
  refine ⟨left, right, hleft, hright, hclash.of_under ?_ ?_⟩
  · obtain ⟨behind, rfl⟩ := parse?_ne_nil hleft hfirst
    exact List.cons_ne_nil _ _
  · obtain ⟨behind, rfl⟩ := parse?_ne_nil hright hsecond
    exact List.cons_ne_nil _ _

/-- Templates that can stand in one table can stand in one below a mount. -/
theorem faultless_joined {texts : List String} (hliteral : Blueprint.IsLiteral mount)
    (hrooted : ∀ text ∈ texts, text.toList.head? = some '/') (h : Faultless AtFault texts) :
    Faultless AtFault (texts.map (Blueprint.joinedText mount)) := by
  obtain ⟨halone, happart⟩ := faultless_iff_pairwise.mp h
  refine faultless_iff_pairwise.mpr ⟨?_, List.pairwise_map.mpr ?_⟩
  · refine List.forall_mem_map.mpr fun text hmem => ?_
    exact (halone text hmem).joined hliteral (hrooted text hmem)
  · refine happart.imp_of_mem ?_
    intro first second hfirst hsecond hfree hclash
    exact hfree (hclash.of_joined hliteral (hrooted first hfirst) (hrooted second hsecond))

end Template

end Turnpike
