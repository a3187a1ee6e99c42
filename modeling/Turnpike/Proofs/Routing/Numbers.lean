import Mathlib.Data.List.Chain
import Turnpike.Proofs.Routing.Captured
import Turnpike.Proofs.Routing.Grammar
import Turnpike.Proofs.Routing.Passing
import Turnpike.Proofs.Text.Numeral

/-!
A path that gives each wildcard what it asks for.  No template has an angle bracket in it, which is no
number either and is drawn off by none.  That a number is drawn off by none has to be asked for; it is
so where all wildcards fill segments.
-/

namespace Turnpike

/-! Numbers. -/

namespace Number

/-- What reads as a signed number is digits, with or without a sign in front. -/
theorem numeral_of_signed? {bytes : Bytes} (h : (signed? bytes).isSome = true) :
    ∃ sign digits n, bytes = sign ++ digits ∧ sign ⊆ [43, 45] ∧ Numeral digits n := by
  obtain ⟨value, hvalue⟩ := Option.isSome_iff_exists.mp h
  unfold signed? at hvalue
  simp only at hvalue
  split at hvalue
  · next digits =>
    obtain ⟨_, hwhole, -⟩ := Option.bind_eq_some_iff.mp hvalue
    obtain ⟨_, hread, -⟩ := Option.map_eq_some_iff.mp hwhole
    obtain ⟨n, hn, -⟩ := Option.bind_eq_some_iff.mp hread
    exact ⟨[45], digits, n, rfl, by simp, natural?_eq_some_iff.mp hn⟩
  · next digits =>
    obtain ⟨_, hwhole, -⟩ := Option.bind_eq_some_iff.mp hvalue
    obtain ⟨n, hn, -⟩ := Option.map_eq_some_iff.mp hwhole
    exact ⟨[43], digits, n, rfl, by simp, natural?_eq_some_iff.mp hn⟩
  · obtain ⟨_, hwhole, -⟩ := Option.bind_eq_some_iff.mp hvalue
    obtain ⟨n, hn, -⟩ := Option.map_eq_some_iff.mp hwhole
    exact ⟨[], bytes, n, rfl, by simp, natural?_eq_some_iff.mp hn⟩

theorem numeral_zeros (n : Nat) : Numeral (List.replicate (n + 1) 48) 0 := by
  induction n with
  | zero => exact @Numeral.digit 48 rfl
  | succ n ih =>
      rw [List.replicate_succ']
      exact .concat ih rfl

theorem signed?_zeros (n : Nat) : signed? (List.replicate (n + 1) 48) = some 0 := by
  have hread : natural? (List.replicate (n + 1) 48) = some 0 :=
    natural?_eq_some_iff.mpr (numeral_zeros n)
  rw [List.replicate_succ] at hread ⊢
  simp only [signed?, hread]
  rfl

end Number

/-- The text reads as a number. -/
def IsNumber (value : List Char) : Prop :=
  (Number.signed? (Bytes.ofText (String.ofList value))).isSome = true

instance : DecidablePred IsNumber := fun _ => inferInstanceAs (Decidable (_ = true))

namespace IsNumber

variable {value : List Char}

theorem ne_nil (h : IsNumber value) : value ≠ [] := by
  rintro rfl
  contradiction

theorem slash_not_mem (h : IsNumber value) : '/' ∉ value := by
  intro hslash
  obtain ⟨sign, digits, n, hbytes, hsign, hdigits⟩ := Number.numeral_of_signed? h
  have hmem : (47 : Byte) ∈ sign ++ digits := by
    rw [← hbytes, Bytes.ofText, String.toList_ofList]
    exact List.mem_flatMap.mpr ⟨'/', hslash, by decide⟩
  rcases List.mem_append.mp hmem with hmem | hmem
  · have hlisted := hsign hmem
    contradiction
  · have hdigit := hdigits.isDigit _ hmem
    contradiction

theorem zeros (n : Nat) : IsNumber (List.replicate (n + 1) '0') := by
  have hbytes : ∀ n, (List.replicate n '0').flatMap String.utf8EncodeChar = List.replicate n 48 := by
    intro n
    induction n with
    | zero => rfl
    | succ n ih => rw [List.replicate_succ, List.flatMap_cons, ih]; rfl
  rw [IsNumber, Bytes.ofText, String.toList_ofList, hbytes, Number.signed?_zeros]
  rfl

/-- What a number can begin with. -/
def marks : List Char := "0123456789+-".toList

theorem head_mem {c : Char} (h : IsNumber (c :: value)) : c ∈ marks := by
  obtain ⟨sign, digits, n, hbytes, hsign, hdigits⟩ := Number.numeral_of_signed? h
  obtain ⟨b, later, hoctets⟩ := List.exists_cons_of_ne_nil (String.utf8EncodeChar_ne_nil (c := c))
  have hoctet : b ∈ String.utf8EncodeChar c := hoctets ▸ List.mem_cons_self ..
  have hmem : b ∈ sign ++ digits := by
    rw [← hbytes, Bytes.ofText, String.toList_ofList]
    exact List.mem_flatMap.mpr ⟨c, List.mem_cons_self .., hoctet⟩
  have hmark : b.toNat < 128 ∧ Char.ofNat b.toNat ∈ marks := by
    rcases List.mem_append.mp hmem with hmem | hmem
    · have hsigns : ∀ b ∈ ([43, 45] : Bytes), b.toNat < 128 ∧ Char.ofNat b.toNat ∈ marks := by
        decide +kernel
      exact hsigns b (hsign hmem)
    · have hdigits' : ∀ n < 58, 48 ≤ n → Char.ofNat n ∈ marks := by decide
      have hdigit := hdigits.isDigit b hmem
      simp only [Byte.isDigit, Bool.and_eq_true, decide_eq_true_eq, UInt8.le_iff_toNat_le] at hdigit
      have hmost : b.toNat < 58 := Nat.lt_succ_of_le hdigit.2
      exact ⟨Nat.lt_trans hmost (by decide), hdigits' _ hmost hdigit.1⟩
  rw [← Char.ofNat_toNat c, Template.toNat_of_octet hoctet hmark.1]
  exact hmark.2

end IsNumber

/-! No template has an angle bracket. -/

theorem WrittenPattern.open_not_mem (written : WrittenPattern) : '<' ∉ written.template := by
  obtain ⟨⟨lead, hlead⟩, slots, remainder⟩ := written
  have hname : ∀ name : ParamName, '<' ∉ name.val := by
    intro name hmem
    rcases name.property.2 _ hmem with hletter | hunderscore
    · contradiction
    · contradiction
  rw [template, List.mem_append, List.mem_append, List.mem_flatMap, not_or, not_or]
  refine ⟨hlead.1, ?_, ?_⟩
  · rintro ⟨⟨placeholder, behind⟩, -, hmem⟩
    have hbehind := behind.property.1
    simp [Placeholder.template, hname, hbehind] at hmem
  · cases remainder with
    | none => exact List.not_mem_nil
    | some name => simp [hname]

theorem RoutePattern.open_not_mem {text : String} {pattern : RoutePattern}
    (h : parse text = .ok pattern) : '<' ∉ pattern.template.toList := by
  unfold parse at h
  split at h
  · obtain ⟨pieces, hread, rfl⟩ := Except.exists_of_map h
    obtain ⟨written, -, rfl⟩ := WrittenPattern.exists_of_read hread
    rw [ofPieces, String.toList_ofList, written.template_pieces]
    exact written.open_not_mem
  · contradiction

namespace Template

theorem char_mem_of_unescape {text : List Char} {glyph : Glyph} (h : glyph ∈ unescape text) :
    glyph.char ∈ text := by
  fun_induction unescape text with
  | case1 rest ih | case2 rest ih =>
      rcases List.mem_cons.mp h with rfl | hlater
      · exact List.mem_cons_self ..
      · exact List.mem_cons_of_mem _ (List.mem_cons_of_mem _ (ih hlater))
  | case3 c rest _ _ ih =>
      rcases List.mem_cons.mp h with rfl | hlater
      · exact List.mem_cons_self ..
      · exact List.mem_cons_of_mem _ (ih hlater)
  | case4 => contradiction

theorem Reads.exists_glyph {seen? : Option (List Char)} {glyphs : List Glyph} {template : Template}
    (h : Reads seen? glyphs template) {c : Char} (hmem : .literal c ∈ template) :
    ∃ glyph ∈ glyphs, glyph.char = c := by
  induction h with
  | nil => contradiction
  | literal _ _ _ ih =>
      rcases List.mem_cons.mp hmem with hfirst | hlater
      · exact ⟨_, List.mem_cons_self .., (TemplateToken.literal.inj hfirst).symm⟩
      · obtain ⟨glyph, hglyph, hchar⟩ := ih hlater
        exact ⟨glyph, List.mem_cons_of_mem _ hglyph, hchar⟩
  | opening _ _ _ ih | name _ _ ih =>
      obtain ⟨glyph, hglyph, hchar⟩ := ih hmem
      exact ⟨glyph, List.mem_cons_of_mem _ hglyph, hchar⟩
  | closing _ htoken _ _ ih =>
      rcases List.mem_cons.mp hmem with rfl | hlater
      · have hliteral := wildcard?_isLiteral htoken
        contradiction
      · obtain ⟨glyph, hglyph, hchar⟩ := ih hlater
        exact ⟨glyph, List.mem_cons_of_mem _ hglyph, hchar⟩

theorem char_mem_of_parse? {text : String} {template : Template} (h : parse? text = some template)
    (hspaced : template.Spaced) {c : Char} (hmem : .literal c ∈ template) : c ∈ text.toList := by
  have hreads : Reads none (unescape text.toList) template :=
    reads_of_readWithin (fun _ => isBrace_of_isEscaped) h hspaced
  obtain ⟨glyph, hglyph, rfl⟩ := hreads.exists_glyph hmem
  exact char_mem_of_unescape hglyph

end Template

theorem PathParams.get?_cons (pair : String × String) (params : PathParams) (name : String) :
    PathParams.get? (pair :: params) name = if pair.1 = name then some pair.2 else params.get? name := by
  rw [get?, List.find?_cons]
  by_cases h : pair.1 = name
  · rw [beq_iff_eq.mpr h, if_pos h]
    rfl
  · rw [beq_eq_false_iff_ne.mpr h, if_neg h]
    rfl

namespace Branches

variable {α : Type} {branches : Branches α} {template later : Template}

/-- Numbers get through to the wildcards of some names: where one of the names stands first in a
template, there is a number that is drawn off by no branch which goes the same way. -/
def LetsNumbersTo (branches : Branches α) (template : Template) (numbers : List String) : Prop :=
  ∀ (way later : Template) (token : TemplateToken) (name : String),
    template = way ++ token :: later → token.name? = some name → name ∈ numbers → name ∉ way.names →
      ∃ value, IsNumber value ∧
        ∀ branch ∈ branches.along way, ¬ branch.1.DrawsOff value later.leadingText

/-- What a wildcard is given: a number where it has to be one, and otherwise what is no number. -/
structure Gives (numbers : List String) (name : String) (value : List Char) : Prop where
  number : name ∈ numbers → IsNumber value
  other : name ∉ numbers → ¬ IsNumber value

theorem Gives.of_cons {numbers : List String} {params : PathParams} {name other taken : String}
    {value : List Char} (hfirst : name = other → Gives numbers name value)
    (hlater : name ≠ other → params.get? other = some taken → Gives numbers other taken.toList)
    (hget : PathParams.get? ((name, String.ofList value) :: params) other = some taken) :
    Gives numbers other taken.toList := by
  rw [PathParams.get?_cons] at hget
  split at hget
  · next hsame =>
    obtain rfl := Option.some.inj hget
    rw [String.toList_ofList, ← hsame]
    exact hfirst hsame
  · next hother => exact hlater hother hget

/-- A value for a wildcard that no branch draws off. -/
theorem LetsNumbersTo.exists_value {numbers : List String} (h : branches.LetsNumbersTo template numbers)
    (hfree : ∀ branch ∈ branches, .literal '<' ∉ branch.1) {way : Template} {token : TemplateToken}
    {name : String} (htemplate : template = way ++ token :: later) (hname : token.name? = some name) :
    ∃ value, value ≠ [] ∧ '/' ∉ value ∧ (name ∉ way.names → Gives numbers name value) ∧
      ∀ branch ∈ branches.along way, ¬ branch.1.DrawsOff value later.leadingText := by
  by_cases hnumber : name ∈ numbers ∧ name ∉ way.names
  · obtain ⟨value, hvalue, hkept⟩ := h way later token name htemplate hname hnumber.1 hnumber.2
    exact ⟨value, hvalue.ne_nil, hvalue.slash_not_mem,
      fun _ => ⟨fun _ => hvalue, fun hother => absurd hnumber.1 hother⟩, hkept⟩
  · refine ⟨['<'], nofun, by decide, fun hfirst => ⟨?_, fun _ => by decide⟩, ?_⟩
    · exact fun hmem => absurd ⟨hmem, hfirst⟩ hnumber
    · intro branch hbranch
      obtain ⟨whole, hwhole, hsuffix⟩ := exists_suffix_of_along hbranch
      exact Template.not_drawsOff_of_not_mem (fun hmem => hfree _ hwhole (hsuffix.subset hmem)) _

/-- What the wildcards of a template are given first under each name. -/
def GivesAll (numbers : List String) (params : PathParams) : Prop :=
  ∀ name value, params.get? name = some value → Gives numbers name value.toList

/-- A path that goes to a template and gives its wildcards what they ask for. -/
theorem LetsNumbersTo.exists_passes {numbers : List String}
    (h : branches.LetsNumbersTo template numbers)
    (hfree : ∀ branch ∈ branches, .literal '<' ∉ branch.1) {way : Template}
    (htemplate : template = way ++ later) (hlast : later.RestLast) :
    ∃ path values, (branches.along way).Passes later path values ∧
      ∀ name value, name ∉ way.names →
        PathParams.get? (later.names.zip (values.map String.ofList)) name = some value →
          Gives numbers name value.toList := by
  induction later generalizing way with
  | nil => exact ⟨[], [], .nil, fun _ _ _ => nofun⟩
  | cons token later ih =>
      have hbelow : template = (way ++ [token]) ++ later := by
        rw [htemplate, List.append_assoc, List.singleton_append]
      cases token with
      | literal c =>
          obtain ⟨path, values, hpasses, hgives⟩ := ih hbelow hlast
          rw [along_concat] at hpasses
          refine ⟨c :: path, values, .literal hpasses, fun name value hfirst => ?_⟩
          refine hgives name value ?_
          simpa [Template.names, TemplateToken.name?] using hfirst
      | param name =>
          obtain ⟨value, hsome, hslash, hgiven, hkept⟩ := h.exists_value hfree htemplate rfl
          obtain ⟨path, values, hpasses, hgives⟩ := ih hbelow hlast
          rw [along_concat] at hpasses
          refine ⟨value ++ path, value :: values, .param hsome hslash hkept hpasses, ?_⟩
          intro other taken hfirst hget
          refine .of_cons (fun hsame => hgiven (hsame ▸ hfirst)) (fun hother => ?_) hget
          refine hgives other taken ?_
          simpa [Template.names, TemplateToken.name?, Ne.symm hother] using hfirst
      | rest name =>
          obtain ⟨value, hsome, -, hgiven, hkept⟩ := h.exists_value hfree htemplate rfl
          obtain rfl : later = [] := hlast
          refine ⟨value, [value], .rest hsome hkept, ?_⟩
          intro other taken hfirst hget
          have hnone : PathParams.get? [] other ≠ some taken := (Option.some_ne_none taken).symm
          exact .of_cons (fun hsame => hgiven (hsame ▸ hfirst)) (fun _ h => absurd h hnone) hget

end Branches

/-! Templates whose wildcards fill segments. -/

namespace Template

/-- Text stands beside text, and a wildcard beside slashes only. -/
def Segmented (template : Template) : Prop :=
  template.IsChain fun first second =>
    (first.isLiteral = true ∧ second.isLiteral = true) ∨ first = .literal '/' ∨ second = .literal '/'

instance : DecidablePred Segmented := fun _ => inferInstanceAs (Decidable (List.IsChain _ _))

theorem Segmented.leadingText_eq {name : String} {later : Template}
    (h : Segmented (.param name :: later)) (hsome : later.leadingText ≠ []) :
    later.leadingText = ['/'] := by
  cases later with
  | nil => contradiction
  | cons token later =>
      rcases (List.isChain_cons_cons.mp h).1 with ⟨hliteral, -⟩ | hslash | rfl
      · contradiction
      · contradiction
      · rfl

/-- A long row of zeros is drawn off by no part of such a template. -/
theorem Segmented.not_drawsOff {template later : Template} (h : template.Segmented)
    (hsuffix : later <:+ template) {n : Nat} (hlong : template.length ≤ n) (suffix : List Char) :
    ¬ later.DrawsOff (List.replicate (n + 1) '0') suffix := by
  have hlater : later.Segmented := h.suffix hsuffix
  have hlength := Nat.le_trans hsuffix.length_le hlong
  generalize hvalue : List.replicate (n + 1) '0' = value
  have hzeros : ∀ c ∈ value, c = '0' := by
    rw [← hvalue]
    exact fun c hc => List.eq_of_mem_replicate hc
  intro hdrawn
  cases hdrawn with
  | whole =>
      rw [← hvalue, List.length_append, List.length_map, List.length_replicate] at hlength
      omega
  | @front front behind token below hfront hsplit htoken =>
      obtain ⟨front, c, rfl⟩ := (List.eq_nil_or_concat front).resolve_left hfront
      have hzero : c = '0' := hzeros c (by simp [hsplit])
      rw [List.concat_eq_append, List.map_append, List.append_assoc] at hlater
      have hbeside := (List.isChain_append_cons_cons.mp hlater).2.1
      rcases hbeside with ⟨-, hliteral⟩ | hslash | hslash
      · rw [htoken] at hliteral
        contradiction
      · rw [hzero] at hslash
        contradiction
      · rw [hslash] at htoken
        contradiction
  | back hlonger _ hends =>
      have hslash := hlater.leadingText_eq (List.ne_nil_of_length_pos (Nat.zero_lt_of_lt hlonger))
      rw [hslash] at hlonger hends
      obtain rfl := List.eq_nil_of_length_eq_zero (Nat.lt_one_iff.mp hlonger)
      rw [List.append_nil] at hends
      have hzero := hzeros '/' (hends.subset (List.mem_singleton.mpr rfl))
      contradiction

end Template

namespace Branches

variable {α : Type} {branches : Branches α}

theorem length_le_size {branch : Branch α} (h : branch ∈ branches) :
    branch.1.length ≤ branches.size := by
  induction branches with
  | nil => contradiction
  | cons first branches ih =>
      rw [size_cons]
      rcases List.mem_cons.mp h with rfl | hlater
      · exact Nat.le_add_right ..
      · exact Nat.le_trans (ih hlater) (Nat.le_add_left ..)

theorem letsNumbersTo_of_segmented (h : ∀ branch ∈ branches, branch.1.Segmented) (template : Template)
    (numbers : List String) : branches.LetsNumbersTo template numbers := by
  intro way later token name _ _ _ _
  refine ⟨List.replicate (branches.size + 1) '0', IsNumber.zeros _, ?_⟩
  rintro ⟨below, entry⟩ hbranch
  obtain ⟨whole, hwhole, hsuffix⟩ := exists_suffix_of_along hbranch
  exact (h _ hwhole).not_drawsOff hsuffix (length_le_size hwhole) _

end Branches

end Turnpike
