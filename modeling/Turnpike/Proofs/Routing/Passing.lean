import Turnpike.Proofs.Routing.Precedence

/-!
How a path comes to one template among others.  At a wildcard another template may draw a value off:
with literal text that the value is, or that it begins with, or with a longer text behind a parameter.
A path whose values no template draws off passes the others by, and comes to its own.
-/

namespace Turnpike

theorem Branches.segment_of_slashless {text : List Char} (h : '/' ∉ text) : segment text = text := by
  obtain ⟨whole, -, ⟨-, later, rfl⟩ | ⟨hsegment, rfl⟩⟩ := segment_eq text
  · exact absurd List.mem_append_cons_self h
  · exact hsegment

namespace Template

/-- A template takes a value from a wildcard that stands where it begins itself, with that text behind
the wildcard in its segment. -/
inductive DrawsOff (value suffix : List Char) : Template → Prop
  | whole {later : Template} : DrawsOff value suffix (value.map .literal ++ later)
  | front {front behind : List Char} {token : TemplateToken} {later : Template} : front ≠ [] →
      value = front ++ behind → token.isLiteral = false →
      DrawsOff value suffix (front.map .literal ++ token :: later)
  | back {name : String} {later : Template} : suffix.length < later.leadingText.length →
      later.leadingText.length < value.length + suffix.length →
      later.leadingText <:+ value ++ suffix → DrawsOff value suffix (.param name :: later)

variable {template later : Template} {value path suffix : List Char} {values : List (List Char)}

/-- A template that matches a path goes along with what the path begins with, up to a wildcard. -/
theorem Matches.cases_front (h : template.Matches (value ++ path) values) :
    (∃ later, template = value.map .literal ++ later) ∨
      ∃ (front behind : List Char) (token : TemplateToken) (later : Template),
        value = front ++ behind ∧ token.isLiteral = false ∧
          template = front.map .literal ++ token :: later := by
  induction value generalizing template values with
  | nil => exact .inl ⟨template, rfl⟩
  | cons c value ih =>
      rcases h.cases_cons with ⟨later, rfl, hlater⟩ | ⟨name, later, rfl⟩ | ⟨name, rfl⟩
      · rcases ih hlater with ⟨below, rfl⟩ | ⟨front, behind, token, below, rfl, htoken, rfl⟩
        · exact .inl ⟨below, rfl⟩
        · exact .inr ⟨c :: front, behind, token, below, rfl, htoken, rfl⟩
      · exact .inr ⟨[], c :: value, _, later, rfl, rfl, rfl⟩
      · exact .inr ⟨[], c :: value, _, [], rfl, rfl, rfl⟩

theorem Matches.drawsOff {c : Char} (h : Matches (.literal c :: later) (value ++ path) values)
    (suffix : List Char) : DrawsOff value suffix (.literal c :: later) := by
  rcases h.cases_front with ⟨below, hbelow⟩ | ⟨front, behind, token, below, hvalue, htoken, hbelow⟩
  · rw [hbelow]
    exact .whole
  · have hfront : front ≠ [] := by
      rintro rfl
      obtain ⟨rfl, -⟩ := List.cons_eq_cons.mp hbelow
      contradiction
    rw [hbelow]
    exact .front hfront hvalue htoken

theorem leadingText_text {text : List Char} (hfree : '/' ∉ text) (later : Template) :
    leadingText (text.map .literal ++ later) = text ++ later.leadingText := by
  induction text with
  | nil => rfl
  | cons c text ih =>
      rw [List.mem_cons, not_or] at hfree
      rw [List.map_cons, List.cons_append, leadingText, if_neg (Ne.symm hfree.1), ih hfree.2]
      rfl

theorem eq_nil_of_leadingText (hahead : later.hasWildcardAhead = false)
    (h : later.leadingText = []) : later = [] := by
  match later with
  | [] => rfl
  | .literal c :: later =>
      rw [leadingText] at h
      split at h <;> contradiction

/-- Where no wildcard follows in the segment, the segment ends in the text in front of the others. -/
theorem Matches.segment_eq (h : later.Matches path values) (hahead : later.hasWildcardAhead = false)
    (hfree : '/' ∉ value) : Branches.segment (value ++ path) = value ++ later.leadingText := by
  obtain ⟨text, htext, rfl | ⟨below, rfl⟩⟩ := exists_text_of_not_ahead hahead
  · have hleading : leadingText (text.map .literal) = text := by
      simpa [leadingText] using leadingText_text htext []
    rw [← List.append_nil (text.map _)] at h
    obtain ⟨rest, rfl, hnil⟩ := h.of_text
    cases hnil
    rw [hleading, List.append_nil,
      Branches.segment_of_slashless (List.not_mem_append hfree htext)]
  · rw [leadingText_text htext]
    obtain ⟨rest, rfl, hslash⟩ := h.of_text
    cases hslash
    rw [← List.append_assoc, Branches.segment_append_slash (List.not_mem_append hfree htext),
      List.append_assoc]
    rfl

end Template

namespace Branches

variable {α : Type} {branches : Branches α} {template later : Template} {entry : α} {fuel : Nat}
  {c : Char} {name : String} {value path rest : List Char} {values : List (List Char)}

/-- A path matches a template, and at none of its wildcards a branch draws the value off. -/
inductive Passes : Branches α → Template → List Char → List (List Char) → Prop
  | nil {branches : Branches α} : Passes branches [] [] []
  | literal {branches : Branches α} {c : Char} {later : Template} {path : List Char}
      {values : List (List Char)} : Passes (branches.afterLiteral c) later path values →
      Passes branches (.literal c :: later) (c :: path) values
  | param {branches : Branches α} {name : String} {later : Template} {value path : List Char}
      {values : List (List Char)} : value ≠ [] → '/' ∉ value →
      (∀ branch ∈ branches, ¬ branch.1.DrawsOff value later.leadingText) →
      Passes branches.afterParam later path values →
      Passes branches (.param name :: later) (value ++ path) (value :: values)
  | rest {branches : Branches α} {name : String} {value : List Char} : value ≠ [] →
      (∀ branch ∈ branches, ¬ branch.1.DrawsOff value []) →
      Passes branches [.rest name] value [value]

theorem Passes.matches (h : Passes branches template path values) : template.Matches path values := by
  induction h with
  | nil => exact .nil
  | literal _ ih => exact .literal ih
  | param hsome hfree _ _ ih => exact .param hsome hfree ih
  | rest hsome _ => exact .rest hsome

/-- A branch that clashes with none but itself. -/
structure Singles (branches : Branches α) (template : Template) (entry : α) : Prop where
  mem : (template, entry) ∈ branches
  only : ∀ other found, (other, found) ∈ branches → template.Clashes other →
    other = template ∧ found = entry
  restLast : ∀ other found, (other, found) ∈ branches → other.RestLast
  spaced : template.Spaced

theorem Singles.literal (h : branches.Singles (.literal c :: later) entry) :
    (branches.afterLiteral c).Singles later entry where
  mem := mem_afterLiteral.mpr h.mem
  only other found hmem hclash := by
    obtain ⟨hsame, rfl⟩ := h.only _ found (mem_afterLiteral.mp hmem) (.literal hclash)
    exact ⟨(List.cons_eq_cons.mp hsame).2, rfl⟩
  restLast other found hmem := by
    have hlast := h.restLast _ found (mem_afterLiteral.mp hmem)
    exact hlast
  spaced := h.spaced

theorem Singles.param (h : branches.Singles (.param name :: later) entry) :
    branches.afterParam.Singles later entry where
  mem := mem_afterParam.mpr ⟨name, h.mem⟩
  only other found hmem hclash := by
    obtain ⟨second, hsecond⟩ := mem_afterParam.mp hmem
    obtain ⟨hsame, rfl⟩ := h.only _ found hsecond (.param hclash)
    exact ⟨(List.cons_eq_cons.mp hsame).2, rfl⟩
  restLast other found hmem := by
    obtain ⟨second, hsecond⟩ := mem_afterParam.mp hmem
    have hlast := h.restLast _ found hsecond
    exact hlast
  spaced := h.spaced.2

theorem Singles.ended? (h : branches.Singles [] entry) : branches.ended? = some entry := by
  obtain ⟨found, hfound⟩ := Option.ne_none_iff_exists'.mp
    (mt ended?_eq_none.mp fun hnone => hnone entry h.mem)
  rw [hfound, (h.only [] found (ended?_eq_some hfound) .ended).2]

theorem Singles.rest? (h : branches.Singles [.rest name] entry) : branches.rest? = some entry := by
  obtain ⟨found, hfound⟩ := Option.ne_none_iff_exists'.mp
    (mt rest?_eq_none.mp fun hnone => hnone name [] entry h.mem)
  obtain ⟨second, later, hsecond⟩ := rest?_eq_some hfound
  rw [hfound, (h.only _ found hsecond .rests).2]

theorem Singles.rest?_eq_none (h : branches.Singles (.param name :: later) entry) :
    branches.rest? = none := by
  refine Branches.rest?_eq_none.mpr ?_
  intro second below found hmem
  have hsame := (h.only _ found hmem .paramRest).1
  cases hsame

/-- Literal text does not go on where no branch draws the value off. -/
theorem findWithin_afterLiteral_eq_none {suffix : List Char}
    (hlast : ∀ other found, (other, found) ∈ branches → other.RestLast)
    (hkept : ∀ branch ∈ branches, ¬ branch.1.DrawsOff (c :: value) suffix) :
    findWithin fuel (branches.afterLiteral c) (value ++ path) = none := by
  have hbelow : ∀ other found, (other, found) ∈ branches.afterLiteral c → other.RestLast := by
    intro other found hmem
    have hrest := hlast _ found (mem_afterLiteral.mp hmem)
    exact hrest
  cases hfind : findWithin fuel (branches.afterLiteral c) (value ++ path) with
  | none => rfl
  | some found =>
      obtain ⟨other, hmem, hmatches⟩ := matches_of_findWithin hbelow hfind
      have hwhole : Template.Matches (.literal c :: other) ((c :: value) ++ path) found.2 :=
        .literal hmatches
      exact absurd (hwhole.drawsOff suffix) (hkept _ (mem_afterLiteral.mp hmem))

theorem length_le_longest {texts : List (List Char)} {text other : List Char}
    (h : longest texts = some text) (hmem : other ∈ texts) : other.length ≤ text.length := by
  induction texts generalizing text with
  | nil => contradiction
  | cons first texts ih =>
      rw [longest_cons] at h
      cases hlater : longest texts with
      | none =>
          rw [hlater] at h
          obtain rfl := longest_eq_none hlater
          obtain rfl := List.mem_singleton.mp hmem
          exact (Option.some.inj h) ▸ Nat.le_refl _
      | some second =>
          rw [hlater] at h
          simp only at h
          split at h
          · next hlonger =>
            obtain rfl := Option.some.inj h
            rcases List.mem_cons.mp hmem with rfl | hmem
            · exact Nat.le_of_lt hlonger
            · exact ih hlater hmem
          · next hshorter =>
            obtain rfl := Option.some.inj h
            rcases List.mem_cons.mp hmem with rfl | hmem
            · exact Nat.le_refl _
            · exact Nat.le_trans (ih hlater hmem) (Nat.le_of_not_lt hshorter)

theorem suffixFor?_isSome {segment suffix : List Char} (hmem : suffix ∈ branches.suffixes)
    (hlength : suffix.length < segment.length) (hends : suffix <:+ segment) :
    ∃ found, branches.suffixFor? segment = some found ∧ suffix.length ≤ found.length := by
  cases hfound : branches.suffixFor? segment with
  | none => exact absurd hends (suffixFor?_eq_none hfound suffix hmem hlength)
  | some found =>
      refine ⟨found, rfl, length_le_longest hfound ?_⟩
      rw [List.mem_filter, Bool.and_eq_true, decide_eq_true_eq, List.isSuffixOf_iff_suffix]
      exact ⟨hmem, hlength, hends⟩

/-- What a suffix leaves that is chosen for a segment, is not drawn off by a longer one. -/
theorem length_suffixFor?_le {suffix found : List Char}
    (hkept : ∀ branch ∈ branches, ¬ branch.1.DrawsOff value suffix)
    (hfound : branches.afterParam.suffixFor? (value ++ suffix) = some found) :
    found.length ≤ suffix.length := by
  obtain ⟨hmem, hlength, hends⟩ := suffixFor?_eq_some hfound
  obtain ⟨-, ⟨other, entry⟩, hother, rfl⟩ := mem_suffixes.mp hmem
  obtain ⟨name, hparam⟩ := mem_afterParam.mp hother
  rw [List.length_append] at hlength
  exact Nat.le_of_not_lt fun hlonger => hkept _ hparam (.back hlonger hlength hends)

theorem suffixFor?_eq_leadingText (hmem : (.param name :: later, entry) ∈ branches)
    (hsome : value ≠ []) (hleading : later.leadingText ≠ [])
    (hkept : ∀ branch ∈ branches, ¬ branch.1.DrawsOff value later.leadingText) :
    branches.afterParam.suffixFor? (value ++ later.leadingText) = some later.leadingText := by
  have hbelow : later.leadingText ∈ branches.afterParam.suffixes :=
    mem_suffixes.mpr ⟨hleading, _, mem_afterParam.mpr ⟨name, hmem⟩, rfl⟩
  have hlength : later.leadingText.length < (value ++ later.leadingText).length := by
    rw [List.length_append]
    exact Nat.lt_add_of_pos_left (List.length_pos_iff.mpr hsome)
  obtain ⟨found, hfound, hlonger⟩ := suffixFor?_isSome hbelow hlength (List.suffix_append ..)
  have hsame := Nat.le_antisymm (length_suffixFor?_le hkept hfound) hlonger
  rw [hfound]
  exact congrArg some
    ((List.suffix_of_suffix_length_le (suffixFor?_eq_some hfound).2.2 (List.suffix_append ..)
      (Nat.le_of_eq hsame)).eq_of_length hsame)

theorem suffixFor?_eq_none_of_kept (hkept : ∀ branch ∈ branches, ¬ branch.1.DrawsOff value []) :
    branches.afterParam.suffixFor? value = none := by
  cases hfound : branches.afterParam.suffixFor? value with
  | none => rfl
  | some found =>
      have hshort := length_suffixFor?_le hkept ((List.append_nil value).symm ▸ hfound)
      have hmem := (suffixFor?_eq_some hfound).1
      exact absurd (List.eq_nil_of_length_eq_zero (Nat.le_zero.mp hshort)) (mem_suffixes.mp hmem).1

/-- What a step of the walk comes to where neither literal text nor the rest of the path goes on. -/
theorem findWithin_param (hliteral : findWithin fuel (branches.afterLiteral c) path = none)
    (hrest : branches.rest? = none) (hslash : c ≠ '/') :
    findWithin (fuel + 1) branches (c :: path) =
      match branches.afterParam.suffixFor? (segment (c :: path)) with
      | some suffix =>
        (findWithin fuel (branches.afterParam.afterText suffix)
          (path.drop ((segment (c :: path)).length - 1))).map fun found =>
            (found.1, (segment (c :: path)).take ((segment (c :: path)).length - suffix.length) ::
              found.2)
      | none =>
        if endsInSlash (segment (c :: path)) then none
        else branches.afterParam.ended?.map fun entry => (entry, [segment (c :: path)]) := by
  rw [findWithin, hliteral, hrest]
  exact if_neg hslash

/-- The walk goes on behind the text that the segment ends in. -/
theorem Singles.findWithin_param (h : branches.Singles (.param name :: later) entry)
    (hsome : value ≠ []) (hfree : '/' ∉ value)
    (hkept : ∀ branch ∈ branches, ¬ branch.1.DrawsOff value later.leadingText)
    (hmatches : later.Matches path values) (hpath : path = later.leadingText ++ rest)
    (hbelow : findWithin fuel (branches.afterParam.afterText later.leadingText) rest =
      some (entry, values)) :
    findWithin (fuel + 1) branches (value ++ path) = some (entry, value :: values) := by
  have hsegment := hmatches.segment_eq h.spaced.1 hfree
  obtain ⟨c, value, rfl⟩ := List.exists_cons_of_ne_nil hsome
  have hslash : c ≠ '/' := by
    rintro rfl
    exact hfree (List.mem_cons_self ..)
  rw [List.cons_append] at hsegment ⊢
  rw [Branches.findWithin_param (findWithin_afterLiteral_eq_none h.restLast hkept) h.rest?_eq_none
    hslash, hsegment]
  by_cases hleading : later.leadingText = []
  · obtain rfl := Template.eq_nil_of_leadingText h.spaced.1 hleading
    cases hmatches
    have hends : ¬ endsInSlash (c :: value) = true := fun hends =>
      hfree (List.mem_of_getLast? (beq_iff_eq.mp hends))
    rw [hleading] at hkept
    rw [hleading, List.append_nil, suffixFor?_eq_none_of_kept hkept]
    simp only [if_neg hends, h.param.ended?, Option.map_some]
  · have hdrop : (value ++ path).drop ((c :: value ++ later.leadingText).length - 1) = rest := by
      rw [hpath, ← List.append_assoc]
      simp
    have htake : (c :: value ++ later.leadingText).take
        ((c :: value ++ later.leadingText).length - later.leadingText.length) = c :: value := by
      rw [List.length_append, Nat.add_sub_cancel, List.take_left]
    rw [suffixFor?_eq_leadingText h.mem hsome hleading hkept]
    simp only [hdrop, htake, hbelow, Option.map_some]

theorem Singles.findWithin_rest (h : branches.Singles [.rest name] entry) (hsome : value ≠ [])
    (hkept : ∀ branch ∈ branches, ¬ branch.1.DrawsOff value []) :
    findWithin (fuel + 1) branches value = some (entry, [value]) := by
  obtain ⟨c, value, rfl⟩ := List.exists_cons_of_ne_nil hsome
  have hliteral : findWithin fuel (branches.afterLiteral c) (value ++ []) = none :=
    findWithin_afterLiteral_eq_none h.restLast hkept
  rw [List.append_nil] at hliteral
  rw [findWithin, hliteral, h.rest?]

theorem Singles.text {text : List Char}
    (h : branches.Singles (text.map .literal ++ template) entry) :
    (branches.afterText text).Singles template entry := by
  induction text generalizing branches with
  | nil => exact h
  | cons c text ih => exact ih h.literal

theorem Passes.of_text {text : List Char}
    (h : Passes branches (text.map .literal ++ template) path values) :
    ∃ rest, path = text ++ rest ∧ Passes (branches.afterText text) template rest values := by
  induction text generalizing branches path with
  | nil => exact ⟨path, rfl, h⟩
  | cons c text ih =>
      cases h with
      | literal hlater =>
          obtain ⟨rest, rfl, hrest⟩ := ih hlater
          exact ⟨rest, rfl, hrest⟩

/-- A path that passes all branches by comes to its own. -/
theorem Passes.findWithin_eq (h : Passes branches template path values)
    (hsingles : branches.Singles template entry) (hfuel : path.length ≤ fuel) :
    findWithin fuel branches path = some (entry, values) := by
  induction fuel generalizing branches template path values with
  | zero =>
      obtain rfl := List.length_eq_zero_iff.mp (Nat.le_zero.mp hfuel)
      obtain rfl := h.matches.eq_nil
      cases h
      rw [findWithin_nil, hsingles.ended?, Option.map_some]
  | succ fuel ih =>
      cases h with
      | nil => rw [findWithin_nil, hsingles.ended?, Option.map_some]
      | literal hlater =>
          rw [findWithin, ih hlater hsingles.literal (Nat.le_of_succ_le_succ hfuel)]
      | @param _ _ later value path values hsome hfree hkept hlater =>
          obtain ⟨below, hbelow⟩ := exists_leadingText later
          obtain ⟨rest, hpath, hrest⟩ :
              ∃ rest, path = later.leadingText ++ rest ∧ Passes _ below rest values :=
            Passes.of_text (hbelow ▸ hlater)
          have hlength := List.length_pos_iff.mpr hsome
          rw [hpath, List.length_append, List.length_append] at hfuel
          refine hsingles.findWithin_param hsome hfree hkept hlater.matches hpath (ih hrest ?_ ?_)
          · exact Singles.text (hbelow ▸ hsingles.param)
          · omega
      | rest hsome hkept => exact hsingles.findWithin_rest hsome hkept

/-! Branches on the way to a place of a template. -/

def after (branches : Branches α) : TemplateToken → Branches α
  | .literal c => branches.afterLiteral c
  | .param _ => branches.afterParam
  | .rest _ => []

/-- What is left of the branches that go the same way. -/
def along (branches : Branches α) (way : Template) : Branches α := way.foldl after branches

theorem along_concat (branches : Branches α) (way : Template) (token : TemplateToken) :
    branches.along (way ++ [token]) = (branches.along way).after token := by
  rw [along, List.foldl_append]
  rfl

theorem exists_suffix_of_along {way : Template} (h : (later, entry) ∈ branches.along way) :
    ∃ template, (template, entry) ∈ branches ∧ later <:+ template := by
  induction way generalizing branches with
  | nil => exact ⟨later, h, List.suffix_rfl⟩
  | cons token way ih =>
      obtain ⟨below, hbelow, hsuffix⟩ := ih h
      cases token with
      | literal c =>
          exact ⟨_, mem_afterLiteral.mp hbelow, hsuffix.trans (List.suffix_cons ..)⟩
      | param name =>
          obtain ⟨second, hsecond⟩ := mem_afterParam.mp hbelow
          exact ⟨_, hsecond, hsuffix.trans (List.suffix_cons ..)⟩
      | rest name => contradiction

end Branches

/-- A character by itself is drawn off only where it stands in a template. -/
theorem Template.not_drawsOff_of_not_mem {template : Template} {c : Char}
    (h : TemplateToken.literal c ∉ template) (suffix : List Char) :
    ¬ template.DrawsOff [c] suffix := by
  generalize hvalue : [c] = value
  rintro (_ | ⟨hfront, hsplit, -⟩ | ⟨hlonger, hshorter, -⟩)
  · subst hvalue
    exact h (List.mem_append_left _ (List.mem_singleton.mpr rfl))
  · obtain ⟨d, front, rfl⟩ := List.exists_cons_of_ne_nil hfront
    obtain ⟨rfl, -⟩ := List.cons_eq_cons.mp (hvalue.trans hsplit)
    exact h (List.mem_append_left _ (List.mem_cons_self ..))
  · subst hvalue
    rw [List.length_singleton] at hshorter
    omega

/-- Where the path is to end, or a parameter is to take all that is left, no value is drawn off. -/
theorem Template.not_drawsOff_of_last {template : Template} {value : List Char}
    (h : template = [] ∨ ∃ name, template = [.param name]) (hsome : value ≠ [])
    (suffix : List Char) : ¬ template.DrawsOff value suffix := by
  have hhead : ∀ text later, text ≠ [] → template ≠ text.map .literal ++ later := by
    rintro text later htext rfl
    obtain ⟨c, text, rfl⟩ := List.exists_cons_of_ne_nil htext
    rcases h with h | ⟨name, h⟩
    · contradiction
    · cases h
  intro hdrawn
  cases hdrawn with
  | whole => exact hhead _ _ hsome rfl
  | front hfront => exact hhead _ _ hfront rfl
  | back hlonger =>
      rcases h with h | ⟨name, h⟩
      · contradiction
      · cases h
        contradiction

end Turnpike
