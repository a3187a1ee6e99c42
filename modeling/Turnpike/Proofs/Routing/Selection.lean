import Turnpike.Routing.Table

/-!
What a path selects.  The walk through a table finds only templates that match the path, and what it
gives with one is what the wildcards capture.
-/

namespace Turnpike

namespace Template

/-- How a template matches a path, and what its wildcards capture. -/
inductive Matches : Template → List Char → List (List Char) → Prop
  | nil : Matches [] [] []
  | literal {c : Char} {later : Template} {path : List Char} {values : List (List Char)} :
      Matches later path values → Matches (.literal c :: later) (c :: path) values
  | param {name : String} {later : Template} {captured path : List Char}
      {values : List (List Char)} : captured ≠ [] → '/' ∉ captured → Matches later path values →
      Matches (.param name :: later) (captured ++ path) (captured :: values)
  | rest {name : String} {path : List Char} : path ≠ [] → Matches [.rest name] path [path]

/-- The rest of a path stands at the end only. -/
def RestLast : Template → Prop
  | [] => True
  | .literal _ :: later | .param _ :: later => RestLast later
  | .rest _ :: later => later = []

/-- Behind a parameter no wildcard stands in its segment. -/
def Spaced : Template → Prop
  | [] => True
  | .literal _ :: later | .rest _ :: later => Spaced later
  | .param _ :: later => hasWildcardAhead later = false ∧ Spaced later

theorem spaced_text {text : List Char} {later : Template} :
    Spaced (text.map .literal ++ later) ↔ later.Spaced := by
  induction text with
  | nil => rfl
  | cons c text ih => exact ih

theorem restLast_text {text : List Char} {later : Template} :
    RestLast (text.map .literal ++ later) ↔ later.RestLast := by
  induction text with
  | nil => rfl
  | cons c text ih => exact ih

theorem Matches.text {later : Template} {path : List Char} {values : List (List Char)}
    (h : later.Matches path values) (text : List Char) :
    Matches (text.map .literal ++ later) (text ++ path) values := by
  induction text with
  | nil => exact h
  | cons c text ih => exact .literal ih

end Template

namespace Branches

variable {α : Type} {branches : Branches α} {later : Template} {entry : α}

/-! What each step keeps. -/

theorem mem_afterLiteral {c : Char} :
    (later, entry) ∈ branches.afterLiteral c ↔ (.literal c :: later, entry) ∈ branches := by
  unfold afterLiteral
  rw [List.mem_filterMap]
  constructor
  · intro h
    obtain ⟨⟨_ | ⟨d | _ | _, rest⟩, found⟩, hmem, hkept⟩ := h
    · contradiction
    · simp only [Option.ite_none_right_eq_some, Option.some.injEq, Prod.mk.injEq] at hkept
      obtain ⟨rfl, rfl, rfl⟩ := hkept
      exact hmem
    · contradiction
    · contradiction
  · intro hmem
    exact ⟨_, hmem, if_pos rfl⟩

theorem mem_afterParam :
    (later, entry) ∈ branches.afterParam ↔ ∃ name, (.param name :: later, entry) ∈ branches := by
  unfold afterParam
  rw [List.mem_filterMap]
  constructor
  · intro h
    obtain ⟨⟨_ | ⟨_ | name | _, rest⟩, found⟩, hmem, hkept⟩ := h
    · contradiction
    · contradiction
    · obtain ⟨rfl, rfl⟩ := Prod.mk.inj (Option.some.inj hkept)
      exact ⟨name, hmem⟩
    · contradiction
  · intro h
    obtain ⟨name, hmem⟩ := h
    exact ⟨_, hmem, rfl⟩

theorem mem_afterText {text : List Char} :
    (later, entry) ∈ branches.afterText text ↔
      (text.map TemplateToken.literal ++ later, entry) ∈ branches := by
  unfold afterText
  induction text generalizing branches with
  | nil => rfl
  | cons c text ih => rw [List.foldl_cons, ih, mem_afterLiteral]; rfl

theorem ended?_eq_some (h : branches.ended? = some entry) : ([], entry) ∈ branches := by
  obtain ⟨⟨template, found⟩, hfind, rfl⟩ := Option.map_eq_some_iff.mp h
  have hempty := List.find?_some hfind
  obtain rfl := List.isEmpty_iff.mp hempty
  exact List.mem_of_find?_eq_some hfind

theorem ended?_eq_none : branches.ended? = none ↔ ∀ entry, ([], entry) ∉ branches := by
  rw [ended?, Option.map_eq_none_iff, List.find?_eq_none]
  constructor
  · intro h entry hmem
    exact h _ hmem rfl
  · intro h branch hmem hempty
    obtain ⟨template, entry⟩ := branch
    obtain rfl := List.isEmpty_iff.mp hempty
    exact h entry hmem

theorem head?_isRest {template : Template} :
    template.head?.any TemplateToken.isRest = true ↔ ∃ name later, template = .rest name :: later := by
  match template with
  | [] => simp
  | .literal c :: later => simp [TemplateToken.isRest]
  | .param name :: later => simp [TemplateToken.isRest]
  | .rest name :: later => simp [TemplateToken.isRest]

theorem rest?_eq_some (h : branches.rest? = some entry) :
    ∃ name later, (.rest name :: later, entry) ∈ branches := by
  obtain ⟨⟨template, found⟩, hfind, rfl⟩ := Option.map_eq_some_iff.mp h
  have hhead : template.head?.any TemplateToken.isRest = true := by
    simpa only using List.find?_some hfind
  obtain ⟨name, later, rfl⟩ := head?_isRest.mp hhead
  exact ⟨name, later, List.mem_of_find?_eq_some hfind⟩

theorem rest?_eq_none :
    branches.rest? = none ↔ ∀ name later entry, (.rest name :: later, entry) ∉ branches := by
  rw [rest?, Option.map_eq_none_iff, List.find?_eq_none]
  constructor
  · intro h name later entry hmem
    exact h _ hmem rfl
  · intro h branch hmem hrest
    obtain ⟨template, entry⟩ := branch
    obtain ⟨name, later, rfl⟩ := head?_isRest.mp hrest
    exact h name later entry hmem

theorem mem_suffixes {text : List Char} :
    text ∈ branches.suffixes ↔ text ≠ [] ∧ ∃ branch ∈ branches, branch.1.leadingText = text := by
  simp [suffixes, and_comm]

theorem exists_leadingText (template : Template) :
    ∃ later, template = template.leadingText.map TemplateToken.literal ++ later := by
  induction template with
  | nil => exact ⟨[], rfl⟩
  | cons token template ih =>
      cases token with
      | literal c =>
          obtain ⟨later, hlater⟩ := ih
          by_cases hslash : c = '/'
          · subst hslash
            exact ⟨template, rfl⟩
          · refine ⟨later, ?_⟩
            rw [Template.leadingText, if_neg hslash, List.map_cons, List.cons_append, ← hlater]
      | param name => exact ⟨_, rfl⟩
      | rest name => exact ⟨_, rfl⟩

/-! The segment of a parameter. -/

theorem longest_cons (text : List Char) (texts : List (List Char)) :
    longest (text :: texts) =
      match longest texts with
      | some other => if other.length > text.length then some other else some text
      | none => some text := rfl

theorem segment_cons_of_ne {c : Char} (h : c ≠ '/') (path : List Char) :
    segment (c :: path) = c :: segment path :=
  if_neg h

theorem longest_mem {texts : List (List Char)} {text : List Char} (h : longest texts = some text) :
    text ∈ texts := by
  induction texts generalizing text with
  | nil => contradiction
  | cons first texts ih =>
      rw [longest_cons] at h
      cases hother : longest texts with
      | none =>
          rw [hother] at h
          obtain rfl := Option.some.inj h
          exact List.mem_cons_self ..
      | some other =>
          rw [hother] at h
          simp only at h
          split at h
          · obtain rfl := Option.some.inj h
            exact List.mem_cons_of_mem _ (ih hother)
          · obtain rfl := Option.some.inj h
            exact List.mem_cons_self ..

theorem longest_eq_none {texts : List (List Char)} (h : longest texts = none) : texts = [] := by
  cases texts with
  | nil => rfl
  | cons first texts =>
      rw [longest_cons] at h
      split at h
      · split at h <;> contradiction
      · contradiction

/-- A segment ends in the first slash, or with the path. -/
theorem segment_eq (path : List Char) :
    ∃ text, '/' ∉ text ∧ ((segment path = text ++ ['/'] ∧ ∃ later, path = text ++ '/' :: later) ∨
      (segment path = text ∧ path = text)) := by
  induction path with
  | nil => exact ⟨[], List.not_mem_nil, .inr ⟨rfl, rfl⟩⟩
  | cons c path ih =>
      by_cases hslash : c = '/'
      · subst hslash
        exact ⟨[], List.not_mem_nil, .inl ⟨rfl, path, rfl⟩⟩
      · obtain ⟨text, htext, hcases⟩ := ih
        have hnot : '/' ∉ c :: text := by
          rw [List.mem_cons, not_or]
          exact ⟨Ne.symm hslash, htext⟩
        refine ⟨c :: text, hnot, ?_⟩
        rw [segment_cons_of_ne hslash]
        rcases hcases with ⟨hsegment, later, hpath⟩ | ⟨hsegment, hpath⟩
        · exact .inl ⟨by rw [hsegment, List.cons_append], later, by rw [hpath, List.cons_append]⟩
        · exact .inr ⟨by rw [hsegment], by rw [← hpath]⟩

theorem segment_append_slash {text : List Char} (h : '/' ∉ text) (path : List Char) :
    segment (text ++ '/' :: path) = text ++ ['/'] := by
  induction text with
  | nil => rfl
  | cons c text ih =>
      rw [List.mem_cons, not_or] at h
      rw [List.cons_append, segment_cons_of_ne (Ne.symm h.1), ih h.2, List.cons_append]

theorem segment_inj {first second left right : List Char} (hfirst : '/' ∉ first)
    (hsecond : '/' ∉ second) (h : first ++ '/' :: left = second ++ '/' :: right) :
    first = second ∧ left = right := by
  have hsegments := congrArg segment h
  rw [segment_append_slash hfirst, segment_append_slash hsecond] at hsegments
  obtain ⟨rfl, -⟩ := List.append_inj' hsegments rfl
  exact ⟨rfl, (List.cons_eq_cons.mp (List.append_cancel_left h)).2⟩

theorem segment_append_drop (path : List Char) :
    segment path ++ path.drop (segment path).length = path := by
  obtain ⟨text, -, ⟨hsegment, later, hpath⟩ | ⟨hsegment, hpath⟩⟩ := segment_eq path
  · rw [hsegment, hpath]
    simp
  · rw [hsegment]
    simp [hpath]

/-- What a parameter captures in front of a suffix of its segment. -/
structure Captures (segment suffix captured : List Char) : Prop where
  split : segment = captured ++ suffix
  nonempty : captured ≠ []
  slashless : '/' ∉ captured

theorem captures_of_suffix {path suffix : List Char} (hsuffix : suffix ≠ [])
    (hlength : suffix.length < (segment path).length) (hends : suffix <:+ segment path) :
    Captures (segment path) suffix
      ((segment path).take ((segment path).length - suffix.length)) := by
  obtain ⟨captured, hsplit⟩ := hends
  have htake : (segment path).take ((segment path).length - suffix.length) = captured := by
    rw [← hsplit]
    simp
  rw [htake]
  refine ⟨hsplit.symm, ?_, ?_⟩
  · rintro rfl
    rw [← hsplit] at hlength
    simp at hlength
  · intro hslash
    obtain ⟨text, htext, ⟨hsegment, -⟩ | ⟨hsegment, -⟩⟩ := segment_eq path
    · rw [hsegment] at hsplit
      obtain ⟨front, last, rfl⟩ := (List.eq_nil_or_concat suffix).resolve_left hsuffix
      rw [List.concat_eq_append, ← List.append_assoc] at hsplit
      obtain ⟨hfront, -⟩ := List.append_inj' hsplit rfl
      exact htext (hfront ▸ List.mem_append_left _ hslash)
    · rw [hsegment] at hsplit
      exact htext (hsplit ▸ List.mem_append_left _ hslash)

theorem suffixFor?_eq_some {segment suffix : List Char}
    (h : branches.suffixFor? segment = some suffix) :
    suffix ∈ branches.suffixes ∧ suffix.length < segment.length ∧ suffix <:+ segment := by
  have hmem := longest_mem h
  rw [List.mem_filter, Bool.and_eq_true, decide_eq_true_eq, List.isSuffixOf_iff_suffix] at hmem
  exact hmem

theorem suffixFor?_eq_none {segment : List Char} (h : branches.suffixFor? segment = none) :
    ∀ suffix ∈ branches.suffixes, suffix.length < segment.length → ¬ suffix <:+ segment := by
  intro suffix hmem hlength hends
  have hnone := longest_eq_none h
  rw [List.filter_eq_nil_iff] at hnone
  refine hnone suffix hmem ?_
  rw [Bool.and_eq_true, decide_eq_true_eq, List.isSuffixOf_iff_suffix]
  exact ⟨hlength, hends⟩

theorem endsInSlash_segment (path : List Char) (h : endsInSlash (segment path) = false) :
    segment path = path ∧ '/' ∉ path := by
  obtain ⟨text, htext, ⟨hsegment, -⟩ | ⟨hsegment, hpath⟩⟩ := segment_eq path
  · rw [hsegment] at h
    simp [endsInSlash] at h
  · rw [hsegment, hpath]
    exact ⟨rfl, htext⟩

/-! What is found matches. -/

/-- All that the walk does at a character of a path. -/
theorem findWithin_cons {fuel : Nat} {c : Char} {path : List Char} {values : List (List Char)}
    (h : findWithin (fuel + 1) branches (c :: path) = some (entry, values)) :
    findWithin fuel (branches.afterLiteral c) path = some (entry, values) ∨
    (branches.rest? = some entry ∧ values = [c :: path]) ∨
    (∃ suffix captured later, branches.afterParam.suffixFor? (segment (c :: path)) = some suffix ∧
      Captures (segment (c :: path)) suffix captured ∧ values = captured :: later ∧
      findWithin fuel (branches.afterParam.afterText suffix)
        ((c :: path).drop (segment (c :: path)).length) = some (entry, later)) ∨
    (branches.afterParam.ended? = some entry ∧ '/' ∉ c :: path ∧ values = [c :: path]) := by
  unfold findWithin at h
  split at h
  · next found hfound =>
    obtain rfl := Option.some.inj h
    exact .inl hfound
  · split at h
    · next found hrest =>
      obtain ⟨rfl, rfl⟩ := Prod.mk.inj (Option.some.inj h)
      exact .inr (.inl ⟨hrest, rfl⟩)
    · simp only at h
      split at h
      · contradiction
      · next hslash =>
        have hdrop : path.drop ((segment (c :: path)).length - 1) =
            (c :: path).drop (segment (c :: path)).length := by
          rw [segment_cons_of_ne hslash]
          rfl
        split at h
        · next suffix hsuffix =>
          obtain ⟨⟨found, later⟩, hfound, heq⟩ := Option.map_eq_some_iff.mp h
          obtain ⟨rfl, rfl⟩ := Prod.mk.inj heq
          obtain ⟨hmem, hlength, hends⟩ := suffixFor?_eq_some hsuffix
          have hcaptures := captures_of_suffix (mem_suffixes.mp hmem).1 hlength hends
          rw [hdrop] at hfound
          exact .inr (.inr (.inl ⟨suffix, _, later, hsuffix, hcaptures, rfl, hfound⟩))
        · split at h
          · contradiction
          · next hends =>
            obtain ⟨found, hended, heq⟩ := Option.map_eq_some_iff.mp h
            obtain ⟨rfl, rfl⟩ := Prod.mk.inj heq
            obtain ⟨hsegment, hnot⟩ := endsInSlash_segment _ (Bool.eq_false_iff.mpr hends)
            exact .inr (.inr (.inr ⟨hended, hnot, by rw [hsegment]⟩))

theorem findWithin_nil (fuel : Nat) (branches : Branches α) :
    findWithin fuel branches [] = branches.ended?.map fun entry => (entry, []) := by
  cases fuel <;> rfl

theorem matches_of_findWithin_nil {fuel : Nat} {values : List (List Char)}
    (h : findWithin fuel branches [] = some (entry, values)) :
    ∃ template, (template, entry) ∈ branches ∧ template.Matches [] values := by
  rw [findWithin_nil] at h
  obtain ⟨found, hended, heq⟩ := Option.map_eq_some_iff.mp h
  obtain ⟨rfl, rfl⟩ := Prod.mk.inj heq
  exact ⟨[], ended?_eq_some hended, .nil⟩

theorem matches_of_findWithin {fuel : Nat} {path : List Char} {values : List (List Char)}
    (hlast : ∀ template entry, (template, entry) ∈ branches → template.RestLast)
    (h : findWithin fuel branches path = some (entry, values)) :
    ∃ template, (template, entry) ∈ branches ∧ template.Matches path values := by
  induction fuel generalizing branches path values with
  | zero =>
      cases path with
      | nil => exact matches_of_findWithin_nil h
      | cons c path => contradiction
  | succ fuel ih =>
      cases path with
      | nil => exact matches_of_findWithin_nil h
      | cons c path =>
          rcases findWithin_cons h with hliteral | ⟨hrest, rfl⟩ |
            ⟨suffix, captured, later, hsuffix, hcaptures, rfl, hfound⟩ | ⟨hended, hslash, rfl⟩
          · have hbelow : ∀ template entry, (template, entry) ∈ branches.afterLiteral c →
                template.RestLast := by
              intro template entry hmem
              have hkept := hlast _ entry (mem_afterLiteral.mp hmem)
              exact hkept
            obtain ⟨template, hmem, hmatches⟩ := ih hbelow hliteral
            exact ⟨_, mem_afterLiteral.mp hmem, hmatches.literal⟩
          · obtain ⟨name, later, hmem⟩ := rest?_eq_some hrest
            obtain rfl : later = [] := hlast _ _ hmem
            exact ⟨_, hmem, .rest nofun⟩
          · have hbelow : ∀ template entry,
                (template, entry) ∈ branches.afterParam.afterText suffix → template.RestLast := by
              intro template entry hmem
              obtain ⟨name, hparam⟩ := mem_afterParam.mp (mem_afterText.mp hmem)
              have hkept := hlast _ entry hparam
              exact Template.restLast_text.mp hkept
            obtain ⟨template, hmem, hmatches⟩ := ih hbelow hfound
            obtain ⟨name, hparam⟩ := mem_afterParam.mp (mem_afterText.mp hmem)
            have hpath := segment_append_drop (c :: path)
            rw [hcaptures.split, List.append_assoc, ← hcaptures.split] at hpath
            rw [← hpath]
            exact ⟨_, hparam, .param hcaptures.nonempty hcaptures.slashless (hmatches.text suffix)⟩
          · obtain ⟨name, hparam⟩ := mem_afterParam.mp (ended?_eq_some hended)
            have hmatches : Template.Matches [.param name] ((c :: path) ++ []) [c :: path] :=
              .param nofun hslash .nil
            rw [List.append_nil] at hmatches
            exact ⟨_, hparam, hmatches⟩

end Branches

namespace Template

variable {later : Template} {path : List Char} {values others : List (List Char)}

theorem Matches.of_text {text : List Char}
    (h : Matches (text.map .literal ++ later) path values) :
    ∃ rest, path = text ++ rest ∧ later.Matches rest values := by
  induction text generalizing path with
  | nil => exact ⟨path, rfl, h⟩
  | cons c text ih =>
      cases h with
      | literal hbelow =>
          obtain ⟨rest, rfl, hlater⟩ := ih hbelow
          exact ⟨rest, rfl, hlater⟩

theorem Matches.of_param {name : String} (h : Matches (.param name :: later) path values) :
    ∃ captured rest below, path = captured ++ rest ∧ values = captured :: below ∧ '/' ∉ captured ∧
      later.Matches rest below := by
  cases h with
  | param _ hslashless hlater => exact ⟨_, _, _, rfl, rfl, hslashless, hlater⟩

/-- What stands behind a parameter up to the end of its segment. -/
theorem exists_text_of_not_ahead (h : later.hasWildcardAhead = false) :
    ∃ text : List Char, '/' ∉ text ∧ (later = text.map TemplateToken.literal ∨
      ∃ below, later = text.map TemplateToken.literal ++ .literal '/' :: below) := by
  induction later with
  | nil => exact ⟨[], List.not_mem_nil, .inl rfl⟩
  | cons token later ih =>
      cases token with
      | param name => contradiction
      | rest name => contradiction
      | literal c =>
          by_cases hslash : c = '/'
          · subst hslash
            exact ⟨[], List.not_mem_nil, .inr ⟨later, rfl⟩⟩
          · rw [hasWildcardAhead, bne_iff_ne.mpr hslash, Bool.true_and] at h
            obtain ⟨text, hfree, hends⟩ := ih h
            have hnot : '/' ∉ c :: text := by
              rw [List.mem_cons, not_or]
              exact ⟨Ne.symm hslash, hfree⟩
            refine ⟨c :: text, hnot, ?_⟩
            rcases hends with rfl | ⟨below, rfl⟩
            · exact .inl rfl
            · exact .inr ⟨below, rfl⟩

/-- A parameter takes all of its segment but the text behind it. -/
theorem captured_unique (hahead : later.hasWildcardAhead = false) {left right first second : List Char}
    (hleft : '/' ∉ left) (hright : '/' ∉ right) (h : left ++ first = right ++ second)
    (hfirst : later.Matches first values) (hsecond : later.Matches second others) :
    left = right ∧ first = second := by
  obtain ⟨text, hfree, rfl | ⟨below, rfl⟩⟩ := exists_text_of_not_ahead hahead
  · rw [← List.append_nil (text.map _)] at hfirst hsecond
    obtain ⟨_, rfl, hnil⟩ := hfirst.of_text
    obtain ⟨_, rfl, hend⟩ := hsecond.of_text
    cases hnil
    cases hend
    exact List.append_inj' h rfl
  · obtain ⟨_, rfl, hslash⟩ := hfirst.of_text
    obtain ⟨_, rfl, hend⟩ := hsecond.of_text
    cases hslash
    cases hend
    rw [← List.append_assoc, ← List.append_assoc] at h
    obtain ⟨hsegment, rfl⟩ := Branches.segment_inj
      (List.not_mem_append hleft hfree) (List.not_mem_append hright hfree) h
    exact ⟨List.append_cancel_right hsegment, rfl⟩

/-- A path leaves no choice of what is captured. -/
theorem Spaced.values_eq {template : Template} (hspaced : template.Spaced)
    (h : template.Matches path values) (hother : template.Matches path others) : values = others := by
  induction template generalizing path values others with
  | nil =>
      cases h
      cases hother
      rfl
  | cons token later ih =>
      cases token with
      | literal c =>
          cases h with
          | literal hlater =>
            cases hother with
            | literal hbelow => exact ih hspaced hlater hbelow
      | rest name =>
          cases h
          cases hother
          rfl
      | param name =>
          obtain ⟨left, first, below, rfl, rfl, hleft, hfirst⟩ := h.of_param
          obtain ⟨right, second, under, hsplit, rfl, hright, hsecond⟩ := hother.of_param
          obtain ⟨rfl, rfl⟩ := captured_unique hspaced.1 hleft hright hsplit hfirst hsecond
          rw [ih hspaced.2 hfirst hsecond]

end Template

end Turnpike
