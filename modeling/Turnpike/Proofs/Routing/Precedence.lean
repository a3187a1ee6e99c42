import Turnpike.Proofs.Routing.Selection

/-!
Which of the templates that match a path is selected.  If parameters reach to the end of their
segments, the walk finds a template whenever one matches, and the one it finds goes before all others
that match: literal text before a parameter, a parameter before the rest of the path.
-/

namespace Turnpike

namespace Template

/-- Every parameter reaches to the end of its segment. -/
def Plain : Template → Prop
  | [] => True
  | .literal _ :: later | .rest _ :: later => Plain later
  | .param _ :: later => (∀ token ∈ later.head?, token = .literal '/') ∧ Plain later

/-- One template goes before another where they part. -/
inductive Leads : Template → Template → Prop
  | ended : Leads [] []
  | literal {c : Char} {first second : Template} :
      Leads first second → Leads (.literal c :: first) (.literal c :: second)
  | param {name other : String} {first second : Template} :
      Leads first second → Leads (.param name :: first) (.param other :: second)
  | rest {name other : String} : Leads [.rest name] [.rest other]
  | literalParam {c : Char} {name : String} {first second : Template} :
      Leads (.literal c :: first) (.param name :: second)
  | literalRest {c : Char} {name : String} {first second : Template} :
      Leads (.literal c :: first) (.rest name :: second)
  | paramRest {name other : String} {first second : Template} :
      Leads (.param name :: first) (.rest other :: second)

/-- Two templates cannot be told apart: they part nowhere, or at the rest of a path. -/
inductive Clashes : Template → Template → Prop
  | ended : Clashes [] []
  | literal {c : Char} {first second : Template} :
      Clashes first second → Clashes (.literal c :: first) (.literal c :: second)
  | param {name other : String} {first second : Template} :
      Clashes first second → Clashes (.param name :: first) (.param other :: second)
  | rests {name other : String} {first second : Template} :
      Clashes (.rest name :: first) (.rest other :: second)
  | paramRest {name other : String} {first second : Template} :
      Clashes (.param name :: first) (.rest other :: second)
  | restParam {name other : String} {first second : Template} :
      Clashes (.rest name :: first) (.param other :: second)

theorem Clashes.symm {first second : Template} (h : Clashes first second) :
    Clashes second first := by
  induction h with
  | ended => exact .ended
  | literal _ ih => exact .literal ih
  | param _ ih => exact .param ih
  | rests => exact .rests
  | paramRest => exact .restParam
  | restParam => exact .paramRest

theorem Leads.clashes {first second : Template} (h : Leads first second) :
    Leads second first → Clashes first second := by
  induction h with
  | ended => exact fun _ => .ended
  | literal _ ih =>
      intro hback
      cases hback with
      | literal hlater => exact .literal (ih hlater)
  | param _ ih =>
      intro hback
      cases hback with
      | param hlater => exact .param (ih hlater)
  | rest => exact fun _ => .rests
  | literalParam => exact nofun
  | literalRest => exact nofun
  | paramRest => exact fun _ => .paramRest

theorem Matches.cases_cons {template : Template} {c : Char} {path : List Char}
    {values : List (List Char)} (h : template.Matches (c :: path) values) :
    (∃ later, template = .literal c :: later ∧ Matches later path values) ∨
    (∃ name later, template = .param name :: later) ∨
    (∃ name, template = [.rest name]) := by
  generalize hwhole : c :: path = whole at h
  cases h with
  | nil => contradiction
  | literal hlater =>
      obtain ⟨rfl, rfl⟩ := List.cons_eq_cons.mp hwhole
      exact .inl ⟨_, rfl, hlater⟩
  | param => exact .inr (.inl ⟨_, _, rfl⟩)
  | rest => exact .inr (.inr ⟨_, rfl⟩)

/-- What a parameter takes that reaches to the end of its segment. -/
inductive TakesSegment (later : Template) (path : List Char) (values : List (List Char)) : Prop
  | last : later = [] → path ≠ [] → '/' ∉ path → values = [path] → TakesSegment later path values
  | inner {captured rest : List Char} {below : Template} {others : List (List Char)} :
      later = .literal '/' :: below → captured ≠ [] → '/' ∉ captured →
      path = captured ++ '/' :: rest → values = captured :: others → below.Matches rest others →
      TakesSegment later path values

theorem Plain.takesSegment {name : String} {later : Template} (hplain : Plain (.param name :: later))
    {path : List Char} {values : List (List Char)}
    (h : Matches (.param name :: later) path values) : TakesSegment later path values := by
  cases h with
  | param hnonempty hslashless hlater =>
      match later, hplain.1 with
      | [], _ =>
          cases hlater
          rw [List.append_nil]
          exact .last rfl hnonempty hslashless rfl
      | token :: below, hhead =>
          obtain rfl : token = .literal '/' := hhead token rfl
          cases hlater with
          | literal hbelow => exact .inner rfl hnonempty hslashless rfl rfl hbelow

theorem Matches.eq_nil {template : Template} {values : List (List Char)}
    (h : template.Matches [] values) : template = [] := by
  generalize hwhole : ([] : List Char) = whole at h
  cases h with
  | nil => rfl
  | literal => contradiction
  | param hnonempty => exact absurd (List.append_eq_nil_iff.mp hwhole.symm).1 hnonempty
  | rest hnonempty => exact absurd hwhole.symm hnonempty

end Template

namespace Branches

variable {α : Type} {branches : Branches α} {entry : α} {fuel : Nat} {c : Char} {path : List Char}

/-- Branches that a path can choose among: any two of them part before a path is at its rest. -/
structure Ordered (branches : Branches α) : Prop where
  plain : ∀ template entry, (template, entry) ∈ branches → template.Plain
  restLast : ∀ template entry, (template, entry) ∈ branches → template.RestLast
  apart : ∀ template entry other found, (template, entry) ∈ branches → (other, found) ∈ branches →
    template.Clashes other → (template, entry) = (other, found)

theorem Ordered.afterLiteral (h : branches.Ordered) (c : Char) : (branches.afterLiteral c).Ordered where
  plain later entry hmem := by
    have hplain := h.plain _ entry (mem_afterLiteral.mp hmem)
    exact hplain
  restLast later entry hmem := by
    have hlast := h.restLast _ entry (mem_afterLiteral.mp hmem)
    exact hlast
  apart later entry other found hmem hother hclash := by
    have hsame := h.apart _ entry _ found (mem_afterLiteral.mp hmem) (mem_afterLiteral.mp hother)
      (.literal hclash)
    obtain ⟨hlater, rfl⟩ := Prod.mk.inj hsame
    rw [(List.cons_eq_cons.mp hlater).2]

theorem Ordered.afterParam (h : branches.Ordered) : branches.afterParam.Ordered where
  plain later entry hmem := by
    obtain ⟨name, hparam⟩ := mem_afterParam.mp hmem
    exact (h.plain _ entry hparam).2
  restLast later entry hmem := by
    obtain ⟨name, hparam⟩ := mem_afterParam.mp hmem
    have hlast := h.restLast _ entry hparam
    exact hlast
  apart later entry other found hmem hother hclash := by
    obtain ⟨name, hparam⟩ := mem_afterParam.mp hmem
    obtain ⟨second, hsecond⟩ := mem_afterParam.mp hother
    obtain ⟨hlater, rfl⟩ := Prod.mk.inj (h.apart _ entry _ found hparam hsecond (.param hclash))
    rw [(List.cons_eq_cons.mp hlater).2]

/-- What a path has to select: a branch that goes before all others that match, or none matches. -/
inductive Selects (branches : Branches α) (path : List Char) :
    Option (α × List (List Char)) → Prop
  | first {template : Template} {entry : α} {values : List (List Char)} :
      (template, entry) ∈ branches → template.Matches path values →
      (∀ other found others, (other, found) ∈ branches → other.Matches path others →
        template.Leads other) →
      Selects branches path (some (entry, values))
  | unmatched : (∀ template entry values, (template, entry) ∈ branches → ¬ template.Matches path values) →
      Selects branches path none

theorem selects_nil (branches : Branches α) :
    Selects branches [] (branches.ended?.map fun entry => (entry, [])) := by
  cases hended : branches.ended? with
  | some entry =>
      refine .first (ended?_eq_some hended) .nil ?_
      intro other found others _ hmatches
      rw [hmatches.eq_nil]
      exact .ended
  | none =>
      refine .unmatched ?_
      intro template entry values hmem hmatches
      obtain rfl := hmatches.eq_nil
      exact ended?_eq_none.mp hended entry hmem

theorem Selects.literal {found : α × List (List Char)}
    (h : Selects (branches.afterLiteral c) path (some found)) :
    Selects branches (c :: path) (some found) := by
  cases h with
  | first hmem hmatches hleads =>
      refine .first (mem_afterLiteral.mp hmem) hmatches.literal ?_
      intro other found others hother hsecond
      rcases hsecond.cases_cons with ⟨later, rfl, hlater⟩ | ⟨name, later, rfl⟩ | ⟨name, rfl⟩
      · exact .literal (hleads later found others (mem_afterLiteral.mpr hother) hlater)
      · exact .literalParam
      · exact .literalRest

/-- No literal text goes on with the path. -/
theorem Selects.rest (hordered : branches.Ordered)
    (hliteral : Selects (branches.afterLiteral c) path none) (hrest : branches.rest? = some entry) :
    Selects branches (c :: path) (some (entry, [c :: path])) := by
  obtain ⟨name, later, hmem⟩ := rest?_eq_some hrest
  obtain rfl : later = [] := hordered.restLast _ entry hmem
  refine .first hmem (.rest nofun) ?_
  intro other found others hother hsecond
  cases hliteral with
  | unmatched hnone =>
    rcases hsecond.cases_cons with ⟨later, rfl, hlater⟩ | ⟨second, later, rfl⟩ | ⟨second, rfl⟩
    · exact absurd hlater (hnone later found others (mem_afterLiteral.mpr hother))
    · exact absurd (hordered.apart _ entry _ found hmem hother .restParam) nofun
    · exact .rest

/-- Every branch that goes on with the path has a parameter next, which takes a segment. -/
def OnlyParams (branches : Branches α) (path : List Char) : Prop :=
  ∀ template entry values, (template, entry) ∈ branches → template.Matches path values →
    ∃ name later, template = .param name :: later ∧ template.Plain ∧
      Template.TakesSegment later path values

theorem onlyParams (hordered : branches.Ordered)
    (hliteral : Selects (branches.afterLiteral c) path none) (hrest : branches.rest? = none) :
    OnlyParams branches (c :: path) := by
  intro template entry values hmem hmatches
  cases hliteral with
  | unmatched hnone =>
    rcases hmatches.cases_cons with ⟨later, rfl, hlater⟩ | ⟨name, later, rfl⟩ | ⟨name, rfl⟩
    · exact absurd hlater (hnone later entry values (mem_afterLiteral.mpr hmem))
    · have hplain := hordered.plain _ entry hmem
      exact ⟨name, later, rfl, hplain, hplain.takesSegment hmatches⟩
    · exact absurd hmem (rest?_eq_none.mp hrest name [] entry)

theorem OnlyParams.below {captured rest : List Char} {template : Template}
    {values : List (List Char)} (h : OnlyParams branches (captured ++ '/' :: rest))
    (hslashless : '/' ∉ captured) (hmem : (template, entry) ∈ branches)
    (hmatches : template.Matches (captured ++ '/' :: rest) values) :
    ∃ name below others, template = .param name :: .literal '/' :: below ∧
      Template.Matches below rest others ∧
      (below, entry) ∈ branches.afterParam.afterLiteral '/' := by
  obtain ⟨name, later, rfl, -, htakes⟩ := h template entry values hmem hmatches
  cases htakes with
  | last _ _ hfree => exact absurd (List.mem_append_right _ (List.mem_cons_self ..)) hfree
  | inner hlater _ hfree hsplit _ hunder =>
      obtain ⟨rfl, rfl⟩ := segment_inj hslashless hfree hsplit
      subst hlater
      exact ⟨name, _, _, rfl, hunder, mem_afterLiteral.mpr (mem_afterParam.mpr ⟨name, hmem⟩)⟩

theorem OnlyParams.inner {captured rest : List Char} {found : Option (α × List (List Char))}
    (h : OnlyParams branches (captured ++ '/' :: rest)) (hnonempty : captured ≠ [])
    (hslashless : '/' ∉ captured)
    (hselects : Selects (branches.afterParam.afterLiteral '/') rest found) :
    Selects branches (captured ++ '/' :: rest)
      (found.map fun found => (found.1, captured :: found.2)) := by
  cases hselects with
  | first hmem hmatches hleads =>
      obtain ⟨name, hparam⟩ := mem_afterParam.mp (mem_afterLiteral.mp hmem)
      refine .first hparam (.param hnonempty hslashless hmatches.literal) ?_
      intro other found others hother hsecond
      obtain ⟨second, below, values, rfl, hunder, hkept⟩ := h.below hslashless hother hsecond
      exact .param (.literal (hleads below found values hkept hunder))
  | unmatched hnone =>
      refine .unmatched ?_
      intro template entry values hmem hmatches
      obtain ⟨name, below, others, rfl, hunder, hkept⟩ := h.below hslashless hmem hmatches
      exact hnone below entry others hkept hunder

theorem OnlyParams.last (honly : OnlyParams branches path) (hnonempty : path ≠ [])
    (hslashless : '/' ∉ path) :
    Selects branches path (branches.afterParam.ended?.map fun entry => (entry, [path])) := by
  have hends : ∀ template entry values, (template, entry) ∈ branches →
      template.Matches path values → ∃ name, template = [.param name] := by
    intro template entry values hmem hmatches
    obtain ⟨name, later, rfl, -, htakes⟩ := honly template entry values hmem hmatches
    cases htakes with
    | last hlater => exact ⟨name, by rw [hlater]⟩
    | inner _ _ _ hsplit =>
        exact absurd (hsplit ▸ List.mem_append_right _ (List.mem_cons_self ..)) hslashless
  cases hended : branches.afterParam.ended? with
  | some entry =>
      obtain ⟨name, hparam⟩ := mem_afterParam.mp (ended?_eq_some hended)
      have hmatches : Template.Matches [.param name] (path ++ []) [path] :=
        .param hnonempty hslashless .nil
      rw [List.append_nil] at hmatches
      refine .first hparam hmatches ?_
      intro other found others hother hsecond
      obtain ⟨second, rfl⟩ := hends other found others hother hsecond
      exact .param .ended
  | none =>
      refine .unmatched ?_
      intro template entry values hmem hmatches
      obtain ⟨name, rfl⟩ := hends template entry values hmem hmatches
      exact ended?_eq_none.mp hended entry (mem_afterParam.mpr ⟨name, hmem⟩)

/-- Behind a parameter that reaches to the end of its segment nothing but the slash can stand. -/
theorem Ordered.eq_slash (h : branches.Ordered) {suffix : List Char}
    (hmem : suffix ∈ branches.afterParam.suffixes) : suffix = ['/'] := by
  obtain ⟨hnonempty, ⟨later, entry⟩, hlater, rfl⟩ := Branches.mem_suffixes.mp hmem
  obtain ⟨name, hparam⟩ := mem_afterParam.mp hlater
  have hhead := (h.plain _ entry hparam).1
  cases later with
  | nil => contradiction
  | cons token below =>
      obtain rfl := hhead token rfl
      rfl

theorem OnlyParams.selects_slash (h : OnlyParams branches ('/' :: path)) :
    Selects branches ('/' :: path) none := by
  refine .unmatched ?_
  intro template entry values hmem hmatches
  obtain ⟨name, later, rfl, -, htakes⟩ := h template entry values hmem hmatches
  cases htakes with
  | last _ _ hfree => exact hfree (List.mem_cons_self ..)
  | inner _ hnonempty hfree hsplit =>
      obtain ⟨first, captured, rfl⟩ := List.exists_cons_of_ne_nil hnonempty
      exact hfree ((List.cons_eq_cons.mp hsplit).1 ▸ List.mem_cons_self ..)

theorem OnlyParams.selects_none {captured rest : List Char}
    (h : OnlyParams branches (captured ++ '/' :: rest)) (hnonempty : captured ≠ [])
    (hslashless : '/' ∉ captured)
    (hsuffix : branches.afterParam.suffixFor? (captured ++ ['/']) = none) :
    Selects branches (captured ++ '/' :: rest) none := by
  refine .unmatched ?_
  intro template entry values hmem hmatches
  obtain ⟨name, below, others, rfl, -, hkept⟩ := h.below hslashless hmem hmatches
  have hmem : ['/'] ∈ branches.afterParam.suffixes :=
    mem_suffixes.mpr ⟨nofun, _, mem_afterLiteral.mp hkept, rfl⟩
  refine suffixFor?_eq_none hsuffix _ hmem ?_ ⟨captured, rfl⟩
  rw [List.length_append]
  exact Nat.lt_add_of_pos_left (List.length_pos_iff.mpr hnonempty)

theorem Ordered.suffixFor?_eq_none (h : branches.Ordered) {text : List Char} (hfree : '/' ∉ text) :
    branches.afterParam.suffixFor? text = none := by
  cases hsuffix : branches.afterParam.suffixFor? text with
  | none => rfl
  | some suffix =>
      obtain ⟨hmem, -, hends⟩ := suffixFor?_eq_some hsuffix
      obtain rfl := h.eq_slash hmem
      exact absurd (hends.subset (List.mem_singleton.mpr rfl)) hfree

/-- A segment with its slash, which all that go on with the path take whole. -/
theorem Ordered.selects_inner (h : branches.Ordered) {captured rest : List Char}
    (honly : OnlyParams branches (captured ++ '/' :: rest)) (hnonempty : captured ≠ [])
    (hslashless : '/' ∉ captured)
    (hbelow : Selects (branches.afterParam.afterLiteral '/') rest
      (findWithin fuel (branches.afterParam.afterLiteral '/') rest)) :
    Selects branches (captured ++ '/' :: rest)
      (match branches.afterParam.suffixFor? (captured ++ ['/']) with
        | some suffix => (findWithin fuel (branches.afterParam.afterText suffix) rest).map fun found =>
          (found.1, (captured ++ ['/']).take ((captured ++ ['/']).length - suffix.length) :: found.2)
        | none => none) := by
  cases hsuffix : branches.afterParam.suffixFor? (captured ++ ['/']) with
  | some suffix =>
      obtain rfl := h.eq_slash (suffixFor?_eq_some hsuffix).1
      have htake : (captured ++ ['/']).take ((captured ++ ['/']).length - ['/'].length) = captured := by
        rw [List.length_append, Nat.add_sub_cancel, List.take_left]
      simp only [htake]
      exact honly.inner hnonempty hslashless hbelow
  | none => exact honly.selects_none hnonempty hslashless hsuffix

/-- The walk at a character that no literal text and no rest of the path takes. -/
theorem Ordered.selects_cons (h : branches.Ordered) (honly : OnlyParams branches (c :: path))
    (hbelow : ∀ rest, rest.length ≤ path.length → Selects (branches.afterParam.afterLiteral '/') rest
      (findWithin fuel (branches.afterParam.afterLiteral '/') rest))
    (hliteral : findWithin fuel (branches.afterLiteral c) path = none)
    (hrest : branches.rest? = none) :
    Selects branches (c :: path) (findWithin (fuel + 1) branches (c :: path)) := by
  unfold findWithin
  simp only [hliteral, hrest]
  split
  · next hslash =>
    obtain rfl := hslash
    exact honly.selects_slash
  · next hslash =>
    obtain ⟨text, hfree, ⟨hsegment, rest, hpath⟩ | ⟨hsegment, hpath⟩⟩ := segment_eq (c :: path)
    · have hnonempty : text ≠ [] := by
        rintro rfl
        exact hslash (List.cons_eq_cons.mp hpath).1
      have hdrop : path.drop ((text ++ ['/']).length - 1) = rest := by
        rw [← List.drop_succ_cons (a := c), hpath]
        simp
      have hends : endsInSlash (text ++ ['/']) = true := by
        rw [endsInSlash, List.getLast?_concat]
        rfl
      have hshort : rest.length ≤ path.length := by
        rw [← hdrop, List.length_drop]
        exact Nat.sub_le ..
      rw [hsegment, hdrop, if_pos hends]
      rw [hpath] at honly ⊢
      exact h.selects_inner honly hnonempty hfree (hbelow rest hshort)
    · have hends : ¬ endsInSlash text = true := by
        intro hends
        exact hfree (List.mem_of_getLast? (beq_iff_eq.mp hends))
      rw [hsegment, if_neg hends, h.suffixFor?_eq_none hfree]
      rw [hpath] at honly ⊢
      exact honly.last (hpath ▸ (by simp)) hfree

theorem Ordered.selects (h : branches.Ordered) (hfuel : path.length ≤ fuel) :
    Selects branches path (findWithin fuel branches path) := by
  induction fuel generalizing branches path with
  | zero =>
      obtain rfl := List.length_eq_zero_iff.mp (Nat.le_zero.mp hfuel)
      exact selects_nil branches
  | succ fuel ih =>
      cases path with
      | nil => exact selects_nil branches
      | cons c path =>
          have hpath := Nat.le_of_succ_le_succ hfuel
          have hliteral := ih (h.afterLiteral c) hpath
          cases hfound : findWithin fuel (branches.afterLiteral c) path with
          | some found =>
              rw [hfound] at hliteral
              simp only [findWithin, hfound]
              exact hliteral.literal
          | none =>
              rw [hfound] at hliteral
              cases hrest : branches.rest? with
              | some entry =>
                  simp only [findWithin, hfound, hrest]
                  exact hliteral.rest h hrest
              | none =>
                  exact h.selects_cons (onlyParams h hliteral hrest)
                    (fun rest hshort => ih (h.afterParam.afterLiteral '/') (Nat.le_trans hshort hpath))
                    hfound hrest

end Branches

end Turnpike
