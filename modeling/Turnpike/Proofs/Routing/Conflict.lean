import Turnpike.Proofs.Routing.FirstFault

/-!
Templates that cannot stand in one table.  A template that a table would take by itself is refused
only next to one that some path matches as well.  A template that no table takes is refused in the
same words, though, also where no other is there.
-/

namespace Turnpike

def Except.fault? {ε α : Type} : Except ε α → Option ε
  | .error fault => some fault
  | .ok _ => none

theorem Except.eq_error_of_fault? {ε α : Type} {result : Except ε α} {fault : ε}
    (h : Except.fault? result = some fault) : result = .error fault := by
  cases result with
  | error found => exact congrArg Except.error (Option.some.inj h)
  | ok value => contradiction

/-! What a template must be to have no flaw. -/

namespace Branches

theorem wildcard?_eq_none {α : Type} {branches : Branches α} (hspaced : branches.Spaced) :
    branches.wildcard? = none ↔ ∀ template entry, (template, entry) ∈ branches →
      template.head?.all TemplateToken.isLiteral = true := by
  constructor
  · intro h template entry hmem
    match template with
    | [] => rfl
    | .literal c :: later => rfl
    | .param name :: later => exact absurd h (wildcard?_ne_none_of_param hspaced hmem)
    | .rest name :: later => exact absurd h (wildcard?_ne_none_of_rest hmem)
  · intro h
    have hrest : branches.rest? = none := by
      refine rest?_eq_none.mpr fun name later entry hmem => ?_
      simpa [TemplateToken.isLiteral] using h _ _ hmem
    have hlower : (branches.filter fun branch => !branch.1.head?.all TemplateToken.isLiteral) = [] := by
      refine List.filter_eq_nil_iff.mpr fun branch hmem => ?_
      simpa using h _ _ hmem
    rw [wildcard?, hrest, hlower]
    rfl

end Branches

namespace Template

variable {earlier template first second later entry : Template} {branches : Branches Template}

/-- A template has no flaw next to others if and only if a table takes it by itself and it clashes
with none of them. -/
theorem flawWithin_eq_none_iff (hspaced : branches.Spaced) {seen : Template} :
    flawWithin seen template branches = none ↔ template.RestLast ∧ template.Spaced ∧
      ∀ earlier entry, (earlier, entry) ∈ branches → ¬ Clashes earlier template := by
  constructor
  · intro h
    refine ⟨restLast_of_flawWithin h, spaced_of_flawWithin h, ?_⟩
    intro earlier entry hmem hclash
    exact hclash.flawWithin_ne_none hspaced hmem h
  · rintro ⟨hlast, happart, hfree⟩
    induction template generalizing seen branches with
    | nil =>
        rw [flawWithin, Option.map_eq_none_iff, Branches.ended?_eq_none]
        exact fun entry hmem => hfree _ entry hmem .ended
    | cons token later ih =>
        cases token with
        | literal c =>
            refine ih (hspaced.afterLiteral c) hlast happart ?_
            intro earlier entry hmem hclash
            exact hfree _ entry (Branches.mem_afterLiteral.mp hmem) (.literal hclash)
        | param name =>
            have hrest : branches.rest? = none := by
              refine Branches.rest?_eq_none.mpr fun other behind entry hmem => ?_
              exact hfree _ entry hmem .restParam
            have hlater : ∀ earlier entry, (earlier, entry) ∈ branches.afterParam →
                ¬ Clashes earlier later := by
              intro earlier entry hmem hclash
              obtain ⟨other, hmem⟩ := Branches.mem_afterParam.mp hmem
              exact hfree _ entry hmem (.param hclash)
            rw [flawWithin, hrest]
            simp only [happart.1, Bool.false_eq_true, if_false]
            exact ih hspaced.afterParam hlast happart.2 hlater
        | rest name =>
            obtain rfl : later = [] := hlast
            have hliteral : branches.wildcard? = none := by
              refine (Branches.wildcard?_eq_none hspaced).mpr fun earlier entry hmem => ?_
              rcases earlier with _ | ⟨c | other | other, behind⟩
              · rfl
              · rfl
              · exact absurd .paramRest (hfree _ _ hmem)
              · exact absurd .rests (hfree _ _ hmem)
            rw [flawWithin, hliteral]
            rfl

/-! Octets and characters. -/

theorem restLast_octets : template.octets.RestLast ↔ template.RestLast := by
  refine ⟨restLast_of_octets, fun h => ?_⟩
  induction template with
  | nil => trivial
  | cons token later ih =>
      cases token with
      | literal c =>
          rw [octets_literal]
          exact restLast_text.mpr (ih h)
      | param name => exact ih h
      | rest name =>
          obtain rfl : later = [] := h
          rfl

theorem spaced_octets : template.octets.Spaced ↔ template.Spaced := by
  refine ⟨spaced_of_octets, fun h => ?_⟩
  induction template with
  | nil => trivial
  | cons token later ih =>
      cases token with
      | literal c =>
          rw [octets_literal]
          exact spaced_text.mpr (ih h)
      | param name => exact ⟨(hasWildcardAhead_octets later).trans h.1, ih h.2⟩
      | rest name => exact ih h

/-- The octets of a character are not the first of the octets of another. -/
theorem eq_of_octets_prefix {c d : Char}
    (h : String.utf8EncodeChar c <+: String.utf8EncodeChar d) : c = d := by
  obtain ⟨later, hlater⟩ := h
  have hshort := ByteArray.utf8DecodeChar?_utf8EncodeChar_append (b := later.toByteArray) (c := c)
  have hlong := ByteArray.utf8DecodeChar?_utf8EncodeChar_append (b := .empty) (c := d)
  rw [ByteArray.append_empty, ← hlater, List.toByteArray_append, hshort] at hlong
  exact Option.some.inj hlong

theorem octet_injective : Function.Injective fun b : UInt8 => Char.ofNat b.toNat := by
  intro a b h
  have hoctet : ∀ b : UInt8, (Char.ofNat b.toNat).toNat = b.toNat := by
    intro b
    have hvalid : b.toNat.isValidChar := .inl (b.toNat_lt.trans (by decide))
    rw [Char.ofNat, dif_pos hvalid]
    exact UInt32.toNat_ofNatLT
  exact UInt8.toNat_inj.mp ((hoctet a).symm.trans ((congrArg Char.toNat h).trans (hoctet b)))

theorem Clashes.prefix_or {text other : List Char}
    (h : Clashes (text.map .literal ++ first) (other.map .literal ++ second)) :
    text <+: other ∨ other <+: text := by
  induction text generalizing other with
  | nil => exact .inl (List.nil_prefix ..)
  | cons c text ih =>
      cases other with
      | nil => exact .inr (List.nil_prefix ..)
      | cons d other =>
          cases h with
          | literal hlater =>
              simp only [List.cons_prefix_cons, true_and]
              exact ih hlater

theorem Clashes.of_text {text : List Char}
    (h : Clashes (text.map .literal ++ first) (text.map .literal ++ second)) :
    Clashes first second := by
  induction text with
  | nil => exact h
  | cons c text ih =>
      cases h with
      | literal hlater => exact ih hlater

theorem octets_eq_cons (c : Char) (later : Template) :
    ∃ d behind, octets (.literal c :: later) = .literal d :: behind := by
  obtain ⟨b, bytes, hbytes⟩ := List.exists_cons_of_ne_nil (String.utf8EncodeChar_ne_nil (c := c))
  rw [octets_literal, hbytes]
  exact ⟨_, _, rfl⟩

/-- Whether templates clash can be told from their octets. -/
theorem Clashes.of_octets (h : Clashes first.octets second.octets) : Clashes first second := by
  induction first generalizing second with
  | nil =>
      have hnil : second.octets = [] := by
        cases hoctets : second.octets with
        | nil => rfl
        | cons token later =>
            rw [hoctets] at h
            contradiction
      rw [octets_eq_nil hnil]
      exact .ended
  | cons token later ih =>
      match token, second with
      | .literal c, .literal d :: behind =>
          rw [octets_literal, octets_literal] at h
          have hsame : c = d := by
            rcases h.prefix_or with hfront | hfront
            · exact eq_of_octets_prefix (List.prefix_map_iff_of_injective octet_injective |>.mp hfront)
            · symm
              exact eq_of_octets_prefix (List.prefix_map_iff_of_injective octet_injective |>.mp hfront)
          subst hsame
          exact .literal (ih h.of_text)
      | .literal c, [] | .literal c, .param _ :: _ | .literal c, .rest _ :: _ =>
          obtain ⟨d, tail, hoctets⟩ := octets_eq_cons c later
          rw [hoctets] at h
          contradiction
      | .param name, .literal d :: behind | .rest name, .literal d :: behind =>
          obtain ⟨c, tail, hoctets⟩ := octets_eq_cons d behind
          rw [hoctets] at h
          contradiction
      | .param name, .param other :: behind =>
          cases h with
          | param hlater => exact .param (ih hlater)
      | .param name, .rest other :: behind => exact .paramRest
      | .rest name, .param other :: behind => exact .restParam
      | .rest name, .rest other :: behind => exact .rests
      | .param name, [] => contradiction
      | .rest name, [] => contradiction

/-! Paths that two templates match. -/

theorem RestLast.exists_path (h : template.RestLast) : ∃ path values, template.Matches path values := by
  induction template with
  | nil => exact ⟨[], [], .nil⟩
  | cons token later ih =>
      cases token with
      | literal c =>
          obtain ⟨path, values, hmatches⟩ := ih h
          exact ⟨_, _, .literal hmatches⟩
      | param name =>
          obtain ⟨path, values, hmatches⟩ := ih h
          exact ⟨['x'] ++ path, _, .param nofun (by simp) hmatches⟩
      | rest name =>
          obtain rfl : later = [] := h
          exact ⟨['x'], _, .rest nofun⟩

/-- Some path is matched by both of two templates. -/
def Overlap (first second : Template) : Prop :=
  ∃ path, (∃ values, first.Matches path values) ∧ ∃ values, second.Matches path values

/-- A parameter in front of what some path is matched by. -/
theorem overlap_param_rest {name other : String} (h : RestLast later) :
    Overlap (.param name :: later) [.rest other] := by
  obtain ⟨path, values, hmatches⟩ := h.exists_path
  exact ⟨['x'] ++ path, ⟨_, .param nofun (by simp) hmatches⟩, _, .rest nofun⟩

theorem Overlap.symm (h : Overlap first second) : Overlap second first := by
  obtain ⟨path, hfirst, hsecond⟩ := h
  exact ⟨path, hsecond, hfirst⟩

/-- Templates that cannot be told apart overlap. -/
theorem Clashes.overlap (h : Clashes first second) (hfirst : first.RestLast)
    (hsecond : second.RestLast) : Overlap first second := by
  induction h with
  | ended => exact ⟨[], ⟨_, .nil⟩, _, .nil⟩
  | literal _ ih =>
      obtain ⟨path, ⟨_, hleft⟩, _, hright⟩ := ih hfirst hsecond
      exact ⟨_ :: path, ⟨_, .literal hleft⟩, _, .literal hright⟩
  | param _ ih =>
      obtain ⟨path, ⟨_, hleft⟩, _, hright⟩ := ih hfirst hsecond
      exact ⟨['x'] ++ path, ⟨_, .param nofun (by simp) hleft⟩, _, .param nofun (by simp) hright⟩
  | rests =>
      obtain rfl := hfirst
      obtain rfl := hsecond
      exact ⟨['x'], ⟨_, .rest nofun⟩, _, .rest nofun⟩
  | paramRest =>
      obtain rfl := hsecond
      exact overlap_param_rest hfirst
  | @restParam name other first second =>
      obtain rfl := hfirst
      have hlater : RestLast second := hsecond
      exact (overlap_param_rest hlater).symm

/-! Texts of templates. -/

/-- What a table takes by itself: braces that match and enclose names, no two wildcards in a segment,
and the rest of a path at the end only. -/
def StandsAlone (text : String) : Prop :=
  ∃ template, parse? text = some template ∧ template.RestLast ∧ template.Spaced

/-- Some path is matched by what two texts stand for. -/
def TextsOverlap (first second : String) : Prop :=
  ∃ earlier later, parse? first = some earlier ∧ parse? second = some later ∧
    Overlap earlier later

variable {before : List String} {text : String}

theorem mem_laidOut : (earlier, entry) ∈ laidOut before ↔
    earlier = entry.octets ∧ ∃ other ∈ before, parse? other = some entry := by
  simp only [laidOut, List.mem_map, List.mem_filterMap, Prod.mk.injEq]
  constructor
  · rintro ⟨found, hfound, rfl, rfl⟩
    exact ⟨rfl, hfound⟩
  · rintro ⟨rfl, hfound⟩
    exact ⟨entry, hfound, rfl, rfl⟩

theorem spaced_laidOut (h : ∀ earlier ∈ before, StandsAlone earlier) :
    (laidOut before).Spaced := by
  intro octets entry hmem
  obtain ⟨rfl, other, hother, hparse⟩ := mem_laidOut.mp hmem
  obtain ⟨found, hfound, -, hspaced⟩ := h other hother
  obtain rfl := Option.some.inj (hparse.symm.trans hfound)
  exact spaced_octets.mpr hspaced

/-- No path can tell what two texts stand for apart. -/
def TextsClash (first second : String) : Prop :=
  ∃ earlier later, parse? first = some earlier ∧ parse? second = some later ∧
    Clashes earlier later

/-- A text is not at fault behind others that stand alone if and only if it stands alone as well and
clashes with none of them. -/
theorem not_atFault_iff (hbefore : ∀ earlier ∈ before, StandsAlone earlier) :
    (∀ fault, ¬ AtFault before text fault) ↔
      StandsAlone text ∧ ∀ earlier ∈ before, ¬ TextsClash earlier text := by
  have hspaced := spaced_laidOut hbefore
  constructor
  · intro h
    cases hparse : parse? text with
    | none => exact absurd (.unread hparse) (h _)
    | some template =>
        have hsound : flawWithin [] template.octets (laidOut before) = none := by
          refine Option.eq_none_iff_forall_ne_some.mpr fun flaw hflaw => ?_
          exact h _ (.flawed hparse hflaw)
        obtain ⟨hlast, happart, hfree⟩ := (flawWithin_eq_none_iff hspaced).mp hsound
        refine ⟨⟨template, hparse, restLast_octets.mp hlast, spaced_octets.mp happart⟩, ?_⟩
        rintro earlier hearlier ⟨first, second, hfirst, hsecond, hclash⟩
        obtain rfl := Option.some.inj (hparse.symm.trans hsecond)
        exact hfree _ first (mem_laidOut.mpr ⟨rfl, earlier, hearlier, hfirst⟩) hclash.octets
  · rintro ⟨⟨template, hparse, hlast, happart⟩, hfree⟩ fault (hnone | ⟨hfound, hflaw⟩)
    · rw [hparse] at hnone
      contradiction
    · obtain rfl := Option.some.inj (hparse.symm.trans hfound)
      have hsound : flawWithin [] template.octets (laidOut before) = none := by
        refine (flawWithin_eq_none_iff hspaced).mpr
          ⟨restLast_octets.mpr hlast, spaced_octets.mpr happart, ?_⟩
        intro octets entry hmem hclash
        obtain ⟨rfl, earlier, hearlier, hfirst⟩ := mem_laidOut.mp hmem
        exact hfree earlier hearlier ⟨_, _, hfirst, hparse, hclash.of_octets⟩
      rw [hsound] at hflaw
      contradiction

/-- Texts are not at fault if and only if each stands alone and no two of them clash. -/
theorem faultless_iff_pairwise {texts : List String} : Faultless AtFault texts ↔
    (∀ text ∈ texts, StandsAlone text) ∧
      texts.Pairwise fun first second => ¬ TextsClash first second := by
  induction texts using List.reverseRecOn with
  | nil => exact iff_of_true faultless_nil ⟨List.forall_mem_nil _, .nil⟩
  | append_singleton texts text ih =>
      rw [faultless_concat, ih, List.forall_mem_append, List.forall_mem_singleton,
        List.pairwise_append]
      simp only [List.pairwise_singleton, List.mem_singleton, forall_eq, true_and]
      constructor
      · rintro ⟨⟨hbefore, happart⟩, hlast⟩
        obtain ⟨halone, hfree⟩ := (not_atFault_iff hbefore).mp hlast
        exact ⟨⟨hbefore, halone⟩, happart, hfree⟩
      · rintro ⟨⟨hbefore, halone⟩, happart, hfree⟩
        exact ⟨⟨hbefore, happart⟩, (not_atFault_iff hbefore).mpr ⟨halone, hfree⟩⟩

/-- What clashes with something that is read overlaps with it. -/
theorem TextsClash.overlap {first second : String} (h : TextsClash first second)
    (hfirst : StandsAlone first) (hsecond : StandsAlone second) : TextsOverlap first second := by
  obtain ⟨earlier, later, hearlier, hlater, hclash⟩ := h
  obtain ⟨_, hread, hends, -⟩ := hfirst
  obtain rfl := Option.some.inj (hearlier.symm.trans hread)
  obtain ⟨_, hread, hlast, -⟩ := hsecond
  obtain rfl := Option.some.inj (hlater.symm.trans hread)
  exact ⟨earlier, later, hearlier, hlater, hclash.overlap hends hlast⟩

theorem AtFault.text_eq {other : String} {flaw : TableFlaw}
    (h : AtFault before text (.conflict other flaw)) : text = other := by
  cases h <;> rfl

/-- What stands alone is refused only next to a template that overlaps with it. -/
theorem StandsAlone.exists_overlap (h : StandsAlone text)
    (hbefore : ∀ earlier ∈ before, StandsAlone earlier) {fault : RouteFault}
    (hfault : AtFault before text fault) : ∃ earlier ∈ before, TextsOverlap earlier text := by
  by_contra hnone
  refine (not_atFault_iff hbefore).mpr ⟨h, ?_⟩ fault hfault
  intro earlier hearlier hclash
  exact hnone ⟨earlier, hearlier, hclash.overlap (hbefore earlier hearlier) h⟩

end Template

theorem Section.AtFault.registered {before : List Section} {part : Section} {fault : RouteFault}
    (h : AtFault before part fault) : (∃ name, fault = .duplicateBlueprint name) ∨
      ∃ method, fault = .duplicateCompositionMethod method := by
  cases h with
  | own hfault =>
      obtain ⟨-⟩ := hfault
      exact .inr ⟨_, rfl⟩
  | taken => exact .inl ⟨_, rfl⟩
  | inside _ hfirst =>
      obtain ⟨_, _, _, -, -, ⟨-⟩⟩ := hfirst
      exact .inr ⟨_, rfl⟩

namespace DraftRoute

variable {η : Type} {routes : List (DraftRoute η)}

/-- The pattern of a route is written with a template. -/
def HasTemplate (route : DraftRoute η) (text : String) : Prop :=
  ∃ pattern, RoutePattern.parse route.1 = .ok pattern ∧ pattern.template = text

theorem mem_templates {text : String} :
    text ∈ templates routes ↔ ∃ route ∈ routes, route.HasTemplate text := by
  simp only [templates, List.mem_eraseDups, List.mem_map, List.mem_filterMap, HasTemplate]
  constructor
  · rintro ⟨pattern, ⟨route, hroute, hparse⟩, htemplate⟩
    exact ⟨route, hroute, pattern, Except.eq_ok_of_toOption hparse, htemplate⟩
  · rintro ⟨route, hroute, pattern, hparse, htemplate⟩
    exact ⟨pattern, ⟨route, hroute, by rw [hparse]; rfl⟩, htemplate⟩

theorem methods_of_faultless (h : Faultless AtFault routes) : ∀ route ∈ routes,
    route.2.methods ≠ [] := by
  intro route hroute hnone
  obtain ⟨before, after, rfl⟩ := List.append_of_mem hroute
  exact h before route after rfl _ (.noMethods hnone)

end DraftRoute

namespace RouterBuilder

/-! A router of one route. -/

/-- Nothing but a route with its handler. -/
def lone (route : DraftRoute WebHandler) : List Section := [.own (.route route.1 route.2)]

variable {route : DraftRoute WebHandler} {pattern : RoutePattern}

theorem faultless_lone : Faultless Section.AtFault (lone route) := by
  refine faultless_singleton.mpr ?_
  rintro fault ⟨⟨⟩⟩

theorem faultless_lone_route (hsome : route.2.methods ≠ [])
    (hparse : RoutePattern.parse route.1 = .ok pattern) :
    Faultless DraftRoute.AtFault ((lone route).flatMap Section.flattened) := by
  change Faultless DraftRoute.AtFault [route]
  refine faultless_singleton.mpr ?_
  rintro fault (hnone | ⟨-, hflaw⟩ | ⟨-, -, ⟨_, hmem, -⟩, -⟩)
  · exact hsome hnone
  · rw [hparse] at hflaw
    contradiction
  · contradiction

theorem templates_lone (hparse : RoutePattern.parse route.1 = .ok pattern) :
    DraftRoute.templates ((lone route).flatMap Section.flattened) = [pattern.template] := by
  change DraftRoute.templates [route] = _
  simp [DraftRoute.templates, hparse, Except.toOption, List.eraseDups_cons]

theorem build_lone_iff (hsome : route.2.methods ≠ [])
    (hparse : RoutePattern.parse route.1 = .ok pattern) :
    (∃ router, (ofSections (lone route)).build = .ok router) ↔
      Template.StandsAlone pattern.template := by
  rw [builds_iff, templates_lone hparse, faultless_singleton,
    Template.not_atFault_iff (List.forall_mem_nil _)]
  constructor
  · exact fun h => h.2.2.1
  · exact fun h => ⟨faultless_lone, faultless_lone_route hsome hparse, h, List.forall_mem_nil _⟩

theorem build_lone_conflict (hsome : route.2.methods ≠ [])
    (hparse : RoutePattern.parse route.1 = .ok pattern)
    (h : ¬ Template.StandsAlone pattern.template) :
    ∃ flaw, (ofSections (lone route)).build = .error (.conflict pattern.template flaw) := by
  have hrefused := mt (build_lone_iff hsome hparse).mp h
  cases hbuild : (ofSections (lone route)).build with
  | ok router => exact absurd ⟨router, hbuild⟩ hrefused
  | error fault =>
      rcases (build_eq_error_iff _ _).mp hbuild with hfirst | ⟨-, hfirst⟩ | ⟨-, -, hfirst⟩
      · exact absurd faultless_lone hfirst.not_faultless
      · exact absurd (faultless_lone_route hsome hparse) hfirst.not_faultless
      · rw [templates_lone hparse, ← List.nil_append [_], firstFault_concat] at hfirst
        rcases hfirst with hfirst | ⟨-, _ | _⟩
        · exact absurd hfirst not_firstFault_nil
        · exact ⟨_, rfl⟩
        · exact ⟨_, rfl⟩

/-! What a conflict tells. -/

theorem refusedFor_conflict {sections : List Section} {text : String} {flaw : TableFlaw}
    (h : RefusedFor sections (.conflict text flaw)) :
    Faultless DraftRoute.AtFault (sections.flatMap Section.flattened) ∧
      FirstFault Template.AtFault (DraftRoute.templates (sections.flatMap Section.flattened))
        (.conflict text flaw) := by
  rcases h with ⟨_, _, _, -, -, hfault⟩ | ⟨-, _, _, _, -, -, hfault⟩ | ⟨-, hsound, hfirst⟩
  · rcases hfault.registered with ⟨_, ⟨⟩⟩ | ⟨_, ⟨⟩⟩
  · contradiction
  · exact ⟨hsound, hfirst⟩

theorem refusedFor_invalidPattern {sections : List Section} {path : String} {flaw : PatternFlaw}
    (h : RefusedFor sections (.invalidPattern path flaw)) : RoutePattern.parse path = .error flaw := by
  rcases h with ⟨_, _, _, -, -, hfault⟩ | ⟨-, _, _, _, -, -, hfault⟩ | ⟨-, -, _, _, _, -, -, hfault⟩
  · rcases hfault.registered with ⟨_, ⟨⟩⟩ | ⟨_, ⟨⟩⟩
  · cases hfault with
    | invalidPattern _ hparse => exact hparse
  · contradiction

/-- A template that is reported for a conflict stands alone if and only if the report is right: one of
those before it overlaps with it, and without the others its routes are taken.  What does not stand
alone is reported so as well, by itself too; a pattern is called invalid only where it does not come to
a template. -/
theorem build_conflict (sections : List Section) :
    (∀ text flaw, (ofSections sections).build = .error (.conflict text flaw) →
      ∃ before after,
        DraftRoute.templates (sections.flatMap Section.flattened) = before ++ text :: after ∧
        (Template.StandsAlone text ↔
          (∃ earlier ∈ before, Template.TextsOverlap earlier text) ∧
          ∀ route ∈ sections.flatMap Section.flattened, route.HasTemplate text →
            ∃ router, (ofSections (lone route)).build = .ok router)) ∧
    (∀ route : DraftRoute WebHandler, ∀ pattern, route.2.methods ≠ [] →
      RoutePattern.parse route.1 = .ok pattern → ¬ Template.StandsAlone pattern.template →
      ∃ flaw, (ofSections (lone route)).build = .error (.conflict pattern.template flaw)) ∧
    ∀ path flaw, (ofSections sections).build = .error (.invalidPattern path flaw) →
      RoutePattern.parse path = .error flaw := by
  refine ⟨?conflict, fun route pattern => build_lone_conflict, ?invalid⟩
  case invalid =>
    intro path flaw hbuild
    exact refusedFor_invalidPattern ((build_eq_error_iff _ _).mp hbuild)
  case conflict =>
    intro text flaw hbuild
    obtain ⟨hsound, before, other, after, hsplit, hbefore, hfault⟩ :=
      refusedFor_conflict ((build_eq_error_iff _ _).mp hbuild)
    obtain rfl := hfault.text_eq
    have hsome := DraftRoute.methods_of_faultless hsound
    refine ⟨before, after, hsplit, ?_, ?_⟩
    · intro halone
      refine ⟨halone.exists_overlap (Template.faultless_iff_pairwise.mp hbefore).1 hfault, ?_⟩
      rintro route hroute ⟨pattern, hparse, rfl⟩
      exact (build_lone_iff (hsome route hroute) hparse).mpr halone
    · rintro ⟨-, hbuilds⟩
      have hmem : other ∈ DraftRoute.templates (sections.flatMap Section.flattened) := by
        rw [hsplit]
        exact List.mem_append_right _ (List.mem_cons_self ..)
      obtain ⟨route, hroute, pattern, hparse, rfl⟩ := DraftRoute.mem_templates.mp hmem
      exact (build_lone_iff (hsome route hroute) hparse).mp
        (hbuilds route hroute ⟨pattern, hparse, rfl⟩)

/-- Behind a parameter of one name another cannot stand, though it could be registered by itself. -/
theorem build_conflict_two_names :
    let answer : Endpoint WebHandler := ⟨[.get], .fail "", false⟩
    let sections : List Section := [.own (.route "/<a>/x" answer), .own (.route "/b" answer),
      .own (.route "/<c>/x" answer)]
    (ofSections sections).build = .error (.conflict "/{c}/x" (.clash "/{a}/x")) ∧
      Template.StandsAlone "/{c}/x" ∧
      (∃ before after,
        DraftRoute.templates (sections.flatMap Section.flattened) = before ++ "/{c}/x" :: after ∧
        ∃ earlier ∈ before, Template.TextsOverlap earlier "/{c}/x") ∧
      ∃ router, (ofSections (lone ("/<c>/x", answer))).build = .ok router := by
  intro answer sections
  have hbuild : (ofSections sections).build = .error (.conflict "/{c}/x" (.clash "/{a}/x")) :=
    Except.eq_error_of_fault? (by decide)
  have halone : Template.StandsAlone "/{c}/x" :=
    ⟨[.literal '/', .param "c", .literal '/', .literal 'x'], by decide, trivial, rfl, trivial⟩
  obtain ⟨before, after, hsplit, hiff⟩ := (build_conflict sections).1 _ _ hbuild
  obtain ⟨hoverlap, hbuilds⟩ := hiff.mp halone
  refine ⟨hbuild, halone, ⟨before, after, hsplit, hoverlap⟩, ?_⟩
  exact hbuilds ("/<c>/x", answer) (List.mem_of_getElem? (i := 2) rfl)
    ⟨⟨"/{c}/x", []⟩, by decide, rfl⟩

/-- A route with an open brace is all there is, and is said to be in conflict with an earlier one. -/
theorem build_conflict_open_brace :
    let sections := lone ("/a/\x7b", ⟨[.get], .fail "", false⟩)
    RoutePattern.parse "/a/\x7b" = .ok ⟨"/a/\x7b", []⟩ ∧
      DraftRoute.templates (sections.flatMap Section.flattened) = ["/a/\x7b"] ∧
      (ofSections sections).build = .error (.conflict "/a/\x7b" .invalidName) := by
  refine ⟨by decide, by decide, Except.eq_error_of_fault? (by decide)⟩

end RouterBuilder

end Turnpike
