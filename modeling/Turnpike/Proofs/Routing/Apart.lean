import Mathlib.Data.Finset.Max
import Mathlib.Data.Finset.Dedup
import Turnpike.Proofs.Routing.Built
import Turnpike.Proofs.Routing.Precedence

/-!
Two templates of a router that builds can always be told apart.  A template that clashes with one
that came before is refused, also where the two part at the rest of a path: then the walk to the first
branch below the wildcards has to come to an end, and it does as no parameter has a wildcard behind it
in its segment.
-/

namespace Turnpike

namespace Template

theorem spaced_of_flawWithin {seen template : Template} {branches : Branches Template}
    (h : flawWithin seen template branches = none) : template.Spaced := by
  induction template generalizing seen branches with
  | nil => trivial
  | cons token later ih =>
      cases token with
      | literal c => exact ih h
      | rest name =>
          obtain rfl : later = [] := restLast_of_flawWithin h
          trivial
      | param name =>
          unfold flawWithin at h
          split at h
          · contradiction
          · split at h
            · contradiction
            · next hahead => exact ⟨Bool.eq_false_iff.mpr hahead, ih h⟩

/-- A low octet stands in the octets of the character that it is, and of no other. -/
theorem toNat_of_octet {c : Char} {b : UInt8} (hmem : b ∈ String.utf8EncodeChar c)
    (hlow : b.toNat < 128) : c.toNat = b.toNat := by
  have hhigh : ∀ n, 128 ≤ n → n < 256 → b ≠ UInt8.ofNat n := by
    intro n hleast hmost heq
    rw [heq, UInt8.toNat_ofNat_of_lt' hmost] at hlow
    omega
  unfold String.utf8EncodeChar at hmem
  simp only at hmem
  split at hmem
  · next hone =>
    rw [List.mem_singleton.mp hmem, UInt8.toNat_ofNat_of_lt' (Nat.lt_of_le_of_lt hone (by decide))]
    rfl
  · -- all octets of the other characters are at least 128
    split at hmem
    · simp only [List.mem_cons, List.not_mem_nil, or_false] at hmem
      rcases hmem with h | h <;> exact absurd h (hhigh _ (by omega) (by omega))
    · split at hmem
      · simp only [List.mem_cons, List.not_mem_nil, or_false] at hmem
        rcases hmem with h | h | h <;> exact absurd h (hhigh _ (by omega) (by omega))
      · simp only [List.mem_cons, List.not_mem_nil, or_false] at hmem
        rcases hmem with h | h | h | h <;> exact absurd h (hhigh _ (by omega) (by omega))

theorem eq_slash_of_octet {c : Char} {b : UInt8} (hmem : b ∈ String.utf8EncodeChar c)
    (hslash : Char.ofNat b.toNat = '/') : c = '/' := by
  have hvalid : b.toNat.isValidChar := .inl (Nat.lt_trans b.toNat_lt (by decide))
  have hbyte : b.toNat = 47 := by
    rw [Char.ofNat, dif_pos hvalid] at hslash
    have hvalue := congrArg Char.toNat hslash
    exact hvalue
  exact Char.toNat_inj.mp ((toNat_of_octet hmem (by omega)).trans hbyte)

theorem hasWildcardAhead_text {text : List Char} (hfree : '/' ∉ text) (later : Template) :
    hasWildcardAhead (text.map .literal ++ later) = later.hasWildcardAhead := by
  induction text with
  | nil => rfl
  | cons c text ih =>
      rw [List.mem_cons, not_or] at hfree
      rw [List.map_cons, List.cons_append, hasWildcardAhead, bne_iff_ne.mpr (Ne.symm hfree.1),
        Bool.true_and, ih hfree.2]

theorem hasWildcardAhead_octets (template : Template) :
    template.octets.hasWildcardAhead = template.hasWildcardAhead := by
  induction template with
  | nil => rfl
  | cons token later ih =>
      cases token with
      | param name => rfl
      | rest name => rfl
      | literal c =>
          by_cases hslash : c = '/'
          · subst hslash
            rfl
          · have hfree : '/' ∉ (String.utf8EncodeChar c).map fun b => Char.ofNat b.toNat := by
              intro hmem
              obtain ⟨b, hb, heq⟩ := List.mem_map.mp hmem
              exact hslash (eq_slash_of_octet hb heq)
            rw [octets_literal, hasWildcardAhead_text hfree, ih,
              hasWildcardAhead, bne_iff_ne.mpr hslash, Bool.true_and]

theorem spaced_of_octets {template : Template} (h : template.octets.Spaced) : template.Spaced := by
  induction template with
  | nil => trivial
  | cons token later ih =>
      cases token with
      | literal c =>
          rw [octets_literal] at h
          exact ih (spaced_text.mp h)
      | param name => exact ⟨hasWildcardAhead_octets later ▸ h.1, ih h.2⟩
      | rest name => exact ih h

theorem Clashes.text {first second : Template} (h : Clashes first second) (text : List Char) :
    Clashes (text.map .literal ++ first) (text.map .literal ++ second) := by
  induction text with
  | nil => exact h
  | cons c text ih => exact .literal ih

theorem Clashes.octets {first second : Template} (h : Clashes first second) :
    Clashes first.octets second.octets := by
  induction h with
  | ended => exact .ended
  | literal _ ih =>
      rw [octets_literal, octets_literal]
      exact ih.text _
  | param _ ih => exact .param ih
  | rests => exact .rests
  | paramRest => exact .paramRest
  | restParam => exact .restParam

end Template

namespace Branches

variable {α : Type} {branches : Branches α} {entry : α}

theorem ended?_ne_none (h : ([], entry) ∈ branches) : branches.ended? ≠ none :=
  fun hnone => ended?_eq_none.mp hnone entry h

theorem rest?_ne_none {name : String} {later : Template} (h : (.rest name :: later, entry) ∈ branches) :
    branches.rest? ≠ none :=
  fun hnone => rest?_eq_none.mp hnone name later entry h

/-! The walk to the first branch. -/

theorem mostUsed_mem {all seen texts : List Char} {c : Char} (h : mostUsed all seen texts = some c) :
    c ∈ texts := by
  induction texts generalizing seen with
  | nil => contradiction
  | cons first texts ih =>
      unfold mostUsed at h
      split at h
      · obtain rfl := Option.some.inj h
        exact List.mem_cons_self ..
      · exact List.mem_cons_of_mem _ (ih h)

/-- A character that is used most is found at its last use, if no other was before. -/
theorem mostUsed_ne_none {all seen texts : List Char} {c : Char} (hmem : c ∈ texts)
    (hmost : ∀ other ∈ all, all.count other ≤ all.count c) (hall : all = seen.reverse ++ texts) :
    mostUsed all seen texts ≠ none := by
  induction texts generalizing seen with
  | nil => contradiction
  | cons first texts ih =>
      unfold mostUsed
      split
      · exact nofun
      · next hused =>
        by_cases hlater : c ∈ texts
        · exact ih hlater (by rw [hall, List.reverse_cons, List.append_assoc, List.singleton_append])
        · obtain rfl := (List.mem_cons.mp hmem).resolve_right hlater
          refine absurd (List.all_eq_true.mpr ?_) hused
          intro other hother
          have hcount : all.count c = (c :: seen).count c := by
            rw [hall, List.count_append, List.count_reverse, List.count_cons_self,
              List.count_cons_self, List.count_eq_zero.mpr hlater]
          rw [decide_eq_true_eq, ← hcount]
          exact hmost other hother

theorem eq_nil_of_mostUsed {all : List Char} (h : mostUsed all [] all = none) : all = [] := by
  by_contra hne
  obtain ⟨c, hmem, hmost⟩ := all.toFinset.exists_max_image (fun c => all.count c)
    (List.toFinset_nonempty_iff all |>.mpr hne)
  exact mostUsed_ne_none (List.mem_toFinset.mp hmem)
    (fun other hother => hmost other (List.mem_toFinset.mpr hother)) rfl h

theorem mem_literals {c : Char} :
    c ∈ branches.literals ↔ ∃ later entry, (.literal c :: later, entry) ∈ branches := by
  unfold literals
  rw [List.mem_filterMap]
  constructor
  · intro h
    obtain ⟨⟨_ | ⟨d | _ | _, later⟩, entry⟩, hmem, hkept⟩ := h
    · contradiction
    · obtain rfl := Option.some.inj hkept
      exact ⟨later, entry, hmem⟩
    · contradiction
    · contradiction
  · intro h
    obtain ⟨later, entry, hmem⟩ := h
    exact ⟨_, hmem, rfl⟩

theorem size_cons (branch : Branch α) (branches : Branches α) :
    size (branch :: branches) = branch.1.length + size branches := by
  rw [size, List.flatMap_cons, List.length_append, size]

theorem size_filterMap {step : Branch α → Option (Branch α)}
    (h : ∀ branch next, step branch = some next → next.1.length < branch.1.length)
    (branches : Branches α) :
    size (branches.filterMap step) + (branches.filterMap step).length ≤ size branches := by
  induction branches with
  | nil => exact Nat.le_refl _
  | cons branch branches ih =>
      cases hstep : step branch with
      | none =>
          rw [List.filterMap_cons_none hstep, size_cons]
          exact ih.trans (Nat.le_add_left _ _)
      | some next =>
          have hnext := h branch next hstep
          rw [List.filterMap_cons_some hstep, size_cons, size_cons, List.length_cons]
          omega

theorem size_afterLiteral (branches : Branches α) (c : Char) :
    size (branches.afterLiteral c) + (branches.afterLiteral c).length ≤ branches.size := by
  refine size_filterMap ?_ branches
  intro branch next hstep
  obtain ⟨_ | ⟨d | _ | _, later⟩, entry⟩ := branch
  · contradiction
  · simp only [Option.ite_none_right_eq_some, Option.some.injEq] at hstep
    obtain ⟨-, rfl⟩ := hstep
    exact Nat.lt_succ_self _
  · contradiction
  · contradiction

theorem size_afterParam (branches : Branches α) :
    size branches.afterParam + branches.afterParam.length ≤ branches.size := by
  refine size_filterMap ?_ branches
  intro branch next hstep
  obtain ⟨_ | ⟨_ | name | _, later⟩, entry⟩ := branch
  · contradiction
  · contradiction
  · obtain rfl := Option.some.inj hstep
    exact Nat.lt_succ_self _
  · contradiction

theorem size_afterText (branches : Branches α) (text : List Char) :
    size (branches.afterText text) ≤ branches.size := by
  induction text generalizing branches with
  | nil => exact Nat.le_refl _
  | cons c text ih =>
      have hlater := ih (branches.afterLiteral c)
      have hfirst := size_afterLiteral branches c
      exact hlater.trans (Nat.le_of_add_right_le hfirst)

/-- No branch has a wildcard in the segment of a parameter. -/
def Spaced (branches : Branches α) : Prop :=
  ∀ template entry, (template, entry) ∈ branches → template.Spaced

theorem Spaced.afterLiteral (h : branches.Spaced) (c : Char) : (branches.afterLiteral c).Spaced := by
  intro later entry hmem
  have hspaced := h _ entry (mem_afterLiteral.mp hmem)
  exact hspaced

theorem Spaced.afterParam (h : branches.Spaced) : branches.afterParam.Spaced := by
  intro later entry hmem
  obtain ⟨name, hparam⟩ := mem_afterParam.mp hmem
  exact (h _ entry hparam).2

theorem Spaced.afterText (h : branches.Spaced) (text : List Char) :
    (branches.afterText text).Spaced := by
  intro later entry hmem
  exact Template.spaced_text.mp (h _ entry (mem_afterText.mp hmem))

theorem eq_nil_of_suffixes (h : branches.suffixes = []) {template : Template}
    (hmem : (template, entry) ∈ branches) (hahead : template.hasWildcardAhead = false) :
    template = [] := by
  by_contra hne
  obtain ⟨token, later, rfl⟩ := List.exists_cons_of_ne_nil hne
  have hsuffix : Template.leadingText (token :: later) ∈ branches.suffixes := by
    refine mem_suffixes.mpr ⟨?_, _, hmem, rfl⟩
    cases token with
    | literal c =>
        unfold Template.leadingText
        split <;> simp
    | param name => contradiction
    | rest name => contradiction
  rw [h] at hsuffix
  contradiction

/-- The walk goes down to one of the branches, whichever text it follows. -/
theorem firstWithin_ne_none {fuel : Nat} (hspaced : branches.Spaced) (hnonempty : branches ≠ [])
    (hfuel : branches.size < fuel) : firstWithin fuel branches ≠ none := by
  induction fuel generalizing branches with
  | zero => contradiction
  | succ fuel ih =>
      unfold firstWithin
      split
      · next c hmost =>
        obtain ⟨later, entry, hmem⟩ := mem_literals.mp (mostUsed_mem hmost)
        have hkept := List.ne_nil_of_mem (mem_afterLiteral.mpr hmem)
        have hsize := size_afterLiteral branches c
        have hlength := List.length_pos_iff.mpr hkept
        exact ih (hspaced.afterLiteral c) hkept (by omega)
      · next hmost =>
        split
        · exact nofun
        · next hrest =>
          simp only
          split
          · next suffix hlongest =>
            obtain ⟨-, ⟨template, entry⟩, hmem, hleading⟩ := mem_suffixes.mp (longest_mem hlongest)
            obtain ⟨later, htemplate⟩ := exists_leadingText template
            rw [hleading] at htemplate
            subst htemplate
            have hsize := size_afterParam branches
            have hlength := List.length_pos_iff.mpr (List.ne_nil_of_mem hmem)
            have htext := size_afterText branches.afterParam suffix
            exact ih (hspaced.afterParam.afterText suffix)
              (List.ne_nil_of_mem (mem_afterText.mpr hmem)) (by omega)
          · next hlongest =>
            obtain ⟨⟨template, entry⟩, hmem⟩ := List.exists_mem_of_ne_nil branches hnonempty
            rw [Ne, Option.or_eq_none_iff, not_and_or]
            match template with
            | [] => exact .inr (ended?_ne_none hmem)
            | .literal c :: later =>
                have hused := mem_literals.mpr ⟨later, entry, hmem⟩
                rw [eq_nil_of_mostUsed hmost] at hused
                contradiction
            | .rest name :: later => exact absurd hrest (rest?_ne_none hmem)
            | .param name :: later =>
                have hbelow := mem_afterParam.mpr ⟨name, hmem⟩
                obtain rfl := eq_nil_of_suffixes (longest_eq_none hlongest) hbelow (hspaced _ _ hmem).1
                exact .inl (ended?_ne_none hbelow)

theorem wildcard?_ne_none_of_rest {name : String} {later : Template}
    (hmem : (.rest name :: later, entry) ∈ branches) : branches.wildcard? ≠ none := by
  rw [wildcard?, Ne, Option.or_eq_none_iff, not_and_or]
  exact .inl (rest?_ne_none hmem)

theorem wildcard?_ne_none_of_param (hspaced : branches.Spaced) {name : String} {later : Template}
    (hmem : (.param name :: later, entry) ∈ branches) : branches.wildcard? ≠ none := by
  rw [wildcard?, first?, Ne, Option.or_eq_none_iff, not_and_or]
  refine .inr (firstWithin_ne_none ?_ ?_ (Nat.lt_succ_self _))
  · intro template entry hkept
    exact hspaced template entry (List.mem_filter.mp hkept).1
  · exact List.ne_nil_of_mem (List.mem_filter.mpr ⟨hmem, rfl⟩)

end Branches

namespace Template

variable {earlier template seen later entry : Template} {branches : Branches Template}

theorem flawWithin_rest_ne_none {name : String} (h : branches.wildcard? ≠ none) :
    flawWithin seen (.rest name :: later) branches ≠ none := by
  unfold flawWithin
  split
  · split <;> exact nofun
  · contradiction

/-- A template that clashes with one that went the same way has a flaw. -/
theorem Clashes.flawWithin_ne_none (h : Clashes earlier template) (hspaced : branches.Spaced)
    (hmem : (earlier, entry) ∈ branches) : flawWithin seen template branches ≠ none := by
  induction h generalizing seen branches with
  | ended =>
      rw [flawWithin, Ne, Option.map_eq_none_iff]
      exact Branches.ended?_ne_none hmem
  | literal _ ih => exact ih (hspaced.afterLiteral _) (Branches.mem_afterLiteral.mpr hmem)
  | param _ ih =>
      unfold flawWithin
      split
      · simp
      · split
        · simp
        · exact ih hspaced.afterParam (Branches.mem_afterParam.mpr ⟨_, hmem⟩)
  | rests => exact flawWithin_rest_ne_none (Branches.wildcard?_ne_none_of_rest hmem)
  | paramRest => exact flawWithin_rest_ne_none (Branches.wildcard?_ne_none_of_param hspaced hmem)
  | restParam =>
      unfold flawWithin
      split
      · simp
      · next hrest => exact absurd hrest (Branches.rest?_ne_none hmem)

end Template

namespace Router

variable {η : Type} {table : RouteTable (List (RouteItem η))} {groups : RouteGroups η}

theorem Holds.spaced (h : Holds table groups) : Branches.Spaced table.templates := by
  induction h with
  | empty => exact nofun
  | insert _ _ hflaw ih =>
      intro octets template hmem
      obtain ⟨row, hrow, heq⟩ := List.mem_map.mp hmem
      obtain ⟨rfl, rfl⟩ := Prod.mk.inj heq
      rcases List.mem_append.mp hrow with hearlier | hlast
      · exact ih _ _ (List.mem_map.mpr ⟨row, hearlier, rfl⟩)
      · obtain rfl := List.mem_singleton.mp hlast
        exact Template.spaced_of_flawWithin hflaw

theorem Holds.spaced_row (h : Holds table groups) {row : TableRow (List (RouteItem η))}
    (hrow : row ∈ table.rows) : row.template.Spaced :=
  Template.spaced_of_octets (h.spaced _ row.template (List.mem_map.mpr ⟨row, hrow, rfl⟩))

/-- Rows whose templates cannot be told apart are one row. -/
theorem Holds.eq_of_clashes (h : Holds table groups) {first second : TableRow (List (RouteItem η))}
    (hfirst : first ∈ table.rows) (hsecond : second ∈ table.rows)
    (hclash : first.template.Clashes second.template) : first = second := by
  induction h with
  | empty => contradiction
  | @insert table _ _ template hholds _ hflaw ih =>
      have hapart : ∀ row ∈ table.rows, ¬ row.template.Clashes template := by
        intro row hrow hclash
        exact hclash.octets.flawWithin_ne_none hholds.spaced (List.mem_map.mpr ⟨row, hrow, rfl⟩) hflaw
      rcases List.mem_append.mp hfirst with hfirst | hfirst
      · rcases List.mem_append.mp hsecond with hsecond | hsecond
        · exact ih hfirst hsecond
        · obtain rfl := List.mem_singleton.mp hsecond
          exact absurd hclash (hapart first hfirst)
      · obtain rfl := List.mem_singleton.mp hfirst
        rcases List.mem_append.mp hsecond with hsecond | hsecond
        · exact absurd hclash.symm (hapart second hsecond)
        · exact (List.mem_singleton.mp hsecond).symm

end Router

end Turnpike
