import Mathlib.Data.List.Induction

/-!
Lists whose parts are judged one after another, each by those before it.  Of the parts that are at
fault the first is what counts, and a fold that may fail stops there.
-/

namespace Turnpike

variable {α β ε σ : Type}

/-- Nothing in a list is at fault, where each part is judged by those before it. -/
def Faultless (judge : List α → α → ε → Prop) (parts : List α) : Prop :=
  ∀ before part after, parts = before ++ part :: after → ∀ fault, ¬ judge before part fault

/-- A fault of some part of a list, and nothing before that part is at fault. -/
def FirstFault (judge : List α → α → ε → Prop) (parts : List α) (fault : ε) : Prop :=
  ∃ before part after, parts = before ++ part :: after ∧ Faultless judge before ∧
    judge before part fault

section

variable {judge : List α → α → ε → Prop} {parts : List α} {part : α} {fault : ε}

theorem faultless_nil : Faultless judge [] := by
  intro before part after hsplit
  simp at hsplit

theorem FirstFault.not_faultless (h : FirstFault judge parts fault) : ¬ Faultless judge parts := by
  obtain ⟨before, part, after, hsplit, -, hpart⟩ := h
  exact fun hnone => hnone before part after hsplit fault hpart

theorem concat_eq_append_cons {before after : List α} {other : α}
    (h : parts ++ [part] = before ++ other :: after) :
    (after = [] ∧ before = parts ∧ other = part) ∨
      ∃ between, after = between ++ [part] ∧ parts = before ++ other :: between := by
  rcases List.eq_nil_or_concat after with rfl | ⟨between, last, rfl⟩
  · obtain ⟨hbefore, hpart⟩ := List.append_inj' h rfl
    exact .inl ⟨rfl, hbefore.symm, (List.singleton_inj.mp hpart).symm⟩
  · rw [List.concat_eq_append, ← List.cons_append, ← List.append_assoc] at h
    obtain ⟨hparts, hlast⟩ := List.append_inj' h rfl
    exact .inr ⟨between, by rw [List.concat_eq_append, hlast], hparts⟩

theorem faultless_concat : Faultless judge (parts ++ [part]) ↔
    Faultless judge parts ∧ ∀ fault, ¬ judge parts part fault := by
  constructor
  · intro h
    refine ⟨?_, h parts part [] rfl⟩
    intro before other after hsplit
    exact h before other (after ++ [part]) (by rw [hsplit, List.append_assoc, List.cons_append])
  · intro h before other after hsplit
    rcases concat_eq_append_cons hsplit with ⟨-, rfl, rfl⟩ | ⟨between, -, hparts⟩
    · exact h.2
    · exact h.1 before other between hparts

theorem faultless_singleton : Faultless judge [part] ↔ ∀ fault, ¬ judge [] part fault := by
  rw [← List.nil_append [part], faultless_concat]
  exact and_iff_right faultless_nil

theorem firstFault_concat : FirstFault judge (parts ++ [part]) fault ↔
    FirstFault judge parts fault ∨ Faultless judge parts ∧ judge parts part fault := by
  constructor
  · intro h
    obtain ⟨before, other, after, hsplit, hnone, hother⟩ := h
    rcases concat_eq_append_cons hsplit with ⟨-, rfl, rfl⟩ | ⟨between, -, hparts⟩
    · exact .inr ⟨hnone, hother⟩
    · exact .inl ⟨before, other, between, hparts, hnone, hother⟩
  · intro h
    rcases h with ⟨before, other, after, rfl, hnone, hother⟩ | ⟨hnone, hpart⟩
    · exact ⟨before, other, after ++ [part], by rw [List.append_assoc, List.cons_append], hnone,
        hother⟩
    · exact ⟨parts, part, [], rfl, hnone, hpart⟩

theorem not_firstFault_nil : ¬ FirstFault judge [] fault := fun h => h.not_faultless faultless_nil

theorem faultless_iff : Faultless judge parts ↔ ∀ fault, ¬ FirstFault judge parts fault := by
  constructor
  · exact fun hnone fault h => h.not_faultless hnone
  · intro h
    induction parts using List.reverseRecOn with
    | nil => exact faultless_nil
    | append_singleton parts part ih =>
        have hparts := ih fun fault hfirst => h fault (firstFault_concat.mpr (.inl hfirst))
        refine faultless_concat.mpr ⟨hparts, ?_⟩
        exact fun fault hpart => h fault (firstFault_concat.mpr (.inr ⟨hparts, hpart⟩))

/-- What fails for the first fault and succeeds has found none. -/
theorem faultless_of_eq_ok {result : Except ε σ} {value : σ}
    (hfails : ∀ fault, result = .error fault ↔ FirstFault judge parts fault)
    (hvalue : result = .ok value) : Faultless judge parts := by
  refine faultless_iff.mpr fun fault hfirst => ?_
  rw [(hfails fault).mpr hfirst] at hvalue
  contradiction

/-- What is judged may stand for something else. -/
theorem firstFault_map {f : β → α} {others : List β} : FirstFault judge (others.map f) fault ↔
    FirstFault (fun before other => judge (before.map f) (f other)) others fault := by
  induction others using List.reverseRecOn generalizing fault with
  | nil => exact iff_of_false not_firstFault_nil not_firstFault_nil
  | append_singleton others other ih =>
      have hnone : Faultless judge (others.map f) ↔
          Faultless (fun before other => judge (before.map f) (f other)) others := by
        rw [faultless_iff, faultless_iff]
        exact forall_congr' fun fault => not_congr ih
      rw [List.map_append, List.map_singleton, firstFault_concat, firstFault_concat, ih, hnone]

/-- A fold that may fail stops at the first part at fault, if each of its steps fails for just what
its part is at fault. -/
theorem foldlM_judged {step : σ → α → Except ε σ} {start : σ} (Reached : List α → σ → Prop)
    (hstart : Reached [] start)
    (hfails : ∀ before state part fault, Reached before state →
      (step state part = .error fault ↔ judge before part fault))
    (hgoes : ∀ before state part next, Reached before state → step state part = .ok next →
      Reached (before ++ [part]) next) (parts : List α) :
    (∀ fault, parts.foldlM step start = .error fault ↔ FirstFault judge parts fault) ∧
      ∀ last, parts.foldlM step start = .ok last → Reached parts last := by
  induction parts using List.reverseRecOn with
  | nil =>
      refine ⟨fun fault => iff_of_false nofun not_firstFault_nil, ?_⟩
      rintro _ ⟨⟩
      exact hstart
  | append_singleton parts part ih =>
      obtain ⟨herror, hreached⟩ := ih
      rw [List.foldlM_append]
      cases hparts : parts.foldlM step start with
      | error earlier =>
          have hearlier := (herror earlier).mp hparts
          refine ⟨fun fault => ?_, nofun⟩
          rw [firstFault_concat, ← herror fault, hparts]
          exact ⟨.inl, fun h => h.resolve_right fun hlater => hearlier.not_faultless hlater.1⟩
      | ok state =>
          have hstate := hreached state hparts
          have hnone := faultless_of_eq_ok herror hparts
          have hlast : (Except.ok state >>= fun state => [part].foldlM step state) =
              step state part := by
            change (step state part >>= fun next => pure next) = _
            rw [bind_pure]
          rw [hlast]
          refine ⟨fun fault => ?_, fun next hnext => hgoes parts state part next hstate hnext⟩
          rw [hfails parts state part fault hstate, firstFault_concat]
          exact ⟨fun h => .inr ⟨hnone, h⟩,
            fun h => (h.resolve_left fun hfirst => hfirst.not_faultless hnone).2⟩

end

/-! The first of equal values. -/

theorem eraseDups_concat [BEq α] [LawfulBEq α] (values : List α) (value : α) :
    (values ++ [value]).eraseDups =
      if value ∈ values then values.eraseDups else values.eraseDups ++ [value] := by
  rw [List.eraseDups_append]
  split
  · next hmem => rw [List.removeAll, List.filter_eq_nil_iff.mpr (by simpa using hmem)]; simp
  · next hfresh => rw [List.removeAll, List.filter_eq_self.mpr (by simpa using hfresh)]; rfl

theorem eraseDups_map [BEq α] [LawfulBEq α] [BEq β] [LawfulBEq β] {f : α → β}
    {values : List α} (h : ∀ first ∈ values, ∀ second ∈ values, f first = f second → first = second) :
    (values.map f).eraseDups = values.eraseDups.map f := by
  induction values using List.reverseRecOn with
  | nil => rfl
  | append_singleton values value ih =>
      have hlater := ih fun first hfirst second hsecond =>
        h first (List.mem_append_left _ hfirst) second (List.mem_append_left _ hsecond)
      have hmem : f value ∈ values.map f ↔ value ∈ values := by
        refine ⟨fun hmap => ?_, List.mem_map_of_mem⟩
        obtain ⟨other, hother, heq⟩ := List.mem_map.mp hmap
        rw [← h other (List.mem_append_left _ hother) value (by simp) heq]
        exact hother
      rw [List.map_append, List.map_singleton, eraseDups_concat, eraseDups_concat, hlater]
      simp only [hmem]
      split
      · rfl
      · rw [List.map_append, List.map_singleton]

end Turnpike
