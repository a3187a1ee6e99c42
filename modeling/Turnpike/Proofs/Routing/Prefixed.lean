import Turnpike.Proofs.Routing.Selection

/-!
A table whose templates all start with one text.  A path that starts with the text finds in it what the
rest of the path finds in the table without the text; and where a template was the root, it is now what
the text alone finds.
-/

namespace Turnpike

namespace Branches

variable {α β : Type} {branches : Branches α}

/-! What the entries are does not matter to the walk. -/

/-- Branches that lead to something made of what they led to. -/
def mapEntries (f : α → β) (branches : Branches α) : Branches β :=
  branches.map fun branch => (branch.1, f branch.2)

variable (f : α → β) (branches)

theorem afterLiteral_mapEntries (c : Char) :
    (mapEntries f branches).afterLiteral c = mapEntries f (branches.afterLiteral c) := by
  rw [afterLiteral, afterLiteral, mapEntries, mapEntries, List.filterMap_map, List.map_filterMap]
  refine congrArg (branches.filterMap ·) (funext fun branch => ?_)
  obtain ⟨_ | ⟨d | name | name, later⟩, entry⟩ := branch
  · rfl
  · by_cases h : d = c <;> simp [h]
  · rfl
  · rfl

theorem afterParam_mapEntries :
    (mapEntries f branches).afterParam = mapEntries f branches.afterParam := by
  rw [afterParam, afterParam, mapEntries, mapEntries, List.filterMap_map, List.map_filterMap]
  refine congrArg (branches.filterMap ·) (funext fun branch => ?_)
  obtain ⟨_ | ⟨d | name | name, later⟩, entry⟩ := branch <;> rfl

theorem afterText_mapEntries (text : List Char) :
    (mapEntries f branches).afterText text = mapEntries f (branches.afterText text) := by
  induction text generalizing branches with
  | nil => rfl
  | cons c text ih =>
      rw [afterText, List.foldl_cons, afterLiteral_mapEntries]
      exact ih (branches.afterLiteral c)

theorem ended?_mapEntries : (mapEntries f branches).ended? = branches.ended?.map f := by
  rw [ended?, ended?, mapEntries, List.find?_map, Option.map_map, Option.map_map]
  rfl

theorem rest?_mapEntries : (mapEntries f branches).rest? = branches.rest?.map f := by
  rw [rest?, rest?, mapEntries, List.find?_map, Option.map_map, Option.map_map]
  rfl

theorem suffixFor?_mapEntries (text : List Char) :
    (mapEntries f branches).suffixFor? text = branches.suffixFor? text := by
  rw [suffixFor?, suffixFor?, suffixes, suffixes, mapEntries, List.map_map]
  rfl

theorem findWithin_mapEntries (fuel : Nat) (path : List Char) :
    findWithin fuel (mapEntries f branches) path =
      (findWithin fuel branches path).map fun found => (f found.1, found.2) := by
  induction fuel generalizing branches path with
  | zero =>
      cases path with
      | nil => rw [findWithin, findWithin, ended?_mapEntries, Option.map_map, Option.map_map]; rfl
      | cons c path => rfl
  | succ fuel ih =>
      cases path with
      | nil => rw [findWithin, findWithin, ended?_mapEntries, Option.map_map, Option.map_map]; rfl
      | cons c path =>
          rw [findWithin, findWithin, afterLiteral_mapEntries, ih, rest?_mapEntries,
            afterParam_mapEntries]
          cases hliteral : findWithin fuel (branches.afterLiteral c) path with
          | some found => rfl
          | none =>
              cases hrest : branches.rest? with
              | some entry => rfl
              | none =>
                  simp only [Option.map_none, suffixFor?_mapEntries, afterText_mapEntries, ih,
                    ended?_mapEntries]
                  split
                  · rfl
                  · split
                    · rw [Option.map_map, Option.map_map]
                      rfl
                    · split
                      · rfl
                      · rw [Option.map_map, Option.map_map]
                        rfl

/-! Branches that all go on with literal text. -/

variable {f branches}

/-- Every branch goes on with literal text. -/
def AllLiteral (branches : Branches α) : Prop :=
  ∀ template entry, (template, entry) ∈ branches →
    ∃ c later, template = TemplateToken.literal c :: later

theorem AllLiteral.rest? (h : branches.AllLiteral) : branches.rest? = none := by
  refine rest?_eq_none.mpr fun name later entry hmem => ?_
  obtain ⟨c, behind, ⟨⟩⟩ := h _ _ hmem

theorem AllLiteral.afterParam (h : branches.AllLiteral) : branches.afterParam = [] := by
  refine List.eq_nil_iff_forall_not_mem.mpr fun ⟨later, entry⟩ hmem => ?_
  obtain ⟨name, hparam⟩ := mem_afterParam.mp hmem
  obtain ⟨c, behind, ⟨⟩⟩ := h _ _ hparam

/-- There is but one way to go on. -/
theorem AllLiteral.findWithin_cons (h : branches.AllLiteral) (fuel : Nat) (c : Char)
    (path : List Char) : findWithin (fuel + 1) branches (c :: path) =
      findWithin fuel (branches.afterLiteral c) path := by
  rw [findWithin, h.rest?, h.afterParam]
  cases findWithin fuel (branches.afterLiteral c) path with
  | some found => rfl
  | none =>
      have hnone : suffixFor? ([] : Branches α) (segment (c :: path)) = none := rfl
      have hended : ended? ([] : Branches α) = none := rfl
      simp [hnone, hended]

/-- Branches behind a text. -/
def behindText (text : List Char) (branches : Branches α) : Branches α :=
  branches.map fun branch => (text.map .literal ++ branch.1, branch.2)

theorem allLiteral_behindText (c : Char) (text : List Char) (branches : Branches α) :
    (behindText (c :: text) branches).AllLiteral := by
  intro template entry hmem
  obtain ⟨branch, -, heq⟩ := List.mem_map.mp hmem
  obtain ⟨rfl, -⟩ := Prod.mk.inj heq
  exact ⟨c, _, rfl⟩

theorem afterLiteral_behindText (c : Char) (text : List Char) (branches : Branches α) :
    (behindText (c :: text) branches).afterLiteral c = behindText text branches := by
  rw [behindText, behindText, afterLiteral, List.filterMap_map]
  refine .trans (congrArg (List.filterMap · branches) ?_) (congrFun List.filterMap_eq_map branches)
  exact funext fun _ => if_pos rfl

/-- A path behind the text that all templates start with. -/
theorem find?_behindText (text path : List Char) (branches : Branches α) :
    (behindText text branches).find? (text ++ path) = branches.find? path := by
  induction text with
  | nil =>
      have hsame : behindText [] branches = branches := List.map_id _
      rw [hsame, List.nil_append]
  | cons c text ih =>
      have hall := allLiteral_behindText c text branches
      rw [List.cons_append, find?, List.length_cons, hall.findWithin_cons, afterLiteral_behindText]
      exact ih

/-! The root. -/

/-- Branches that have not come to their end. -/
def unended (branches : Branches α) : Branches α := branches.filter fun branch => !branch.1.isEmpty

theorem afterLiteral_unended (c : Char) (branches : Branches α) :
    branches.unended.afterLiteral c = branches.afterLiteral c := by
  rw [unended, afterLiteral, List.filterMap_filter, afterLiteral]
  refine congrArg (branches.filterMap ·) (funext fun branch => ?_)
  obtain ⟨_ | ⟨d | name | name, later⟩, entry⟩ := branch <;> rfl

theorem afterParam_unended (branches : Branches α) :
    branches.unended.afterParam = branches.afterParam := by
  rw [unended, afterParam, List.filterMap_filter, afterParam]
  refine congrArg (branches.filterMap ·) (funext fun branch => ?_)
  obtain ⟨_ | ⟨d | name | name, later⟩, entry⟩ := branch <;> rfl

theorem rest?_unended (branches : Branches α) : branches.unended.rest? = branches.rest? := by
  rw [unended, rest?, List.find?_filter, rest?]
  refine congrArg (fun test => (List.find? test branches).map Prod.snd) (funext fun branch => ?_)
  obtain ⟨_ | ⟨d | name | name, later⟩, entry⟩ := branch <;> rfl

/-- What has come to its end is of no matter to a path that goes on. -/
theorem findWithin_unended (fuel : Nat) (branches : Branches α) (c : Char) (path : List Char) :
    findWithin fuel branches.unended (c :: path) = findWithin fuel branches (c :: path) := by
  cases fuel with
  | zero => rfl
  | succ fuel =>
      rw [findWithin, findWithin, afterLiteral_unended, rest?_unended, afterParam_unended]

/-- Branches where one for the root has come to its end. -/
def dropRoots (branches : Branches α) : Branches α :=
  branches.map fun branch => (if branch.1 = [.literal '/'] then [] else branch.1, branch.2)

theorem afterLiteral_dropRoots (branches : Branches α) :
    branches.dropRoots.afterLiteral '/' = (branches.afterLiteral '/').unended := by
  rw [unended, dropRoots, afterLiteral, List.filterMap_map, afterLiteral, List.filter_filterMap]
  refine congrArg (branches.filterMap ·) (funext fun branch => ?_)
  obtain ⟨_ | ⟨d | name | name, later⟩, entry⟩ := branch
  · rfl
  · by_cases hslash : d = '/'
    · cases later <;> simp [hslash, Option.filter]
    · simp [hslash]
  · rfl
  · rfl

theorem AllLiteral.unended_dropRoots (h : branches.AllLiteral) :
    branches.dropRoots.unended.AllLiteral := by
  intro template entry hmem
  obtain ⟨hmem, hopen⟩ := List.mem_filter.mp hmem
  obtain ⟨⟨first, found⟩, hfound, heq⟩ := List.mem_map.mp hmem
  obtain ⟨rfl, rfl⟩ := Prod.mk.inj heq
  split at hopen
  · contradiction
  · next hother =>
    rw [if_neg hother]
    exact h _ _ hfound

theorem AllLiteral.ended?_dropRoots (h : branches.AllLiteral) :
    branches.dropRoots.ended? = (branches.afterLiteral '/').ended? := by
  induction branches with
  | nil => rfl
  | cons branch branches ih =>
      obtain ⟨template, entry⟩ := branch
      obtain ⟨c, later, rfl⟩ := h _ _ (List.mem_cons_self ..)
      have hlater := ih fun template entry hmem => h _ _ (List.mem_cons_of_mem _ hmem)
      rw [ended?, ended?] at hlater ⊢
      rw [dropRoots, List.map_cons, ← dropRoots, afterLiteral, List.filterMap_cons, ← afterLiteral]
      by_cases hslash : c = '/'
      · subst hslash
        cases later with
        | nil => rfl
        | cons token later =>
            simpa using hlater
      · simpa [hslash] using hlater

/-- Below a text the root is found by the text alone, and every other path as it was. -/
theorem AllLiteral.find?_dropRoots (h : branches.AllLiteral) :
    branches.dropRoots.find? [] = branches.find? ['/'] ∧ ∀ c path,
      branches.dropRoots.find? ('/' :: c :: path) = branches.find? ('/' :: c :: path) := by
  constructor
  · rw [find?, find?, List.length_singleton, h.findWithin_cons, findWithin, findWithin,
      h.ended?_dropRoots]
  · intro c path
    rw [find?, find?, ← findWithin_unended, List.length_cons, h.unended_dropRoots.findWithin_cons,
      afterLiteral_unended, afterLiteral_dropRoots, h.findWithin_cons, findWithin_unended]

end Branches

end Turnpike
