import Mathlib.Data.List.Nodup
import Turnpike.Proofs.Routing.Order

/-!
How often a method is registered for a pattern.  Two registrations of one pattern share no method, or
the router does not build, whichever way they came and however the pattern was written.  A list of
methods is not held against itself, though: a route of its own may list a method twice.
-/

namespace Turnpike

variable {η : Type}

/-- No method is registered for a pattern by both of two routes. -/
def DraftRoute.Apart (first second : DraftRoute η) : Prop :=
  ∀ pattern, RoutePattern.parse first.1 = .ok pattern → RoutePattern.parse second.1 = .ok pattern →
    first.2.methods.Disjoint second.2.methods

namespace RouteItem

def Apart (first second : RouteItem η) : Prop :=
  first.pattern = second.pattern → first.methods.Disjoint second.methods

/-- All methods that items list for a pattern, as often as they list them. -/
def methodsFor (items : List (RouteItem η)) (pattern : RoutePattern) : List Method :=
  (items.filter fun item => item.pattern = pattern).flatMap methods

variable {items : List (RouteItem η)} {routes : List (DraftRoute η)} {item : RouteItem η}
  {pattern : RoutePattern} {method : Method}

theorem exists_route_of_carries (hcarry : List.Forall₂ Carries items routes) (h : item ∈ items) :
    ∃ route ∈ routes, item.Carries route := by
  induction hcarry with
  | nil => contradiction
  | @cons first route items routes hfirst _ ih =>
      rcases List.mem_cons.mp h with rfl | hlater
      · exact ⟨route, List.mem_cons_self .., hfirst⟩
      · obtain ⟨found, hfound, hcarries⟩ := ih hlater
        exact ⟨found, List.mem_cons_of_mem _ hfound, hcarries⟩

theorem apart_of_carries (hcarry : List.Forall₂ Carries items routes)
    (h : routes.Pairwise DraftRoute.Apart) : items.Pairwise Apart := by
  induction hcarry with
  | nil => exact .nil
  | @cons item route items routes hitem hcarry ih =>
      obtain ⟨hfirst, hlater⟩ := List.pairwise_cons.mp h
      refine .cons ?_ (ih hlater)
      intro other hother hsame
      obtain ⟨found, hfound, hcarries⟩ := exists_route_of_carries hcarry hother
      have hdisjoint := hfirst found hfound _ hitem.pattern (hsame ▸ hcarries.pattern)
      rw [← hitem.endpoint, ← hcarries.endpoint] at hdisjoint
      exact hdisjoint

theorem mem_methodsFor : method ∈ methodsFor items pattern ↔
    ∃ item ∈ items, item.pattern = pattern ∧ method ∈ item.methods := by
  simp [methodsFor, and_assoc]

theorem methodsFor_cons (item : RouteItem η) (items : List (RouteItem η)) (pattern : RoutePattern) :
    methodsFor (item :: items) pattern =
      (if item.pattern = pattern then item.methods else []) ++ methodsFor items pattern := by
  unfold methodsFor
  by_cases h : item.pattern = pattern <;> simp [h]

/-- Where items are apart, a method is listed for a pattern by one of them only. -/
theorem count_methodsFor (hapart : items.Pairwise Apart) (hitem : item ∈ items)
    (hmethod : method ∈ item.methods) :
    (methodsFor items item.pattern).count method = item.methods.count method := by
  induction items with
  | nil => contradiction
  | cons first items ih =>
      obtain ⟨hfirst, hlater⟩ := List.pairwise_cons.mp hapart
      rw [methodsFor_cons, List.count_append]
      rcases List.mem_cons.mp hitem with rfl | hitem
      · have hnone : method ∉ methodsFor items item.pattern := by
          intro hlisted
          obtain ⟨other, hother, hsame, hboth⟩ := mem_methodsFor.mp hlisted
          exact hfirst other hother hsame.symm hmethod hboth
        rw [if_pos rfl, List.count_eq_zero.mpr hnone, Nat.add_zero]
      · have hnone : method ∉ if first.pattern = item.pattern then first.methods else [] := by
          split
          · next hsame => exact fun hlisted => hfirst item hitem hsame hlisted hmethod
          · exact List.not_mem_nil
        rw [List.count_eq_zero.mpr hnone, Nat.zero_add, ih hlater hitem]

end RouteItem

/-! Routes that are grouped. -/

namespace RouteGroups

variable {groups next : RouteGroups η} {items : List (RouteItem η)} {route : DraftRoute η}
  {routes : List (DraftRoute η)}

/-- All that it takes for a route to be registered. -/
theorem register_inv (h : groups.register route = .ok next) : route.2.methods ≠ [] ∧
    ∃ pattern, RoutePattern.parse route.1 = .ok pattern ∧
      groups.taken? pattern route.2.methods = none ∧ next = groups.add ⟨route.2, pattern⟩ := by
  unfold register at h
  split at h
  · contradiction
  · next hsome =>
    refine ⟨mt List.isEmpty_iff.mpr hsome, ?_⟩
    split at h
    · contradiction
    · next pattern hpattern =>
      split at h
      · contradiction
      · next hfree => exact ⟨pattern, hpattern, hfree, (Except.ok.inj h).symm⟩

theorem Gathers.disjoint_of_free (h : Gathers groups items) {pattern : RoutePattern}
    {methods : List Method} (hfree : groups.taken? pattern methods = none) {item : RouteItem η}
    (hitem : item ∈ items) (hpattern : item.pattern = pattern) : item.methods.Disjoint methods := by
  intro method hlisted hmethod
  have hnone := List.find?_eq_none.mp hfree method hmethod
  refine hnone (List.any_eq_true.mpr ⟨item, ?_, ?_⟩)
  · rw [h.items]
    exact List.mem_filter.mpr ⟨hitem, by simp [hpattern]⟩
  · simpa [hpattern, RouteItem.answers] using hlisted

/-- Routes that are grouped have methods, and no two of one pattern share any. -/
theorem apart_ofRoutes (h : ofRoutes routes = .ok groups) :
    (∀ route ∈ routes, route.2.methods ≠ []) ∧ routes.Pairwise DraftRoute.Apart := by
  suffices hfold : ∀ (before : List (RouteItem η)) (first : RouteGroups η), Gathers first before →
      routes.foldlM register first = .ok groups →
        (∀ route ∈ routes, route.2.methods ≠ []) ∧ routes.Pairwise DraftRoute.Apart ∧
          ∀ item ∈ before, ∀ route ∈ routes, RoutePattern.parse route.1 = .ok item.pattern →
            item.methods.Disjoint route.2.methods by
    obtain ⟨hsome, hapart, -⟩ := hfold [] [] ⟨List.nodup_nil, fun _ => rfl⟩ h
    exact ⟨hsome, hapart⟩
  clear h
  induction routes with
  | nil => exact fun _ _ _ _ => ⟨nofun, .nil, fun _ _ => nofun⟩
  | cons route routes ih =>
      intro before first hfirst h
      rw [List.foldlM_cons] at h
      cases hregister : first.register route with
      | error fault =>
          rw [hregister] at h
          contradiction
      | ok next =>
          rw [hregister] at h
          obtain ⟨hsome, pattern, hpattern, hfree, rfl⟩ := register_inv hregister
          obtain ⟨hothers, hapart, hbefore⟩ := ih _ _ (hfirst.add ⟨route.2, pattern⟩) h
          refine ⟨List.forall_mem_cons.mpr ⟨hsome, hothers⟩, .cons ?_ hapart, ?_⟩
          · intro other hother same hsame hparse
            obtain rfl := Except.ok.inj (hpattern.symm.trans hsame)
            exact hbefore ⟨route.2, pattern⟩ (List.mem_append_right _ (List.mem_singleton.mpr rfl))
              other hother hparse
          · intro item hitem
            refine List.forall_mem_cons.mpr ⟨?_, hbefore item (List.mem_append_left _ hitem)⟩
            intro hparse
            exact hfirst.disjoint_of_free hfree hitem (Except.ok.inj (hparse.symm.trans hpattern))

end RouteGroups

namespace Router

variable {builder : RouterBuilder η} {router : Router η}

/-- The items of a router that builds list some method each, and no two of one pattern share any. -/
theorem apart_of_build (hbuild : builder.build = .ok router) :
    ∃ items, List.Forall₂ RouteItem.Carries items builder.draft.routes ∧ router.Keeps items ∧
      (∀ item ∈ items, item.methods ≠ []) ∧ items.Pairwise RouteItem.Apart := by
  obtain ⟨items, hcarry, hkeeps⟩ := keeps_of_build hbuild
  obtain ⟨groups, hgroups, -⟩ := RouterBuilder.groups_of_build hbuild
  obtain ⟨hsome, hapart⟩ := RouteGroups.apart_ofRoutes hgroups
  refine ⟨items, hcarry, hkeeps, ?_, RouteItem.apart_of_carries hcarry hapart⟩
  intro item hitem
  obtain ⟨route, hroute, hcarries⟩ := RouteItem.exists_route_of_carries hcarry hitem
  rw [RouteItem.methods, hcarries.endpoint]
  exact hsome route hroute

theorem Keeps.apart_row {items : List (RouteItem η)} (h : router.Keeps items)
    (hapart : items.Pairwise RouteItem.Apart) {row : TableRow (List (RouteItem η))}
    (hrow : row ∈ router.table.rows) : row.entry.Pairwise RouteItem.Apart := by
  rw [h.row row hrow]
  exact hapart.filter _

/-- A method is listed for a pattern as often as the one item lists it that has it. -/
theorem count_methodsFor_of_build (hbuild : builder.build = .ok router)
    {row : TableRow (List (RouteItem η))} (hrow : row ∈ router.table.rows) {item : RouteItem η}
    (hitem : item ∈ row.entry) {method : Method} (hmethod : method ∈ item.methods) :
    (RouteItem.methodsFor row.entry item.pattern).count method = item.methods.count method := by
  obtain ⟨items, -, hkeeps, -, hapart⟩ := apart_of_build hbuild
  exact RouteItem.count_methodsFor (hkeeps.apart_row hapart hrow) hitem hmethod

/-- Each method that is listed for a pattern is listed for it once. -/
def ListsOnce (router : Router η) : Prop :=
  ∀ row ∈ router.table.rows, ∀ item ∈ row.entry, ∀ method ∈ item.methods,
    (RouteItem.methodsFor row.entry item.pattern).count method = 1

theorem listsOnce_iff (hbuild : builder.build = .ok router) :
    router.ListsOnce ↔ ∀ route ∈ builder.draft.routes, route.2.methods.Nodup := by
  constructor
  · intro h route hroute
    obtain ⟨item, hitem, hendpoint, -⟩ := exists_item_of_build hbuild hroute
    obtain ⟨row, hrow, hentry⟩ := mem_items.mp hitem
    rw [← hendpoint, List.nodup_iff_count_eq_one]
    intro method hmethod
    exact (count_methodsFor_of_build hbuild hrow hentry hmethod).symm.trans
      (h row hrow item hentry method hmethod)
  · intro h row hrow item hentry method hmethod
    obtain ⟨path, hroute, -⟩ := comesFrom_of_build hbuild (mem_items.mpr ⟨row, hrow, hentry⟩)
    rw [count_methodsFor_of_build hbuild hrow hentry hmethod]
    exact List.count_eq_one_of_mem (h _ hroute) hmethod

end Router

/-! The ways to register. -/

theorem Method.repeated?_eq_none {taken methods : List Method} :
    repeated? taken methods = none ↔ methods.Nodup ∧ taken.Disjoint methods := by
  induction methods generalizing taken with
  | nil => simp [repeated?]
  | cons method methods ih =>
      rw [repeated?]
      split
      · next htaken => simp [htaken]
      · next hfree =>
        rw [ih, List.nodup_cons, List.disjoint_cons_left, List.disjoint_cons_right]
        tauto

/-- A composition holds what it is given against itself. -/
theorem CompositionView.nodup_of_entries {entries : List (Endpoint WebHandler)}
    (h : (ofEntries entries).fault? = none) : ∀ entry ∈ entries, entry.methods.Nodup := by
  suffices hfold : ∀ view : CompositionView WebHandler, (entries.foldl add view).repeated = none →
      view.repeated = none ∧ ∀ entry ∈ entries, entry.methods.Nodup by
    exact (hfold empty (Option.map_eq_none_iff.mp h)).2
  clear h
  induction entries with
  | nil => exact fun view h => ⟨h, nofun⟩
  | cons entry entries ih =>
      intro view h
      obtain ⟨hnone, hlater⟩ := ih (view.add entry) h
      unfold add at hnone
      split at hnone
      · -- a repeated method stays
        simp at hnone
      · next hfresh =>
        exact ⟨hnone, List.forall_mem_cons.mpr ⟨(Method.repeated?_eq_none.mp hfresh).1, hlater⟩⟩

/-- Only a route of its own can list a method twice. -/
theorem Enrolment.nodup_flattened_iff {enrolment : Enrolment}
    (h : enrolment.registration.fault? = none) :
    (∀ route ∈ enrolment.flattened, route.2.methods.Nodup) ↔
      ∀ path endpoint, enrolment = .route path endpoint → endpoint.methods.Nodup := by
  cases enrolment with
  | route path endpoint => simp [flattened]
  | view path given => simp [flattened]
  | composition path entries =>
      have hall := CompositionView.nodup_of_entries h
      simpa [flattened] using hall

namespace Section

def enrolments : Section → List Enrolment
  | .own enrolment => [enrolment]
  | .blueprint _ _ enrolments => enrolments

theorem registrations_mounting (part : Section) :
    part.mounting.registrations = part.enrolments.map Enrolment.registration := by
  cases part <;> rfl

/-- Where a blueprint is mounted is of no matter to the methods of its routes. -/
theorem forall_flattened_iff (part : Section) (holds : Endpoint WebHandler → Prop) :
    (∀ route ∈ part.flattened, holds route.2) ↔
      ∀ enrolment ∈ part.enrolments, ∀ route ∈ enrolment.flattened, holds route.2 := by
  match part with
  | .own enrolment => simp [flattened, enrolments]
  | .blueprint _ none _ => exact List.forall_mem_flatMap
  | .blueprint _ (some _) _ =>
      simp only [flattened, enrolments, List.forall_mem_map, List.forall_mem_flatMap]

end Section

namespace RouterBuilder

variable {sections : List Section} {router : Router WebHandler}

theorem sound_enrolment (hbuild : (ofSections sections).build = .ok router) {part : Section}
    (hpart : part ∈ sections) {enrolment : Enrolment} (h : enrolment ∈ part.enrolments) :
    enrolment.registration.fault? = none := by
  refine (takes_ofMountings (fault_of_build hbuild)).sound _ ?_
  refine List.mem_flatMap.mpr ⟨part.mounting, List.mem_map_of_mem hpart, ?_⟩
  rw [part.registrations_mounting]
  exact List.mem_map_of_mem h

theorem listsOnce_ofSections_iff (hbuild : (ofSections sections).build = .ok router) :
    router.ListsOnce ↔ ∀ part ∈ sections, ∀ path endpoint,
      .route path endpoint ∈ part.enrolments → endpoint.methods.Nodup := by
  rw [Router.listsOnce_iff hbuild, routes_ofSections hbuild, List.forall_mem_flatMap]
  refine forall₂_congr fun part hpart => ?_
  rw [part.forall_flattened_iff fun endpoint => endpoint.methods.Nodup]
  constructor
  · intro h path endpoint hmem
    exact (Enrolment.nodup_flattened_iff (sound_enrolment hbuild hpart hmem)).mp (h _ hmem) _ _ rfl
  · intro h enrolment hmem
    refine (Enrolment.nodup_flattened_iff (sound_enrolment hbuild hpart hmem)).mpr ?_
    rintro path endpoint rfl
    exact h path endpoint hmem

theorem exists_fault {builder : RouterBuilder η} (h : ∀ router, builder.build ≠ .ok router) :
    ∃ fault, builder.build = .error fault := by
  cases hbuild : builder.build with
  | error fault => exact ⟨fault, rfl⟩
  | ok router => exact absurd hbuild (h router)

/-- In a router that builds a method is listed for a pattern by one item, as often as that item was
given it: once, unless a route of its own repeats it.  Where two routes of one pattern share a method,
or a composition repeats one, no router is built. -/
theorem build_lists_once (sections : List Section) :
    (∀ router, (ofSections sections).build = .ok router →
      (∀ row ∈ router.table.rows, ∀ item ∈ row.entry, ∀ method ∈ item.methods,
        (RouteItem.methodsFor row.entry item.pattern).count method = item.methods.count method) ∧
      (router.ListsOnce ↔ ∀ part ∈ sections, ∀ path endpoint,
        .route path endpoint ∈ part.enrolments → endpoint.methods.Nodup)) ∧
    ((¬ (sections.flatMap Section.flattened).Pairwise DraftRoute.Apart ∨
      ∃ part ∈ sections, ∃ path entries, .composition path entries ∈ part.enrolments ∧
        ∃ entry ∈ entries, ¬ entry.methods.Nodup) →
      ∃ fault, (ofSections sections).build = .error fault) := by
  refine ⟨fun router hbuild => ⟨?count, listsOnce_ofSections_iff hbuild⟩, fun h => ?refused⟩
  case count =>
    intro row hrow item hitem method hmethod
    exact Router.count_methodsFor_of_build hbuild hrow hitem hmethod
  case refused =>
    refine exists_fault fun router hbuild => ?_
    rcases h with hshared | ⟨part, hpart, path, entries, hmem, entry, hentry, hrepeats⟩
    · obtain ⟨groups, hgroups, -⟩ := groups_of_build hbuild
      rw [routes_ofSections hbuild] at hgroups
      exact hshared (RouteGroups.apart_ofRoutes hgroups).2
    · have hsound : (CompositionView.ofEntries entries).fault? = none :=
        sound_enrolment hbuild hpart hmem
      exact hrepeats (CompositionView.nodup_of_entries hsound entry hentry)

/-- One pattern in braces and in angle brackets, registered as a route, a view and a composition below
a mount.  Each of its methods is listed once; with one more `DELETE` there is no router. -/
theorem build_lists_once_of_one_pattern :
    let answer : WebHandler := .fail ""
    let view : MethodView := ⟨[.post, .put], [], fun _ => none⟩
    let sections : List Section :=
      [.own (.route "/item/<id>" ⟨[.get, .head], answer, false⟩), .own (.view "/item/{id}" view),
        .blueprint "more" (some "/item/") [.composition "<id:str>" [⟨[.delete], answer, true⟩]]]
    (∃ router, (ofSections sections).build = .ok router ∧ router.items.length = 4 ∧
      router.ListsOnce) ∧
    ∃ fault, (ofSections (sections ++
      [.own (.composition "/item/<id>" [⟨[.delete], answer, false⟩])])).build = .error fault := by
  intro answer view sections
  constructor
  · have hbuilds : ((ofSections sections).build.toOption.map fun router => router.items.length) =
        some 4 := by decide
    obtain ⟨router, hbuild, hlength⟩ := Option.map_eq_some_iff.mp hbuilds
    have hbuilt := Except.eq_ok_of_toOption hbuild
    refine ⟨router, hbuilt, hlength, (((build_lists_once sections).1 router hbuilt).2).mpr ?_⟩
    simp [sections, Section.enrolments, show Method.get ≠ .head by decide]
  · refine (build_lists_once _).2 (.inl fun happart => ?_)
    have hparse : RoutePattern.parse "/item/<id>" = .ok ⟨"/item/{id}", []⟩ := by decide
    have hmounted : RoutePattern.parse (Blueprint.joinedText "/item/" "<id:str>") =
        .ok ⟨"/item/{id}", []⟩ := by decide
    rw [List.flatMap_append, List.pairwise_append] at happart
    have hdisjoint := happart.2.2 (Blueprint.joinedText "/item/" "<id:str>", ⟨[.delete], answer, true⟩)
      (List.mem_of_getElem? (i := 3) rfl) ("/item/<id>", ⟨[.delete], answer, false⟩)
      (List.mem_of_getElem? (i := 0) rfl) _ hmounted hparse
    exact hdisjoint (List.mem_singleton.mpr rfl) (List.mem_singleton.mpr rfl)

/-- A route of its own that repeats a method is registered all the same. -/
theorem build_lists_twice : ∃ router,
    (ofSections [.own (.route "/a" ⟨[.get, .get], .fail "", false⟩)]).build = .ok router ∧
      ∃ row ∈ router.table.rows, ∃ item ∈ row.entry, .get ∈ item.methods ∧
        (RouteItem.methodsFor row.entry item.pattern).count .get = 2 := by
  have hbuilds : ((ofSections [.own (.route "/a" ⟨[.get, .get], .fail "", false⟩)]).build.toOption.map
      fun router => router.table.rows.any fun row => row.entry.any fun item =>
        .get ∈ item.methods ∧ (RouteItem.methodsFor row.entry item.pattern).count .get = 2) =
      some true := by
    decide
  obtain ⟨router, hbuild, hrows⟩ := Option.map_eq_some_iff.mp hbuilds
  obtain ⟨row, hrow, hentry⟩ := List.any_eq_true.mp hrows
  obtain ⟨item, hitem, hcount⟩ := List.any_eq_true.mp hentry
  exact ⟨router, Except.eq_ok_of_toOption hbuild, row, hrow, item, hitem, of_decide_eq_true hcount⟩

end RouterBuilder

end Turnpike
