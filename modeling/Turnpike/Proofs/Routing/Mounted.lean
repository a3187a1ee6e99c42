import Turnpike.Proofs.Routing.Joined
import Turnpike.Proofs.Routing.Prefixed

/-!
A blueprint below a mount.  Below literal text its routes are what they are without: where the blueprint
builds by itself it builds below the mount, and a path below the mount comes to what the path comes to
without it.  The mount alone stands for the root.
-/

namespace Turnpike

variable {η : Type}

/-! Routes and items. -/

theorem RoutePattern.under_inj {mount : String} {first second : RoutePattern}
    (hfirst : first.template.toList.head? = some '/')
    (hsecond : second.template.toList.head? = some '/')
    (h : first.under mount = second.under mount) : first = second := by
  obtain ⟨htemplate, hnumbers⟩ := RoutePattern.mk.inj h
  have hsame := Blueprint.joinedText_inj hfirst hsecond htemplate
  cases first
  cases second
  exact congrArg₂ RoutePattern.mk hsame hnumbers

namespace DraftRoute

/-- A route below a mount. -/
def under (mount : String) (route : DraftRoute η) : DraftRoute η :=
  (Blueprint.joinedText mount route.1, route.2)

variable {mount : String} {routes : List (DraftRoute η)} {pattern : RoutePattern}

theorem parse_of_faultless (h : Faultless AtFault routes) : ∀ route ∈ routes,
    ∃ pattern, RoutePattern.parse route.1 = .ok pattern := by
  intro route hroute
  have hsome := methods_of_faultless h route hroute
  obtain ⟨before, after, rfl⟩ := List.append_of_mem hroute
  cases hparse : RoutePattern.parse route.1 with
  | ok pattern => exact ⟨pattern, rfl⟩
  | error flaw => exact absurd (.invalidPattern hsome hparse) (h before route after rfl _)

theorem isRegistered_under (hliteral : Blueprint.IsLiteral mount)
    (hparses : ∀ route ∈ routes, ∃ pattern, RoutePattern.parse route.1 = .ok pattern)
    (hrooted : pattern.template.toList.head? = some '/') {method : Method} :
    IsRegistered (routes.map (under mount)) (pattern.under mount) method ↔
      IsRegistered routes pattern method := by
  constructor
  · rintro ⟨_, hmem, hparse, hmethod⟩
    obtain ⟨route, hroute, rfl⟩ := List.mem_map.mp hmem
    obtain ⟨found, hfound⟩ := hparses route hroute
    have hsame := Except.ok.inj ((RoutePattern.parse_joined hliteral hfound).symm.trans hparse)
    rw [RoutePattern.under_inj (RoutePattern.rooted_of_parse hfound) hrooted hsame] at hfound
    exact ⟨route, hroute, hfound, hmethod⟩
  · rintro ⟨route, hroute, hparse, hmethod⟩
    exact ⟨route.under mount, List.mem_map_of_mem hroute, RoutePattern.parse_joined hliteral hparse,
      hmethod⟩

/-- Routes that can stand in one router can stand in one below a mount. -/
theorem faultless_under (hliteral : Blueprint.IsLiteral mount) (h : Faultless AtFault routes) :
    Faultless AtFault (routes.map (under mount)) := by
  have hparses := parse_of_faultless h
  intro _ _ _ hsplit fault hfault
  obtain ⟨before, rest, rfl, rfl, hrest⟩ := List.map_eq_append_iff.mp hsplit
  obtain ⟨route, after, rfl, rfl, rfl⟩ := List.map_eq_cons_iff.mp hrest
  obtain ⟨pattern, hpattern⟩ := hparses route (List.mem_append_right _ (List.mem_cons_self ..))
  have hjoined := RoutePattern.parse_joined hliteral hpattern
  rcases hfault with hnone | ⟨-, hflaw⟩ | ⟨hparse, hmethods, hregistered, hfree⟩
  · exact h before route after rfl _ (.noMethods hnone)
  · rw [under, hjoined] at hflaw
    contradiction
  · obtain rfl := Except.ok.inj (hjoined.symm.trans hparse)
    have hsame : ∀ method, IsRegistered (before.map (under mount)) (pattern.under mount) method ↔
        IsRegistered before pattern method := fun method =>
      isRegistered_under hliteral (fun route hroute => hparses route (List.mem_append_left _ hroute))
        (RoutePattern.rooted_of_parse hpattern)
    refine h before route after rfl _ (.duplicate hpattern hmethods ((hsame _).mp hregistered) ?_)
    exact fun other hother => mt (hsame other).mpr (hfree other hother)

theorem rooted_of_mem_templates {text : String} (h : text ∈ templates routes) :
    text.toList.head? = some '/' := by
  obtain ⟨route, -, pattern, hparse, rfl⟩ := mem_templates.mp h
  exact RoutePattern.rooted_of_parse hparse

theorem templates_under (hliteral : Blueprint.IsLiteral mount)
    (hparses : ∀ route ∈ routes, ∃ pattern, RoutePattern.parse route.1 = .ok pattern) :
    templates (routes.map (under mount)) = (templates routes).map (Blueprint.joinedText mount) := by
  have hpatterns : (routes.map (under mount)).filterMap
      (fun route => (RoutePattern.parse route.1).toOption) =
        (routes.filterMap fun route => (RoutePattern.parse route.1).toOption).map
          (RoutePattern.under mount) := by
    rw [List.filterMap_map, List.map_filterMap]
    refine List.filterMap_congr fun route hroute => ?_
    obtain ⟨pattern, hpattern⟩ := hparses route hroute
    rw [Function.comp_apply, under, RoutePattern.parse_joined hliteral hpattern, hpattern]
    rfl
  rw [templates, hpatterns, List.map_map, templates, ← eraseDups_map, List.map_map]
  · rfl
  · intro first hfirst second hsecond
    have hrooted : ∀ pattern ∈ (routes.filterMap fun route =>
        (RoutePattern.parse route.1).toOption).map RoutePattern.template,
          pattern.toList.head? = some '/' := fun _ hmem =>
      rooted_of_mem_templates (List.mem_eraseDups.mpr hmem)
    exact Blueprint.joinedText_inj (hrooted first hfirst) (hrooted second hsecond)

end DraftRoute

namespace RouteItem

/-- An item below a mount: the endpoint is the same. -/
def under (mount : String) (item : RouteItem η) : RouteItem η :=
  ⟨item.endpoint, item.pattern.under mount⟩

variable {items others : List (RouteItem η)} {routes : List (DraftRoute η)}

theorem eq_of_carries (h : List.Forall₂ Carries items routes)
    (hother : List.Forall₂ Carries others routes) : items = others := by
  induction h generalizing others with
  | nil => exact (List.forall₂_nil_right_iff.mp hother).symm
  | @cons item route items routes hitem hitems ih =>
      cases hother with
      | @cons other _ others _ hother hothers =>
          have hpattern := Except.ok.inj (hitem.pattern.symm.trans hother.pattern)
          have hendpoint := hitem.endpoint.trans hother.endpoint.symm
          rw [ih hothers]
          obtain ⟨endpoint, pattern⟩ := item
          obtain ⟨_, _⟩ := other
          rw [show endpoint = _ from hendpoint, show pattern = _ from hpattern]

theorem carries_under {mount : String} (hliteral : Blueprint.IsLiteral mount)
    (h : List.Forall₂ Carries items routes) :
    List.Forall₂ Carries (items.map (under mount)) (routes.map (DraftRoute.under mount)) := by
  rw [List.forall₂_map_left_iff, List.forall₂_map_right_iff]
  exact h.imp fun item route hcarries =>
    ⟨hcarries.endpoint, RoutePattern.parse_joined hliteral hcarries.pattern⟩

theorem rooted_of_carries (h : List.Forall₂ Carries items routes) :
    ∀ item ∈ items, item.pattern.template.toList.head? = some '/' := by
  intro item hitem
  obtain ⟨route, -, hcarries⟩ := exists_route_of_carries h hitem
  exact RoutePattern.rooted_of_parse hcarries.pattern

end RouteItem

/-! Rows. -/

namespace Router

/-- The rows of some templates with the items that are registered for each. -/
def tabulated (items : List (RouteItem η)) (templates : List String) :
    List (TableRow (List (RouteItem η))) :=
  templates.filterMap fun text => (Template.parse? text).map fun template =>
    ⟨template, items.filter fun item => item.pattern.template = text⟩

theorem Holds.rows_eq {table : RouteTable (List (RouteItem η))} {groups : RouteGroups η}
    (h : Holds table groups) : table.rows = groups.filterMap fun group =>
      (Template.parse? group.template).map fun template => ⟨template, group.items⟩ := by
  induction h with
  | empty => rfl
  | insert _ hparse _ ih => simp [ih, hparse]

/-- A router is known by its routes: there is a row for each template, in the order of the templates,
with the items of the template. -/
theorem rows_of_build {builder : RouterBuilder η} {router : Router η}
    (hbuild : builder.build = .ok router) :
    ∃ items, List.Forall₂ RouteItem.Carries items builder.draft.routes ∧
      router.table.rows = tabulated items (DraftRoute.templates builder.draft.routes) := by
  obtain ⟨groups, hgroups, hholds⟩ := RouterBuilder.groups_of_build hbuild
  obtain ⟨⟨items, hcarry, hgathers⟩, htemplates⟩ :=
    (RouteGroups.ofRoutes_judged builder.draft.routes).2 groups hgroups
  refine ⟨items, hcarry, ?_⟩
  rw [hholds.rows_eq, ← htemplates, tabulated, List.filterMap_map]
  refine List.filterMap_congr fun group hgroup => ?_
  rw [hgathers.items_eq hgroup, Function.comp_apply]

end Router

/-- A row below a mount. -/
def TableRow.under (mount : String) (row : TableRow (List (RouteItem η))) :
    TableRow (List (RouteItem η)) :=
  ⟨row.template.under mount, row.entry.map (RouteItem.under mount)⟩

namespace Router

variable {mount : String} {items : List (RouteItem η)} {templates : List String}

theorem tabulated_under (hliteral : Blueprint.IsLiteral mount)
    (hitems : ∀ item ∈ items, item.pattern.template.toList.head? = some '/')
    (htemplates : ∀ text ∈ templates, text.toList.head? = some '/') :
    tabulated (items.map (RouteItem.under mount)) (templates.map (Blueprint.joinedText mount)) =
      (tabulated items templates).map (TableRow.under mount) := by
  rw [tabulated, tabulated, List.filterMap_map, List.map_filterMap]
  refine List.filterMap_congr fun text htext => ?_
  have hfilter : (items.map (RouteItem.under mount)).filter
      (fun item => item.pattern.template = Blueprint.joinedText mount text) =
        (items.filter fun item => item.pattern.template = text).map (RouteItem.under mount) := by
    rw [List.filter_map]
    refine congrArg (List.map _) (List.filter_congr fun item hitem => ?_)
    rw [Function.comp_apply, decide_eq_decide]
    constructor
    · exact Blueprint.joinedText_inj (hitems item hitem) (htemplates text htext)
    · exact congrArg (Blueprint.joinedText mount)
  rw [Function.comp_apply, Template.parse?_joined hliteral (htemplates text htext), hfilter,
    Option.map_map, Option.map_map]
  rfl

theorem allLiteral_tabulated (htemplates : ∀ text ∈ templates, text.toList.head? = some '/') :
    ∀ row ∈ tabulated items templates, ∃ later, row.template = .literal '/' :: later := by
  intro row hrow
  obtain ⟨text, htext, hfound⟩ := List.mem_filterMap.mp hrow
  obtain ⟨template, hparse, rfl⟩ := Option.map_eq_some_iff.mp hfound
  exact Template.parse?_ne_nil hparse (htemplates text htext)

/-- One router stands below a mount as another stands by itself. -/
structure Under (mount : String) (router mounted : Router η) : Prop where
  rooted : ∀ row ∈ router.table.rows, ∃ later, row.template = .literal '/' :: later
  rows : mounted.table.rows = router.table.rows.map (TableRow.under mount)

variable {router mounted : Router η}

theorem Under.allLiteral (h : Under mount router mounted) :
    router.table.branches.AllLiteral := by
  intro template row hmem
  obtain ⟨hrow, rfl⟩ := RouteTable.mem_branches.mp hmem
  obtain ⟨later, hlater⟩ := h.rooted row hrow
  exact ⟨'/', later, hlater⟩

theorem Under.branches_eq (h : Under mount router mounted) : mounted.table.branches =
    Branches.mapEntries (TableRow.under mount) (Branches.behindText (Blueprint.base mount)
      (if Blueprint.base mount = [] then router.table.branches
        else router.table.branches.dropRoots)) := by
  rw [RouteTable.branches, h.rows, List.map_map, Branches.mapEntries, Branches.behindText,
    Branches.dropRoots, RouteTable.branches]
  split
  · next hbase => simp [TableRow.under, Template.under, hbase, Function.comp_def]
  · next hbase => simp [TableRow.under, Template.under, hbase, Function.comp_def]

/-- A path below the mount finds the row that the path finds without it. -/
theorem Under.find?_eq (h : Under mount router mounted) (path : List Char) :
    mounted.table.branches.find? (Blueprint.base mount ++ path) =
      ((if Blueprint.base mount = [] then router.table.branches
        else router.table.branches.dropRoots).find? path).map fun found =>
          (found.1.under mount, found.2) := by
  rw [h.branches_eq, Branches.find?, Branches.findWithin_mapEntries, ← Branches.find?,
    Branches.find?_behindText]

/-- The text of a mount in front of paths. -/
def front (mount : String) : String := String.ofList (Blueprint.base mount)

theorem Under.locate_eq {path below : String}
    (hfind : mounted.table.branches.find? below.toList =
      (router.table.branches.find? path.toList).map fun found => (found.1.under mount, found.2)) :
    mounted.locate below =
      ⟨(router.locate path).items.map (RouteItem.under mount), (router.locate path).params⟩ := by
  cases hpath : router.table.branches.find? path.toList with
  | none =>
      rw [hpath] at hfind
      rw [locate_of_find?_eq_none hpath, locate_of_find?_eq_none hfind]
      rfl
  | some found =>
      obtain ⟨row, values⟩ := found
      rw [hpath] at hfind
      rw [locate_of_find?_eq_some hpath, locate_of_find?_eq_some hfind, TableRow.under,
        Template.names_under]

/-! Answers. -/

/-- What a path without a mount comes to, for the path below the mount. -/
def answerBelow (mount below : String) :
    Except WebFault (Route η) → Except WebFault (Route η)
  | .ok route => .ok ⟨route.item.under mount, route.params⟩
  | .error (.methodNotAllowed method _ allowed) => .error (.methodNotAllowed method below allowed)
  | .error (.notFound _) => .error (.notFound below)
  | .error fault => .error fault

theorem select_under (items : List (RouteItem η)) (method : Method) :
    select (items.map (RouteItem.under mount)) method =
      (select items method).map (RouteItem.under mount) := by
  have hfind : ∀ method, (items.map (RouteItem.under mount)).find? (fun item => item.answers method) =
      (items.find? fun item => item.answers method).map (RouteItem.under mount) := by
    intro method
    rw [List.find?_map]
    rfl
  rw [select, select, hfind, hfind]
  cases items.find? fun item => item.answers method with
  | some item => rfl
  | none =>
      simp only [Option.map_none]
      split <;> rfl

theorem allowed_under (items : List (RouteItem η)) :
    allowed (items.map (RouteItem.under mount)) = allowed items := by
  rw [allowed, allowed, List.flatMap_map]
  rfl

/-- Where a path finds the same items, it comes to the same answer. -/
theorem dispatch_below {path below : String} (method : Method)
    (hlocate : mounted.locate below =
      ⟨(router.locate path).items.map (RouteItem.under mount), (router.locate path).params⟩) :
    mounted.dispatch method below = answerBelow mount below (router.dispatch method path) := by
  have hcandidates : mounted.candidates below =
      (router.candidates path).map (RouteItem.under mount) := by
    rw [candidates, hlocate, candidates, List.filter_map]
    rfl
  rw [dispatch, dispatch, hcandidates, select_under, allowed_under, hlocate]
  simp only [List.isEmpty_map]
  split
  · rfl
  · cases select (router.candidates path) method <;> rfl

/-- Every path but the root, and every path at all if the mount is empty. -/
theorem Under.dispatch_eq (h : Under mount router mounted) (method : Method) {path : String}
    (hrooted : path.toList.head? = some '/') (hroot : path ≠ "/") :
    mounted.dispatch method (front mount ++ path) =
      answerBelow mount (front mount ++ path) (router.dispatch method path) := by
  refine dispatch_below method (Under.locate_eq ?_)
  rw [String.toList_append, front, String.toList_ofList, h.find?_eq]
  split
  · rfl
  · obtain ⟨rest, hrest⟩ := List.head?_eq_some_iff.mp hrooted
    cases rest with
    | nil => exact absurd (String.toList_inj.mp hrest) hroot
    | cons c rest => rw [hrest, h.allLiteral.find?_dropRoots.2]

/-- The mount alone stands for the root. -/
theorem Under.dispatch_root (h : Under mount router mounted) (method : Method)
    (hmount : front mount ≠ "") : mounted.dispatch method (front mount) =
      answerBelow mount (front mount) (router.dispatch method "/") := by
  have hbase : Blueprint.base mount ≠ [] := by
    intro hnil
    rw [front, hnil] at hmount
    exact hmount rfl
  refine dispatch_below method (Under.locate_eq ?_)
  have hfind := h.find?_eq []
  rw [List.append_nil, if_neg hbase, h.allLiteral.find?_dropRoots.1] at hfind
  rw [front, String.toList_ofList, hfind]
  rfl

theorem Under.items_eq (h : Under mount router mounted) :
    mounted.items = router.items.map (RouteItem.under mount) := by
  rw [items, h.rows, items, List.flatMap_map, List.map_flatMap]
  rfl

end Router

namespace RouterBuilder

variable {name mount : String} {enrolments : List Enrolment} {router mounted : Router WebHandler}

theorem faultless_mount (h : Faultless Section.AtFault [.blueprint name none enrolments]) :
    Faultless Section.AtFault [.blueprint name (some mount) enrolments] := by
  rw [faultless_singleton] at h ⊢
  rintro fault (_ | hmem | ⟨hfresh, hinside⟩)
  · contradiction
  · exact h fault (.inside hfresh hinside)

theorem flattened_mount : [Section.blueprint name (some mount) enrolments].flatMap Section.flattened =
    ([Section.blueprint name none enrolments].flatMap Section.flattened).map
      (DraftRoute.under mount) := by
  rw [List.flatMap_singleton, List.flatMap_singleton]
  rfl

theorem builds_mounted (hliteral : Blueprint.IsLiteral mount)
    (hbuild : (ofSections [.blueprint name none enrolments]).build = .ok router) :
    ∃ mounted, (ofSections [.blueprint name (some mount) enrolments]).build = .ok mounted := by
  obtain ⟨hnone, hsound, hapart⟩ := (builds_iff _).mp ⟨router, hbuild⟩
  refine (builds_iff _).mpr ⟨faultless_mount hnone, ?_, ?_⟩
  · rw [flattened_mount]
    exact DraftRoute.faultless_under hliteral hsound
  · rw [flattened_mount, DraftRoute.templates_under hliteral (DraftRoute.parse_of_faultless hsound)]
    exact Template.faultless_joined hliteral (fun _ => DraftRoute.rooted_of_mem_templates) hapart

theorem under_of_build (hliteral : Blueprint.IsLiteral mount)
    (hbuild : (ofSections [.blueprint name none enrolments]).build = .ok router)
    (hmounted : (ofSections [.blueprint name (some mount) enrolments]).build = .ok mounted) :
    Router.Under mount router mounted := by
  obtain ⟨-, hsound, -⟩ := (builds_iff _).mp ⟨router, hbuild⟩
  obtain ⟨items, hcarry, hrows⟩ := Router.rows_of_build hbuild
  obtain ⟨others, hothers, hbelow⟩ := Router.rows_of_build hmounted
  rw [routes_ofSections hbuild] at hcarry hrows
  rw [routes_ofSections hmounted, flattened_mount] at hothers hbelow
  have hrooted : ∀ text ∈ DraftRoute.templates
      ([Section.blueprint name none enrolments].flatMap Section.flattened),
        text.toList.head? = some '/' := fun _ => DraftRoute.rooted_of_mem_templates
  refine ⟨?_, ?_⟩
  · rw [hrows]
    exact Router.allLiteral_tabulated hrooted
  · rw [hbelow, RouteItem.eq_of_carries hothers (RouteItem.carries_under hliteral hcarry),
      DraftRoute.templates_under hliteral (DraftRoute.parse_of_faultless hsound), hrows,
      Router.tabulated_under hliteral (RouteItem.rooted_of_carries hcarry) hrooted]

/-- A blueprint that builds by itself builds below every mount without parameters.  Its items are the
same there, and below the mount every path but the root comes to what it comes to without the mount;
the root is found by the mount alone. -/
theorem build_mounted (hliteral : Blueprint.IsLiteral mount)
    (hbuild : (ofSections [.blueprint name none enrolments]).build = .ok router) :
    ∃ mounted, (ofSections [.blueprint name (some mount) enrolments]).build = .ok mounted ∧
      mounted.items = router.items.map (RouteItem.under mount) ∧
      (∀ method path, path.toList.head? = some '/' → path ≠ "/" →
        mounted.dispatch method (Router.front mount ++ path) =
          Router.answerBelow mount (Router.front mount ++ path) (router.dispatch method path)) ∧
      (Router.front mount ≠ "" → ∀ method, mounted.dispatch method (Router.front mount) =
        Router.answerBelow mount (Router.front mount) (router.dispatch method "/")) := by
  obtain ⟨mounted, hmounted⟩ := builds_mounted hliteral hbuild
  have hunder := under_of_build hliteral hbuild hmounted
  refine ⟨mounted, hmounted, hunder.items_eq, ?_, ?_⟩
  · exact fun method path hrooted hroot => hunder.dispatch_eq method hrooted hroot
  · exact fun hmount method => hunder.dispatch_root method hmount

/-- A root, a number and a composition for what is no number, below `/api/`. -/
theorem build_mounted_api :
    let answer : WebHandler := .fail ""
    let enrolments : List Enrolment := [.route "/" ⟨[.get], answer, false⟩,
      .route "/<id:int>" ⟨[.get, .post], answer, false⟩,
      .composition "/<id>" [⟨[.put], answer, true⟩]]
    Blueprint.IsLiteral "/api/" ∧ Router.front "/api/" = "/api" ∧ ∃ router mounted,
      (ofSections [.blueprint "more" none enrolments]).build = .ok router ∧
      (ofSections [.blueprint "more" (some "/api/") enrolments]).build = .ok mounted ∧
      mounted.items = router.items.map (RouteItem.under "/api/") ∧
      (∃ route, router.dispatch .get "/5" = .ok route ∧ route.params = [("id", "5")] ∧
        mounted.dispatch .get "/api/5" = .ok ⟨route.item.under "/api/", route.params⟩) ∧
      mounted.dispatch .get "/api" =
        Router.answerBelow "/api/" "/api" (router.dispatch .get "/") := by
  intro answer enrolments
  have hliteral : Blueprint.IsLiteral "/api/" := by decide
  have hfront : Router.front "/api/" = "/api" := by decide
  have hbuilds : ((ofSections [.blueprint "more" none enrolments]).build.toOption.bind fun router =>
      (router.dispatch .get "/5").toOption.map Route.params) = some [("id", "5")] := by
    decide
  obtain ⟨router, hbuild, hfound⟩ := Option.bind_eq_some_iff.mp hbuilds
  obtain ⟨route, hroute, hparams⟩ := Option.map_eq_some_iff.mp hfound
  have hbuilt := Except.eq_ok_of_toOption hbuild
  have hdispatch := Except.eq_ok_of_toOption hroute
  obtain ⟨mounted, hmounted, hitems, hpaths, hroot⟩ := build_mounted hliteral hbuilt
  have hbelow := hpaths .get "/5" (by decide) (by decide)
  have halone := hroot (by rw [hfront]; decide) .get
  rw [hfront] at hbelow halone
  refine ⟨hliteral, hfront, router, mounted, hbuilt, hmounted, hitems,
    ⟨route, hdispatch, hparams, ?_⟩, halone⟩
  rw [hdispatch] at hbelow
  exact hbelow

end RouterBuilder

end Turnpike
