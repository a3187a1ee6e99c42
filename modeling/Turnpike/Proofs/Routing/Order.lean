import Mathlib.Data.List.Forall2
import Turnpike.Proofs.Routing.NotFound
import Turnpike.Web.View

/-!
What a path finds, in the order of registration.  Views, compositions and blueprints come to a list of
routes; each route comes to one item, and the items of the template that a path selects stand in the
order of their routes.  Of those whose numbers read, the first that answers the method is handed out.
-/

namespace Turnpike

variable {η : Type}

/-! What is registered. -/

namespace CompositionView

def ofEntries (entries : List (Endpoint η)) : CompositionView η := entries.foldl add empty

/-- A composition that is not at fault holds all that was added to it. -/
theorem endpoints_ofEntries {entries : List (Endpoint η)}
    (h : (ofEntries entries).fault? = none) : (ofEntries entries).endpoints = entries := by
  suffices hfold : ∀ view : CompositionView η, (entries.foldl add view).repeated = none →
      view.repeated = none ∧ (entries.foldl add view).endpoints = view.endpoints ++ entries by
    exact (hfold empty (Option.map_eq_none_iff.mp h)).2
  clear h
  induction entries with
  | nil => exact fun view h => ⟨h, (List.append_nil _).symm⟩
  | cons entry entries ih =>
      intro view h
      obtain ⟨hnone, hendpoints⟩ := ih (view.add entry) h
      rw [List.foldl_cons, hendpoints]
      unfold add at hnone ⊢
      split at hnone
      · -- a repeated method stays
        simp at hnone
      · next hfresh => exact ⟨hnone, by simp⟩

end CompositionView

/-- What is registered at a path: a handler, a view, or handlers composed for it. -/
inductive Enrolment where
  | route (path : String) (endpoint : Endpoint WebHandler)
  | view (path : String) (given : MethodView)
  | composition (path : String) (entries : List (Endpoint WebHandler))

namespace Enrolment

def registration : Enrolment → Registration WebHandler
  | .route path endpoint => .route path endpoint
  | .view path given => .view path given.endpoints
  | .composition path entries => .composition path (.ofEntries entries)

/-- The routes of an enrolment: one for each method of a view, one for each entry of a composition. -/
def flattened : Enrolment → List (DraftRoute WebHandler)
  | .route path endpoint => [(path, endpoint)]
  | .view path given => given.methods.map fun method =>
    (path, ⟨[method], given.handler method, given.streamMethods.contains method⟩)
  | .composition path entries => entries.map fun entry => (path, entry)

theorem flattened_registration {enrolment : Enrolment}
    (h : enrolment.registration.fault? = none) :
    enrolment.registration.flattened = enrolment.flattened := by
  cases enrolment with
  | route path endpoint => rfl
  | view path given =>
      simp [registration, Registration.flattened, flattened, MethodView.endpoints]
  | composition path entries =>
      have hall : (CompositionView.ofEntries entries).endpoints = entries :=
        CompositionView.endpoints_ofEntries h
      rw [registration, Registration.flattened, hall, flattened]

end Enrolment

/-- What a router is built from: enrolments of its own, and blueprints of enrolments. -/
inductive Section where
  | own (enrolment : Enrolment)
  | blueprint (name : String) (mount : Option String) (enrolments : List Enrolment)

namespace Section

def mounting : Section → Mounting WebHandler
  | .own enrolment => .own enrolment.registration
  | .blueprint name mount enrolments => .blueprint name mount (enrolments.map Enrolment.registration)

/-- The routes of a section; those of a blueprint stand below where it is mounted. -/
def flattened : Section → List (DraftRoute WebHandler)
  | .own enrolment => enrolment.flattened
  | .blueprint _ none enrolments => enrolments.flatMap Enrolment.flattened
  | .blueprint _ (some mount) enrolments =>
    (enrolments.flatMap Enrolment.flattened).map fun (path, endpoint) =>
      (Blueprint.joinedText mount path, endpoint)

theorem flattened_mounting {part : Section}
    (h : ∀ registration ∈ part.mounting.registrations, registration.fault? = none) :
    part.mounting.flattened = part.flattened := by
  have hall : ∀ enrolments : List Enrolment,
      (∀ registration ∈ enrolments.map Enrolment.registration, registration.fault? = none) →
        (enrolments.map Enrolment.registration).flatMap Registration.flattened =
          enrolments.flatMap Enrolment.flattened := by
    intro enrolments hsound
    rw [List.flatMap_map]
    refine List.flatMap_congr ?_
    intro enrolment hmem
    exact Enrolment.flattened_registration (hsound _ (List.mem_map_of_mem hmem))
  match part with
  | .own enrolment => exact Enrolment.flattened_registration (h _ (List.mem_singleton.mpr rfl))
  | .blueprint _ none enrolments => exact hall enrolments h
  | .blueprint _ (some mount) enrolments =>
      rw [mounting, Mounting.flattened, hall enrolments h, flattened]

end Section

def RouterBuilder.ofSections (sections : List Section) : RouterBuilder WebHandler :=
  .ofMountings (sections.map Section.mounting)

theorem RouterBuilder.routes_of_sound {sections : List Section}
    (h : (ofSections sections).draft.fault = none) :
    (ofSections sections).draft.routes = sections.flatMap Section.flattened := by
  obtain ⟨-, hsound, hroutes⟩ := takes_ofMountings h
  rw [ofSections, hroutes, List.flatMap_map]
  refine List.flatMap_congr ?_
  intro part hmem
  refine Section.flattened_mounting ?_
  intro registration hregistration
  exact hsound registration
    (List.mem_flatMap.mpr ⟨part.mounting, List.mem_map_of_mem hmem, hregistration⟩)

theorem RouterBuilder.routes_ofSections {sections : List Section} {router : Router WebHandler}
    (hbuild : (ofSections sections).build = .ok router) :
    (ofSections sections).draft.routes = sections.flatMap Section.flattened :=
  routes_of_sound (fault_of_build hbuild)

/-! Items. -/

/-- The item of a route: its endpoint as it was registered, under the pattern of its path. -/
structure RouteItem.Carries (item : RouteItem η) (route : DraftRoute η) : Prop where
  endpoint : item.endpoint = route.2
  pattern : RoutePattern.parse route.1 = .ok item.pattern

theorem RouteItem.exists_stream_iff {items : List (RouteItem η)} {routes : List (DraftRoute η)}
    (h : List.Forall₂ Carries items routes) :
    (∃ item ∈ items, item.endpoint.isStream = true) ↔ ∃ route ∈ routes, route.2.isStream = true := by
  induction h with
  | nil => simp
  | cons hcarries _ ih => simp [ih, hcarries.endpoint]

namespace RouteGroups

/-- Each template has the items that came with it, in the order in which they came. -/
structure Gathers (groups : RouteGroups η) (items : List (RouteItem η)) : Prop where
  nodup : (groups.map RouteGroup.template).Nodup
  items : ∀ template,
    groups.items template = items.filter fun item => item.pattern.template = template

theorem Gathers.add {groups : RouteGroups η} {items : List (RouteItem η)} (h : Gathers groups items)
    (item : RouteItem η) : Gathers (groups.add item) (items ++ [item]) where
  nodup := nodup_add h.nodup item
  items template := by
    rw [items_add h.nodup, h.items, List.filter_append]
    by_cases htemplate : item.pattern.template = template <;> simp [htemplate]

/-- Every route has its item, and the items are gathered in the order of the routes. -/
theorem gathers_ofRoutes {routes : List (DraftRoute η)} {groups : RouteGroups η}
    (h : ofRoutes routes = .ok groups) :
    ∃ items, List.Forall₂ RouteItem.Carries items routes ∧ Gathers groups items := by
  suffices hfold : ∀ (before : List (RouteItem η)) (first : RouteGroups η), Gathers first before →
      routes.foldlM register first = .ok groups →
        ∃ items, List.Forall₂ RouteItem.Carries items routes ∧ Gathers groups (before ++ items) by
    exact hfold [] [] ⟨List.nodup_nil, fun _ => rfl⟩ h
  clear h
  induction routes with
  | nil =>
      intro before first hfirst h
      obtain rfl := Except.ok.inj h
      exact ⟨[], .nil, (List.append_nil before).symm ▸ hfirst⟩
  | cons route routes ih =>
      intro before first hfirst h
      rw [List.foldlM_cons] at h
      cases hregister : first.register route with
      | error fault =>
          rw [hregister] at h
          contradiction
      | ok next =>
          rw [hregister] at h
          obtain ⟨pattern, hpattern, rfl⟩ := register_eq_ok hregister
          obtain ⟨items, hcarry, hgathers⟩ := ih _ _ (hfirst.add ⟨route.2, pattern⟩) h
          rw [List.append_assoc] at hgathers
          exact ⟨_, .cons ⟨rfl, hpattern⟩ hcarry, hgathers⟩

theorem items_eq_of_mem {groups : RouteGroups η} (hnodup : (groups.map RouteGroup.template).Nodup)
    {group : RouteGroup η} (hmem : group ∈ groups) : groups.items group.template = group.items := by
  have honly : groups.filter (fun other => other.template == group.template) = [group] := by
    induction groups with
    | nil => contradiction
    | cons first groups ih =>
        obtain ⟨hfresh, hlater⟩ := List.nodup_cons.mp hnodup
        rcases List.mem_cons.mp hmem with rfl | hmem
        · rw [List.filter_cons_of_pos (by simp), List.filter_eq_nil_iff.mpr]
          intro other hother heq
          exact hfresh (List.mem_map.mpr ⟨other, hother, eq_of_beq heq⟩)
        · rw [List.filter_cons_of_neg, ih hlater hmem]
          intro heq
          exact hfresh (List.mem_map.mpr ⟨group, hmem, (eq_of_beq heq).symm⟩)
  rw [items, honly, List.flatMap_singleton]

theorem Gathers.items_eq {groups : RouteGroups η} {items : List (RouteItem η)}
    (h : Gathers groups items) {group : RouteGroup η} (hmem : group ∈ groups) :
    group.items = items.filter fun item => item.pattern.template = group.template := by
  rw [← items_eq_of_mem h.nodup hmem, h.items]

theorem Gathers.exists_group {groups : RouteGroups η} {items : List (RouteItem η)}
    (h : Gathers groups items) {item : RouteItem η} (hmem : item ∈ items) :
    ∃ group ∈ groups, group.template = item.pattern.template ∧ item ∈ group.items := by
  have hown : item ∈ groups.items item.pattern.template := by
    rw [h.items]
    exact List.mem_filter.mpr ⟨hmem, by simp⟩
  obtain ⟨group, hgroup, hitem⟩ := List.mem_flatMap.mp hown
  obtain ⟨hgroup, htemplate⟩ := List.mem_filter.mp hgroup
  exact ⟨group, hgroup, eq_of_beq htemplate, hitem⟩

end RouteGroups

namespace Template

theorem Clashes.self {template : Template} (hlast : template.RestLast) :
    Clashes template template := by
  induction template with
  | nil => exact .ended
  | cons token later ih =>
      cases token with
      | literal c => exact .literal (ih hlast)
      | param name => exact .param (ih hlast)
      | rest name =>
          obtain rfl : later = [] := hlast
          exact .rests

end Template

namespace Router

/-- The template that a path selects. -/
def selected? (router : Router η) (path : String) : Option Template :=
  (router.table.branches.find? path.toList).map fun found => found.1.template

/-- A router has some items, those of a template in their order in its row. -/
structure Keeps (router : Router η) (items : List (RouteItem η)) : Prop where
  sound : router.Sound
  row : ∀ row ∈ router.table.rows,
    row.entry = items.filter fun item => Template.parse? item.pattern.template = some row.template
  every : ∀ item ∈ items, ∃ row ∈ router.table.rows,
    Template.parse? item.pattern.template = some row.template

/-- A router that builds keeps an item for each route, in the order of the routes. -/
theorem keeps_of_build {builder : RouterBuilder η} {router : Router η}
    (hbuild : builder.build = .ok router) :
    ∃ items, List.Forall₂ RouteItem.Carries items builder.draft.routes ∧ router.Keeps items := by
  obtain ⟨groups, hgroups, hholds⟩ := RouterBuilder.groups_of_build hbuild
  obtain ⟨items, hcarry, hgathers⟩ := RouteGroups.gathers_ofRoutes hgroups
  have hsound := sound_of_build hbuild
  refine ⟨items, hcarry, hsound, ?row, ?every⟩
  case row =>
    intro row hrow
    obtain ⟨group, hgroup, hentry, hparse⟩ := hholds.exists_group hrow
    rw [hentry, hgathers.items_eq hgroup]
    refine List.filter_congr ?_
    intro item hitem
    rw [decide_eq_decide]
    constructor
    · intro htemplate
      rw [htemplate, hparse]
    · -- the texts of two templates that read alike are the same, as their rows would clash
      intro hsame
      obtain ⟨other, hother, htemplate, hmem⟩ := hgathers.exists_group hitem
      obtain ⟨second, hsecond, hitems, hparsed⟩ := hholds.exists_row hother
      rw [htemplate, hsame] at hparsed
      have halike : row.template = second.template := Option.some.inj hparsed
      have hclash : row.template.Clashes second.template :=
        halike ▸ Template.Clashes.self (hsound.restLast row hrow)
      obtain rfl := hsound.apart row hrow second hsecond hclash
      rw [← hitems, hentry, hgathers.items_eq hgroup] at hmem
      exact of_decide_eq_true (List.mem_filter.mp hmem).2
  case every =>
    intro item hitem
    obtain ⟨group, hgroup, htemplate, -⟩ := hgathers.exists_group hitem
    obtain ⟨row, hrow, -, hparse⟩ := hholds.exists_row hgroup
    exact ⟨row, hrow, htemplate ▸ hparse⟩

variable {router : Router η} {items : List (RouteItem η)}

theorem Keeps.located (h : router.Keeps items) (path : String) :
    (router.locate path).items =
      items.filter fun item => Template.parse? item.pattern.template = router.selected? path := by
  unfold selected?
  cases hfind : router.table.branches.find? path.toList with
  | none =>
      rw [locate_of_find?_eq_none hfind, Eq.comm, List.filter_eq_nil_iff]
      intro item hitem
      obtain ⟨row, -, hparse⟩ := h.every item hitem
      simp [hparse]
  | some found =>
      obtain ⟨row, values⟩ := found
      rw [locate_of_find?_eq_some hfind]
      exact h.row row (RouteTable.matches_of_find? h.sound.restLast hfind).1

/-- What a path selects is the template of some item, which matches the path and captures of it what
the items are given. -/
theorem Keeps.matches_of_selected (h : router.Keeps items) {path : String} {template : Template}
    (hselected : router.selected? path = some template) :
    (∃ item ∈ items, Template.parse? item.pattern.template = some template) ∧
      ∃ values, template.Matches path.toList values ∧
        (router.locate path).params = template.names.zip (values.map String.ofList) := by
  obtain ⟨⟨row, values⟩, hfind, rfl⟩ := Option.map_eq_some_iff.mp hselected
  obtain ⟨hrow, hmatches⟩ := RouteTable.matches_of_find? h.sound.restLast hfind
  refine ⟨?_, values, hmatches, by rw [locate_of_find?_eq_some hfind]⟩
  obtain ⟨item, hitem⟩ := List.exists_mem_of_ne_nil row.entry (h.sound.nonempty row hrow)
  rw [h.row row hrow] at hitem
  obtain ⟨hmem, hparse⟩ := List.mem_filter.mp hitem
  exact ⟨item, hmem, of_decide_eq_true hparse⟩

theorem Keeps.mem_items (h : router.Keeps items) {item : RouteItem η} :
    item ∈ router.items ↔ item ∈ items := by
  rw [Router.mem_items]
  constructor
  · intro hfound
    obtain ⟨row, hrow, hentry⟩ := hfound
    rw [h.row row hrow] at hentry
    exact (List.mem_filter.mp hentry).1
  · intro hitem
    obtain ⟨row, hrow, hparse⟩ := h.every item hitem
    refine ⟨row, hrow, ?_⟩
    rw [h.row row hrow]
    exact List.mem_filter.mpr ⟨hitem, decide_eq_true hparse⟩

end Router

/-! The item that is handed out. -/

namespace RouteItem

/-- The first item of a list with a property. -/
def IsFirst (items : List (RouteItem η)) (holds : RouteItem η → Prop) (item : RouteItem η) : Prop :=
  ∃ before after, items = before ++ item :: after ∧ holds item ∧ ∀ other ∈ before, ¬ holds other

theorem IsFirst.mem {items : List (RouteItem η)} {holds : RouteItem η → Prop} {item : RouteItem η}
    (h : IsFirst items holds item) : item ∈ items := by
  obtain ⟨before, after, rfl, -, -⟩ := h
  exact List.mem_append_cons_self

theorem IsFirst.holds {items : List (RouteItem η)} {holds : RouteItem η → Prop} {item : RouteItem η}
    (h : IsFirst items holds item) : holds item := by
  obtain ⟨-, -, -, hitem, -⟩ := h
  exact hitem

/-- The numbers of an item read, and it lists a method. -/
def Takes (item : RouteItem η) (params : PathParams) (method : Method) : Prop :=
  item.pattern.accepts params = true ∧ method ∈ item.methods

/-- The item that a method comes to; the method `HEAD` comes to `GET` where no item lists it. -/
inductive IsChosen (items : List (RouteItem η)) (params : PathParams) (method : Method) :
    RouteItem η → Prop
  | own {item : RouteItem η} : IsFirst items (fun item => item.Takes params method) item →
      IsChosen items params method item
  | get {item : RouteItem η} : method = .head → (∀ item ∈ items, ¬ item.Takes params method) →
      IsFirst items (fun item => item.Takes params .get) item → IsChosen items params method item

instance (item : RouteItem η) (params : PathParams) (method : Method) :
    Decidable (item.Takes params method) := inferInstanceAs (Decidable (_ ∧ _))

variable {items : List (RouteItem η)} {params : PathParams} {method : Method} {item : RouteItem η}

theorem find?_candidates (items : List (RouteItem η)) (params : PathParams) (method : Method) :
    (items.filter fun item => item.pattern.accepts params).find? (fun item => item.answers method) =
      items.find? fun item => item.Takes params method := by
  rw [List.find?_filter]
  refine congrArg (items.find? ·) (funext fun item => ?_)
  rw [Bool.eq_iff_iff, decide_eq_true_iff, decide_eq_true_iff]
  simp [Takes, answers]

theorem find?_eq_some_iff_isFirst :
    (items.find? fun item => item.Takes params method) = some item ↔
      IsFirst items (fun item => item.Takes params method) item := by
  rw [List.find?_eq_some_iff_append, IsFirst]
  constructor
  · intro h
    obtain ⟨htakes, before, after, heq, hbefore⟩ := h
    exact ⟨before, after, heq, of_decide_eq_true htakes, by simpa using hbefore⟩
  · intro h
    obtain ⟨before, after, heq, htakes, hbefore⟩ := h
    exact ⟨decide_eq_true htakes, before, after, heq, by simpa using hbefore⟩

theorem find?_eq_none_iff :
    (items.find? fun item => item.Takes params method) = none ↔
      ∀ item ∈ items, ¬ item.Takes params method := by
  simp

end RouteItem

namespace Router

variable {router : Router η} {method : Method} {path : String} {item : RouteItem η}

theorem select_eq_some_iff {items : List (RouteItem η)} {params : PathParams} :
    select (items.filter fun item => item.pattern.accepts params) method = some item ↔
      RouteItem.IsChosen items params method item := by
  rw [select, RouteItem.find?_candidates, RouteItem.find?_candidates]
  cases hown : items.find? fun item => item.Takes params method with
  | some found =>
      have hfirst := RouteItem.find?_eq_some_iff_isFirst.mp hown
      constructor
      · intro h
        obtain rfl := Option.some.inj h
        exact .own hfirst
      · intro h
        cases h with
        | own hother => exact hown.symm.trans (RouteItem.find?_eq_some_iff_isFirst.mpr hother)
        | get _ hnone _ =>
            have habsent := RouteItem.find?_eq_none_iff.mpr hnone
            rw [hown] at habsent
            contradiction
  | none =>
      have hnone := RouteItem.find?_eq_none_iff.mp hown
      simp only [Method.isHead, beq_iff_eq]
      constructor
      · intro h
        split at h
        · next hhead => exact .get hhead hnone (RouteItem.find?_eq_some_iff_isFirst.mp h)
        · contradiction
      · intro h
        cases h with
        | own hother =>
            have hpresent := RouteItem.find?_eq_some_iff_isFirst.mpr hother
            rw [hown] at hpresent
            contradiction
        | get hhead _ hother =>
            rw [if_pos hhead]
            exact RouteItem.find?_eq_some_iff_isFirst.mpr hother

theorem dispatch_eq_ok_iff {route : Route η} :
    router.dispatch method path = .ok route ↔
      RouteItem.IsChosen (router.locate path).items (router.locate path).params method route.item ∧
        route.params = (router.locate path).params := by
  rw [← select_eq_some_iff]
  refine ⟨dispatch_eq_ok, ?_⟩
  intro h
  obtain ⟨hselect, hparams⟩ := h
  have hsome : router.candidates path ≠ [] := List.ne_nil_of_mem (mem_of_select hselect)
  unfold dispatch
  simp only [List.isEmpty_iff, if_neg hsome]
  rw [candidates, hselect, ← hparams]

theorem dispatch_eq_notFound_iff :
    router.dispatch method path = .error (.notFound path) ↔
      ∀ item ∈ (router.locate path).items,
        item.pattern.accepts (router.locate path).params = false := by
  rw [dispatch_eq_notFound, candidates, List.filter_eq_nil_iff]
  simp

/-- A path that is found has an item for the method, or the method is not allowed. -/
theorem dispatch_eq_methodNotAllowed_iff :
    (∃ allowed, router.dispatch method path = .error (.methodNotAllowed method path allowed)) ↔
      (∃ item ∈ (router.locate path).items,
        item.pattern.accepts (router.locate path).params = true) ∧
      ∀ item, ¬ RouteItem.IsChosen (router.locate path).items (router.locate path).params method
        item := by
  have hnone : (∀ item, ¬ RouteItem.IsChosen (router.locate path).items
      (router.locate path).params method item) ↔ select (router.candidates path) method = none := by
    rw [Option.eq_none_iff_forall_ne_some]
    exact forall_congr' fun item => not_congr select_eq_some_iff.symm
  have hfound : (∃ item ∈ (router.locate path).items,
      item.pattern.accepts (router.locate path).params = true) ↔ router.candidates path ≠ [] := by
    rw [candidates, Ne, List.filter_eq_nil_iff]
    simp
  rw [hnone, hfound]
  unfold dispatch
  simp only [List.isEmpty_iff]
  by_cases hempty : router.candidates path = []
  · simp [hempty]
  · cases hselect : select (router.candidates path) method <;> simp [hempty]

end Router

/-- A router that builds has an item for each route that was registered, in the order of the routes and
each as it was registered.  A path finds those of the template that it selects, and a method the first
of them that takes it. -/
theorem RouterBuilder.build_in_order {sections : List Section} {router : Router WebHandler}
    (hbuild : (ofSections sections).build = .ok router) :
    ∃ items : List (RouteItem WebHandler),
      List.Forall₂ RouteItem.Carries items (sections.flatMap Section.flattened) ∧
      (router.isRequestStream = true ↔
        ∃ route ∈ sections.flatMap Section.flattened, route.2.isStream = true) ∧
      ∀ path : String,
        let located := items.filter fun item =>
          Template.parse? item.pattern.template = router.selected? path
        let params := (router.locate path).params
        (router.locate path).items = located ∧
        (∀ template, router.selected? path = some template →
          (∃ item ∈ items, Template.parse? item.pattern.template = some template) ∧
          ∃ values, template.Matches path.toList values ∧
            params = template.names.zip (values.map String.ofList)) ∧
        ∀ method : Method,
          (∀ route, router.dispatch method path = .ok route ↔
            RouteItem.IsChosen located params method route.item ∧ route.params = params) ∧
          (router.dispatch method path = .error (.notFound path) ↔
            ∀ item ∈ located, item.pattern.accepts params = false) ∧
          ((∃ allowed, router.dispatch method path =
              .error (.methodNotAllowed method path allowed)) ↔
            (∃ item ∈ located, item.pattern.accepts params = true) ∧
              ∀ item, ¬ RouteItem.IsChosen located params method item) := by
  obtain ⟨items, hcarry, hkeeps⟩ := Router.keeps_of_build hbuild
  rw [routes_ofSections hbuild] at hcarry
  refine ⟨items, hcarry, ?stream, fun path => ?found⟩
  case stream =>
    rw [Router.isRequestStream, List.any_eq_true]
    simp only [hkeeps.mem_items]
    exact RouteItem.exists_stream_iff hcarry
  case found =>
    intro located params
    have hlocated : (router.locate path).items = located := hkeeps.located path
    refine ⟨hlocated, fun template => hkeeps.matches_of_selected, fun method => ?_⟩
    rw [← hlocated]
    exact ⟨fun route => Router.dispatch_eq_ok_iff, Router.dispatch_eq_notFound_iff,
      Router.dispatch_eq_methodNotAllowed_iff⟩

/-- A handler, a view and a composition below a mount, all of one template.  Where the number does not
read, `HEAD` comes to the view, which lists `GET` behind the handler that is passed over. -/
theorem RouterBuilder.build_in_order_of_one_template :
    let answer : WebHandler := .fail ""
    let view : MethodView := ⟨[.get, .post], [.post], fun _ => none⟩
    let sections : List Section :=
      [.own (.route "/item/<id:int>" ⟨[.get], answer, false⟩), .own (.view "/item/<id>" view),
        .blueprint "more" (some "/item")
          [.composition "/<id:int>" [⟨[.put], answer, true⟩, ⟨[.delete], answer, false⟩]]]
    ∃ (router : Router WebHandler) (items : List (RouteItem WebHandler)),
      (ofSections sections).build = .ok router ∧
      List.Forall₂ RouteItem.Carries items (sections.flatMap Section.flattened) ∧
      router.isRequestStream = true ∧ (router.locate "/item/abc").items = items ∧
      ∃ route, router.dispatch .head "/item/abc" = .ok route ∧
        RouteItem.IsChosen items [("id", "abc")] .head route.item := by
  intro answer view sections
  have hbuilds : ((ofSections sections).build.toOption.bind fun router =>
      (router.dispatch .head "/item/abc").toOption.map fun route =>
        ((router.locate "/item/abc").items.length, route.params)) = some (5, [("id", "abc")]) := by
    decide
  obtain ⟨router, hbuild, hfound⟩ := Option.bind_eq_some_iff.mp hbuilds
  obtain ⟨route, hroute, hvalues⟩ := Option.map_eq_some_iff.mp hfound
  obtain ⟨hlength, hparams⟩ := Prod.mk.inj hvalues
  have hbuilt := Except.eq_ok_of_toOption hbuild
  obtain ⟨items, hcarry, hstream, hpaths⟩ := build_in_order hbuilt
  obtain ⟨hlocated, -, hmethods⟩ := hpaths "/item/abc"
  -- as many items are found as there are, so that nothing is filtered out
  have hall : (router.locate "/item/abc").items = items := by
    rw [hlocated] at hlength ⊢
    exact List.filter_sublist.eq_of_length (hlength.trans hcarry.length_eq.symm)
  obtain ⟨hchosen, hcaptured⟩ := ((hmethods .head).1 route).mp (Except.eq_ok_of_toOption hroute)
  rw [← hlocated, hall, ← hcaptured, hparams] at hchosen
  refine ⟨router, items, hbuilt, hcarry, hstream.mpr ?_, hall, route,
    Except.eq_ok_of_toOption hroute, hchosen⟩
  exact ⟨_, List.mem_of_getElem? (i := 3) rfl, rfl⟩

end Turnpike
