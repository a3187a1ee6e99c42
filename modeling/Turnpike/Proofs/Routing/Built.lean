import Turnpike.Proofs.Routing.Selection
import Turnpike.Routing.Router

/-!
What a router that builds holds: an item for each route that was registered, with the endpoint it was
registered with, in the row of its template; and no two templates that could not be told apart.
-/

namespace Turnpike

variable {η : Type}

theorem Except.eq_ok_of_toOption {ε α : Type} {result : Except ε α} {value : α}
    (h : result.toOption = some value) : result = .ok value := by
  cases result with
  | error fault => contradiction
  | ok found => exact congrArg Except.ok (Option.some.inj h)

theorem Except.exists_of_map {ε α β : Type} {result : Except ε α} {f : α → β} {value : β}
    (h : result.map f = .ok value) : ∃ found, result = .ok found ∧ f found = value := by
  cases result with
  | error fault => contradiction
  | ok found => exact ⟨found, rfl, Except.ok.inj h⟩

/-! Registrations. -/

namespace Registration

def endpoints : Registration η → List (Endpoint η)
  | .route _ endpoint => [endpoint]
  | .view _ endpoints => endpoints
  | .composition _ composed => composed.endpoints

/-- The routes of a registration, one for each endpoint. -/
def flattened : Registration η → List (DraftRoute η)
  | .route path endpoint => [(path, endpoint)]
  | .view path endpoints => endpoints.map fun endpoint => (path, endpoint)
  | .composition path composed => composed.endpoints.map fun endpoint => (path, endpoint)

def fault? : Registration η → Option RouteFault
  | .composition _ composed => composed.fault?
  | _ => none

theorem endpoints_eq (registration : Registration η) :
    registration.endpoints = registration.flattened.map Prod.snd := by
  cases registration <;> simp [endpoints, flattened, Function.comp_def]

end Registration

/-- What can be registered with a router: routes of its own, and blueprints of routes. -/
inductive Mounting (η : Type) where
  | own (registration : Registration η)
  | blueprint (name : String) (mount : Option String) (registrations : List (Registration η))

namespace Mounting

def endpoints : Mounting η → List (Endpoint η)
  | .own registration => registration.endpoints
  | .blueprint _ _ registrations => registrations.flatMap Registration.endpoints

def registrations : Mounting η → List (Registration η)
  | .own registration => [registration]
  | .blueprint _ _ registrations => registrations

/-- The routes of a mounting; those of a blueprint stand below where it is mounted. -/
def flattened : Mounting η → List (DraftRoute η)
  | .own registration => registration.flattened
  | .blueprint _ none registrations => registrations.flatMap Registration.flattened
  | .blueprint _ (some mount) registrations =>
    (registrations.flatMap Registration.flattened).map fun (path, endpoint) =>
      (Blueprint.joinedText mount path, endpoint)

theorem endpoints_eq (mounting : Mounting η) :
    mounting.endpoints = mounting.flattened.map Prod.snd := by
  have hall : ∀ registrations : List (Registration η),
      registrations.flatMap Registration.endpoints =
        (registrations.flatMap Registration.flattened).map Prod.snd := by
    intro registrations
    rw [List.map_flatMap, funext Registration.endpoints_eq]
  match mounting with
  | .own registration => exact registration.endpoints_eq
  | .blueprint _ none registrations => exact hall registrations
  | .blueprint _ (some mount) registrations =>
      rw [endpoints, hall, flattened, List.map_map]
      rfl

end Mounting

namespace RouterBuilder

def mount (builder : RouterBuilder η) : Mounting η → RouterBuilder η
  | .own registration => builder.register registration
  | .blueprint name mount registrations =>
    builder.blueprint (registrations.foldl Blueprint.register (.start name mount))

def ofMountings (mountings : List (Mounting η)) : RouterBuilder η := mountings.foldl mount empty

end RouterBuilder

/-- A draft has taken all of some registrations, behind what it had, and none of it was at fault. -/
structure RouteDraft.Takes (draft next : RouteDraft η) (registrations : List (Registration η))
    (routes : List (DraftRoute η)) : Prop where
  before : draft.fault = none
  sound : ∀ registration ∈ registrations, registration.fault? = none
  routes : next.routes = draft.routes ++ routes

namespace RouteDraft

/-- A fault stays, so that a draft without one has taken everything. -/
theorem takes_register {draft : RouteDraft η} {registration : Registration η}
    (h : (draft.register registration).fault = none) :
    draft.Takes (draft.register registration) [registration] registration.flattened := by
  cases registration with
  | route path endpoint => exact ⟨h, by simp [Registration.fault?], rfl⟩
  | view path endpoints => exact ⟨h, by simp [Registration.fault?], rfl⟩
  | composition path composed =>
      change (draft.composition path composed).fault = none at h
      change draft.Takes (draft.composition path composed) _ _
      unfold composition at h ⊢
      cases hfault : composed.fault? with
      | some fault =>
          rw [hfault] at h
          simp [fail] at h
      | none =>
          rw [hfault] at h
          exact ⟨h, by simpa [Registration.fault?] using hfault, rfl⟩

theorem Takes.trans {draft middle next : RouteDraft η} {first second : List (Registration η)}
    {left right : List (DraftRoute η)} (hfirst : draft.Takes middle first left)
    (hsecond : middle.Takes next second right) :
    draft.Takes next (first ++ second) (left ++ right) where
  before := hfirst.before
  sound registration hmem := (List.mem_append.mp hmem).elim (hfirst.sound _) (hsecond.sound _)
  routes := by rw [hsecond.routes, hfirst.routes, List.append_assoc]

end RouteDraft

theorem Blueprint.takes_registered {registrations : List (Registration η)}
    {blueprint : Blueprint η}
    (h : (registrations.foldl register blueprint).draft.fault = none) :
    blueprint.draft.Takes (registrations.foldl register blueprint).draft registrations
      (registrations.flatMap Registration.flattened) := by
  induction registrations generalizing blueprint with
  | nil => exact ⟨h, nofun, (List.append_nil _).symm⟩
  | cons registration registrations ih =>
      have hlater := ih h
      exact (RouteDraft.takes_register hlater.before).trans hlater

theorem Blueprint.registered_eq (registrations : List (Registration η)) (blueprint : Blueprint η) :
    (registrations.foldl register blueprint).name = blueprint.name ∧
      (registrations.foldl register blueprint).mount = blueprint.mount := by
  induction registrations generalizing blueprint with
  | nil => exact ⟨rfl, rfl⟩
  | cons registration registrations ih => exact ih (blueprint.register registration)

/-- A blueprint hands on its routes below where it is mounted, if there is no fault among them. -/
theorem Blueprint.routes?_eq_ok {name : String} {mount : Option String}
    {registrations : List (Registration η)} {routes : List (DraftRoute η)}
    (h : (registrations.foldl register (start name mount)).routes? = .ok routes) :
    (∀ registration ∈ registrations, registration.fault? = none) ∧
      routes = (Mounting.blueprint name mount registrations).flattened := by
  unfold routes? RouteDraft.routes? at h
  cases hfault : (registrations.foldl register (start name mount)).draft.fault with
  | some fault =>
      rw [hfault] at h
      contradiction
  | none =>
      obtain ⟨-, hsound, hroutes⟩ := takes_registered hfault
      rw [hfault, (registered_eq registrations _).2, hroutes] at h
      obtain rfl := Except.ok.inj h
      refine ⟨hsound, ?_⟩
      cases mount <;> rfl

namespace RouterBuilder

theorem takes_mount {builder : RouterBuilder η} {mounting : Mounting η}
    (h : (builder.mount mounting).draft.fault = none) :
    builder.draft.Takes (builder.mount mounting).draft mounting.registrations
      mounting.flattened := by
  cases mounting with
  | own registration => exact RouteDraft.takes_register h
  | blueprint name mount registrations =>
      change (builder.blueprint _).draft.fault = none at h
      change builder.draft.Takes (builder.blueprint _).draft _ _
      unfold RouterBuilder.blueprint at h ⊢
      split at h
      · simp [RouteDraft.fail] at h
      · next hfresh =>
        rw [if_neg hfresh]
        simp only at h ⊢
        split at h
        · next routes hroutes =>
          obtain ⟨hsound, rfl⟩ := Blueprint.routes?_eq_ok hroutes
          exact ⟨h, hsound, rfl⟩
        · simp [RouteDraft.fail] at h

/-- The routes of a builder are those that were registered with it, one behind the other. -/
theorem takes_ofMountings {mountings : List (Mounting η)}
    (h : (ofMountings mountings).draft.fault = none) :
    RouteDraft.empty.Takes (ofMountings mountings).draft
      (mountings.flatMap Mounting.registrations) (mountings.flatMap Mounting.flattened) := by
  suffices hfold : ∀ builder : RouterBuilder η,
      (mountings.foldl mount builder).draft.fault = none →
        builder.draft.Takes (mountings.foldl mount builder).draft
          (mountings.flatMap Mounting.registrations) (mountings.flatMap Mounting.flattened) by
    exact hfold empty h
  clear h
  induction mountings with
  | nil => exact fun builder h => ⟨h, nofun, (List.append_nil _).symm⟩
  | cons mounting mountings ih =>
      intro builder h
      have hlater := ih _ h
      exact (takes_mount hlater.before).trans hlater

theorem fault_of_build {builder : RouterBuilder η} {router : Router η}
    (h : builder.build = .ok router) : builder.draft.fault = none := by
  unfold build RouteDraft.routes? at h
  cases hfault : builder.draft.fault with
  | none => rfl
  | some fault =>
      rw [hfault] at h
      contradiction

theorem endpoint_mem_ofMountings {mountings : List (Mounting η)} {router : Router η}
    (hbuild : (ofMountings mountings).build = .ok router) {path : String} {endpoint : Endpoint η}
    (h : (path, endpoint) ∈ (ofMountings mountings).draft.routes) :
    endpoint ∈ mountings.flatMap Mounting.endpoints := by
  rw [(takes_ofMountings (fault_of_build hbuild)).routes] at h
  rw [funext Mounting.endpoints_eq, ← List.map_flatMap]
  exact List.mem_map.mpr ⟨_, h, rfl⟩

end RouterBuilder

/-! Groups. -/

/-- Where an item comes from. -/
def RouteItem.ComesFrom (item : RouteItem η) (routes : List (DraftRoute η)) : Prop :=
  ∃ path, (path, item.endpoint) ∈ routes ∧ RoutePattern.parse path = .ok item.pattern

namespace RouteGroups

/-- The items of a group share its template, and there is one for each route. -/
structure Sound (groups : RouteGroups η) (routes : List (DraftRoute η)) : Prop where
  nodup : (groups.map RouteGroup.template).Nodup
  nonempty : ∀ group ∈ groups, group.items ≠ []
  template : ∀ group ∈ groups, ∀ item ∈ group.items, item.pattern.template = group.template
  origin : ∀ group ∈ groups, ∀ item ∈ group.items, item.ComesFrom routes
  every : ∀ path endpoint, (path, endpoint) ∈ routes →
    ∃ group ∈ groups, ∃ item ∈ group.items, item.endpoint = endpoint ∧
      RoutePattern.parse path = .ok item.pattern

theorem mem_add {groups : RouteGroups η} {item : RouteItem η} {group : RouteGroup η}
    (h : group ∈ groups.add item) :
    group ∈ groups ∨ group = ⟨item.pattern.template, [item]⟩ ∨
      ∃ old ∈ groups, old.template = item.pattern.template ∧
        group = ⟨old.template, old.items ++ [item]⟩ := by
  induction groups with
  | nil => exact .inr (.inl (List.mem_singleton.mp h))
  | cons first groups ih =>
      unfold add at h
      split at h
      · next hsame =>
        rcases List.mem_cons.mp h with rfl | hlater
        · exact .inr (.inr ⟨first, List.mem_cons_self .., hsame, rfl⟩)
        · exact .inl (List.mem_cons_of_mem _ hlater)
      · rcases List.mem_cons.mp h with rfl | hlater
        · exact .inl (List.mem_cons_self ..)
        · rcases ih hlater with hold | hnew | ⟨old, hold, hboth⟩
          · exact .inl (List.mem_cons_of_mem _ hold)
          · exact .inr (.inl hnew)
          · exact .inr (.inr ⟨old, List.mem_cons_of_mem _ hold, hboth⟩)

theorem exists_of_add (groups : RouteGroups η) (item : RouteItem η) :
    (∃ group ∈ groups.add item, item ∈ group.items) ∧
      ∀ old ∈ groups, ∃ group ∈ groups.add item, ∀ other ∈ old.items, other ∈ group.items := by
  induction groups with
  | nil => exact ⟨⟨_, List.mem_singleton.mpr rfl, List.mem_singleton.mpr rfl⟩, nofun⟩
  | cons first groups ih =>
      obtain ⟨⟨group, hgroup, hitem⟩, hkept⟩ := ih
      unfold add
      split
      · refine ⟨⟨_, List.mem_cons_self .., by simp⟩, ?_⟩
        intro old hold
        rcases List.mem_cons.mp hold with rfl | hlater
        · exact ⟨_, List.mem_cons_self .., fun other hother => List.mem_append_left _ hother⟩
        · exact ⟨old, List.mem_cons_of_mem _ hlater, fun other hother => hother⟩
      · refine ⟨⟨group, List.mem_cons_of_mem _ hgroup, hitem⟩, ?_⟩
        intro old hold
        rcases List.mem_cons.mp hold with rfl | hlater
        · exact ⟨old, List.mem_cons_self .., fun other hother => hother⟩
        · obtain ⟨next, hnext, hall⟩ := hkept old hlater
          exact ⟨next, List.mem_cons_of_mem _ hnext, hall⟩

theorem sound_nil : Sound ([] : RouteGroups η) [] :=
  ⟨List.nodup_nil, nofun, nofun, nofun, nofun⟩

theorem register_eq_ok {groups next : RouteGroups η} {route : DraftRoute η}
    (h : groups.register route = .ok next) :
    ∃ pattern, RoutePattern.parse route.1 = .ok pattern ∧ next = groups.add ⟨route.2, pattern⟩ := by
  unfold register at h
  split at h
  · contradiction
  · split at h
    · contradiction
    · next pattern hpattern =>
      split at h
      · contradiction
      · exact ⟨pattern, hpattern, (Except.ok.inj h).symm⟩

theorem nodup_add {groups : RouteGroups η} (h : (groups.map RouteGroup.template).Nodup)
    (item : RouteItem η) : ((groups.add item).map RouteGroup.template).Nodup := by
  rw [templates_add]
  split
  · exact h
  · next hfresh =>
    exact List.nodup_append.mpr ⟨h, by simp, fun left hleft right hright heq =>
      hfresh (List.mem_singleton.mp hright ▸ heq ▸ hleft)⟩

theorem Sound.register {groups next : RouteGroups η} {routes : List (DraftRoute η)}
    (h : Sound groups routes) {route : DraftRoute η} (hregister : groups.register route = .ok next) :
    Sound next (routes ++ [route]) := by
  obtain ⟨pattern, hpattern, rfl⟩ := register_eq_ok hregister
  have hnew : RouteItem.ComesFrom ⟨route.2, pattern⟩ (routes ++ [route]) :=
    ⟨route.1, by simp, hpattern⟩
  have hold : ∀ item : RouteItem η, item.ComesFrom routes → item.ComesFrom (routes ++ [route]) := by
    intro item hitem
    obtain ⟨path, hmem, hparse⟩ := hitem
    exact ⟨path, List.mem_append_left _ hmem, hparse⟩
  refine ⟨nodup_add h.nodup _, ?_, ?_, ?_, ?_⟩
  · intro group hgroup
    rcases mem_add hgroup with hkept | rfl | ⟨old, hkept, -, rfl⟩
    · exact h.nonempty group hkept
    · exact nofun
    · exact List.append_ne_nil_of_left_ne_nil (h.nonempty old hkept) _
  · intro group hgroup item hitem
    rcases mem_add hgroup with hkept | rfl | ⟨old, hkept, hsame, rfl⟩
    · exact h.template group hkept item hitem
    · obtain rfl := List.mem_singleton.mp hitem
      rfl
    · rcases List.mem_append.mp hitem with hitem | hitem
      · exact h.template old hkept item hitem
      · obtain rfl := List.mem_singleton.mp hitem
        exact hsame.symm
  · intro group hgroup item hitem
    rcases mem_add hgroup with hkept | rfl | ⟨old, hkept, -, rfl⟩
    · exact hold item (h.origin group hkept item hitem)
    · obtain rfl := List.mem_singleton.mp hitem
      exact hnew
    · rcases List.mem_append.mp hitem with hitem | hitem
      · exact hold item (h.origin old hkept item hitem)
      · obtain rfl := List.mem_singleton.mp hitem
        exact hnew
  · intro path endpoint hmem
    obtain ⟨⟨group, hgroup, hitem⟩, hkept⟩ := exists_of_add groups ⟨route.2, pattern⟩
    rcases List.mem_append.mp hmem with hmem | hmem
    · obtain ⟨old, hgroup, item, hitem, hboth⟩ := h.every path endpoint hmem
      obtain ⟨next, hnext, hall⟩ := hkept old hgroup
      exact ⟨next, hnext, item, hall item hitem, hboth⟩
    · obtain rfl := List.mem_singleton.mp hmem
      exact ⟨group, hgroup, _, hitem, rfl, hpattern⟩

theorem sound_ofRoutes {routes : List (DraftRoute η)} {groups : RouteGroups η}
    (h : ofRoutes routes = .ok groups) : Sound groups routes := by
  suffices hfold : ∀ (before : List (DraftRoute η)) (first : RouteGroups η), Sound first before →
      routes.foldlM register first = .ok groups → Sound groups (before ++ routes) by
    exact hfold [] [] sound_nil h
  clear h
  induction routes with
  | nil =>
      intro before first hfirst h
      obtain rfl := Except.ok.inj h
      rwa [List.append_nil]
  | cons route routes ih =>
      intro before first hfirst h
      rw [List.foldlM_cons] at h
      cases hregister : first.register route with
      | error fault =>
          rw [hregister] at h
          contradiction
      | ok next =>
          rw [hregister] at h
          have hall := ih (before ++ [route]) next (hfirst.register hregister) h
          rwa [List.append_assoc] at hall

end RouteGroups

/-! Rows. -/

namespace RouteTable

variable {α : Type} {table : RouteTable α} {row : TableRow α} {template : Template}

def branches (table : RouteTable α) : Branches (TableRow α) :=
  table.rows.map fun row => (row.template, row)

theorem mem_branches :
    (template, row) ∈ table.branches ↔ row ∈ table.rows ∧ template = row.template := by
  unfold branches
  rw [List.mem_map]
  constructor
  · intro h
    obtain ⟨found, hfound, heq⟩ := h
    obtain ⟨rfl, rfl⟩ := Prod.mk.inj heq
    exact ⟨hfound, rfl⟩
  · intro h
    obtain ⟨hrow, rfl⟩ := h
    exact ⟨row, hrow, rfl⟩

theorem find?_eq (table : RouteTable α) (path : String) :
    table.find? path = (table.branches.find? path.toList).map fun found =>
      (found.1.entry, found.1.template.names.zip (found.2.map String.ofList)) := rfl

/-- The row that a path selects matches it. -/
theorem matches_of_find? (hlast : ∀ row ∈ table.rows, row.template.RestLast) {path : List Char}
    {values : List (List Char)} (hfind : table.branches.find? path = some (row, values)) :
    row ∈ table.rows ∧ row.template.Matches path values := by
  have hbranches : ∀ template row, (template, row) ∈ table.branches → template.RestLast := by
    intro template row hmem
    obtain ⟨hrow, rfl⟩ := mem_branches.mp hmem
    exact hlast row hrow
  obtain ⟨template, hmem, hmatches⟩ := Branches.matches_of_findWithin hbranches hfind
  obtain ⟨hrow, rfl⟩ := mem_branches.mp hmem
  exact ⟨hrow, hmatches⟩

end RouteTable

namespace Template

theorem restLast_of_flawWithin {seen template : Template} {branches : Branches Template}
    (h : flawWithin seen template branches = none) : template.RestLast := by
  induction template generalizing seen branches with
  | nil => trivial
  | cons token later ih =>
      cases token with
      | literal c => exact ih h
      | param name =>
          unfold flawWithin at h
          split at h
          · contradiction
          · split at h
            · contradiction
            · exact ih h
      | rest name =>
          unfold flawWithin at h
          split at h
          · split at h <;> contradiction
          · split at h
            · next hnil => exact List.isEmpty_iff.mp hnil
            · contradiction

theorem octets_literal (c : Char) (later : Template) :
    octets (.literal c :: later) =
      ((String.utf8EncodeChar c).map fun b => Char.ofNat b.toNat).map .literal ++ later.octets := by
  rw [List.map_map]
  rfl

theorem octets_eq_nil {template : Template} (h : template.octets = []) : template = [] := by
  match template with
  | [] => rfl
  | .literal c :: later =>
      rw [octets_literal, List.append_eq_nil_iff, List.map_eq_nil_iff, List.map_eq_nil_iff] at h
      exact absurd h.1 String.utf8EncodeChar_ne_nil

theorem restLast_of_octets {template : Template} (h : template.octets.RestLast) :
    template.RestLast := by
  induction template with
  | nil => trivial
  | cons token later ih =>
      cases token with
      | literal c =>
          rw [octets_literal] at h
          exact ih (restLast_text.mp h)
      | param name => exact ih h
      | rest name => exact octets_eq_nil h

end Template

namespace Router

/-- The rows of a table are the groups in order, none of them with a flaw next to those before it. -/
inductive Holds : RouteTable (List (RouteItem η)) → RouteGroups η → Prop
  | empty : Holds .empty []
  | insert {table : RouteTable (List (RouteItem η))} {groups : RouteGroups η} {group : RouteGroup η}
      {template : Template} : Holds table groups → Template.parse? group.template = some template →
      Template.flawWithin [] template.octets table.templates = none →
      Holds ⟨table.rows ++ [⟨template, group.items⟩]⟩ (groups ++ [group])

theorem Holds.insert_eq_ok {table next : RouteTable (List (RouteItem η))} {groups : RouteGroups η}
    {group : RouteGroup η} (h : Holds table groups) (hinsert : Router.insert table group = .ok next) :
    Holds next (groups ++ [group]) := by
  unfold Router.insert RouteTable.insert? at hinsert
  cases hparse : Template.parse? group.template with
  | none =>
      rw [hparse] at hinsert
      contradiction
  | some template =>
      simp only [hparse] at hinsert
      cases hflaw : Template.flawWithin [] template.octets table.templates with
      | some flaw =>
          rw [hflaw] at hinsert
          contradiction
      | none =>
          rw [hflaw] at hinsert
          obtain rfl := Except.ok.inj hinsert
          exact h.insert hparse hflaw

theorem holds_ofGroups {groups : RouteGroups η} {router : Router η}
    (h : ofGroups groups = .ok router) : Holds router.table groups := by
  suffices hfold : ∀ (before : RouteGroups η) (table next : RouteTable (List (RouteItem η))),
      Holds table before → groups.foldlM insert table = .ok next → Holds next (before ++ groups) by
    unfold ofGroups at h
    cases htable : groups.foldlM insert (.empty : RouteTable (List (RouteItem η))) with
    | error fault =>
        rw [htable] at h
        contradiction
    | ok table =>
        rw [htable] at h
        obtain rfl := Except.ok.inj h
        exact hfold [] .empty table .empty htable
  clear h
  induction groups with
  | nil =>
      intro before table next hholds h
      obtain rfl := Except.ok.inj h
      rwa [List.append_nil]
  | cons group groups ih =>
      intro before table next hholds h
      rw [List.foldlM_cons] at h
      cases hinsert : Router.insert table group with
      | error fault =>
          rw [hinsert] at h
          contradiction
      | ok middle =>
          rw [hinsert] at h
          have hall := ih (before ++ [group]) middle next (hholds.insert_eq_ok hinsert) h
          rwa [List.append_assoc] at hall

variable {table : RouteTable (List (RouteItem η))} {groups : RouteGroups η}

theorem Holds.exists_group (h : Holds table groups) {row : TableRow (List (RouteItem η))}
    (hrow : row ∈ table.rows) :
    ∃ group ∈ groups, row.entry = group.items ∧
      Template.parse? group.template = some row.template := by
  induction h with
  | empty => contradiction
  | insert _ hparse _ ih =>
      rcases List.mem_append.mp hrow with hearlier | hlast
      · obtain ⟨group, hgroup, hboth⟩ := ih hearlier
        exact ⟨group, List.mem_append_left _ hgroup, hboth⟩
      · obtain rfl := List.mem_singleton.mp hlast
        exact ⟨_, List.mem_append_right _ (List.mem_singleton.mpr rfl), rfl, hparse⟩

theorem Holds.exists_row (h : Holds table groups) {group : RouteGroup η} (hgroup : group ∈ groups) :
    ∃ row ∈ table.rows, row.entry = group.items ∧
      Template.parse? group.template = some row.template := by
  induction h with
  | empty => contradiction
  | insert _ hparse _ ih =>
      rcases List.mem_append.mp hgroup with hearlier | hlast
      · obtain ⟨row, hrow, hboth⟩ := ih hearlier
        exact ⟨row, List.mem_append_left _ hrow, hboth⟩
      · obtain rfl := List.mem_singleton.mp hlast
        exact ⟨_, List.mem_append_right _ (List.mem_singleton.mpr rfl), rfl, hparse⟩

theorem Holds.restLast (h : Holds table groups) {row : TableRow (List (RouteItem η))}
    (hrow : row ∈ table.rows) : row.template.RestLast := by
  induction h with
  | empty => contradiction
  | insert _ _ hflaw ih =>
      rcases List.mem_append.mp hrow with hearlier | hlast
      · exact ih hearlier
      · obtain rfl := List.mem_singleton.mp hlast
        exact Template.restLast_of_octets (Template.restLast_of_flawWithin hflaw)

end Router

/-- A router that builds holds the groups of the routes that were registered. -/
theorem RouterBuilder.groups_of_build {builder : RouterBuilder η} {router : Router η}
    (h : builder.build = .ok router) :
    ∃ groups, RouteGroups.ofRoutes builder.draft.routes = .ok groups ∧
      Router.Holds router.table groups := by
  have hfault := fault_of_build h
  unfold build RouteDraft.routes? at h
  rw [hfault] at h
  cases hgroups : RouteGroups.ofRoutes builder.draft.routes with
  | error fault =>
      simp only [bind, Except.bind, hgroups] at h
      contradiction
  | ok groups =>
      simp only [bind, Except.bind, hgroups] at h
      exact ⟨groups, rfl, Router.holds_ofGroups h⟩

theorem RouterBuilder.holds_of_build {builder : RouterBuilder η} {router : Router η}
    (h : builder.build = .ok router) :
    ∃ groups, RouteGroups.Sound groups builder.draft.routes ∧ Router.Holds router.table groups := by
  obtain ⟨groups, hgroups, hholds⟩ := groups_of_build h
  exact ⟨groups, RouteGroups.sound_ofRoutes hgroups, hholds⟩

namespace Router

variable {builder : RouterBuilder η} {router : Router η}

theorem mem_items {item : RouteItem η} :
    item ∈ router.items ↔ ∃ row ∈ router.table.rows, item ∈ row.entry :=
  List.mem_flatMap

/-- The items are the routes that were registered. -/
theorem comesFrom_of_build (hbuild : builder.build = .ok router) {item : RouteItem η}
    (hitem : item ∈ router.items) : item.ComesFrom builder.draft.routes := by
  obtain ⟨groups, hsound, hholds⟩ := RouterBuilder.holds_of_build hbuild
  obtain ⟨row, hrow, hentry⟩ := mem_items.mp hitem
  obtain ⟨group, hgroup, hsame, -⟩ := hholds.exists_group hrow
  exact hsound.origin group hgroup item (hsame ▸ hentry)

theorem locate_of_find?_eq_none {path : String}
    (h : router.table.branches.find? path.toList = none) : router.locate path = ⟨[], []⟩ := by
  rw [locate, RouteTable.find?_eq, h]
  rfl

theorem locate_of_find?_eq_some {path : String} {row : TableRow (List (RouteItem η))}
    {values : List (List Char)} (h : router.table.branches.find? path.toList = some (row, values)) :
    router.locate path = ⟨row.entry, row.template.names.zip (values.map String.ofList)⟩ := by
  rw [locate, RouteTable.find?_eq, h]
  rfl

theorem mem_located {path : String} {item : RouteItem η} :
    item ∈ (router.locate path).items ↔ ∃ row values,
      router.table.branches.find? path.toList = some (row, values) ∧ item ∈ row.entry := by
  cases hfind : router.table.branches.find? path.toList with
  | none => simp [locate_of_find?_eq_none hfind]
  | some found =>
      obtain ⟨row, values⟩ := found
      simp [locate_of_find?_eq_some hfind]

theorem mem_items_of_located (hbuild : builder.build = .ok router) {path : String}
    {item : RouteItem η} (hitem : item ∈ (router.locate path).items) : item ∈ router.items := by
  obtain ⟨groups, -, hholds⟩ := RouterBuilder.holds_of_build hbuild
  obtain ⟨row, values, hfind, hentry⟩ := mem_located.mp hitem
  have hrow := (RouteTable.matches_of_find? (fun row hrow => hholds.restLast hrow) hfind).1
  exact mem_items.mpr ⟨row, hrow, hentry⟩

theorem mem_items_of_candidates (hbuild : builder.build = .ok router) {path : String}
    {item : RouteItem η} (hitem : item ∈ router.candidates path) : item ∈ router.items :=
  mem_items_of_located hbuild (List.mem_filter.mp hitem).1

theorem mem_of_select {candidates : List (RouteItem η)} {method : Method} {item : RouteItem η}
    (h : select candidates method = some item) : item ∈ candidates := by
  unfold select at h
  split at h
  · next found hfound =>
    obtain rfl := Option.some.inj h
    exact List.mem_of_find?_eq_some hfound
  · split at h
    · exact List.mem_of_find?_eq_some h
    · contradiction

theorem dispatch_eq_ok {method : Method} {path : String} {route : Route η}
    (h : router.dispatch method path = .ok route) :
    select (router.candidates path) method = some route.item ∧
      route.params = (router.locate path).params := by
  unfold dispatch at h
  simp only at h
  split at h
  · contradiction
  · split at h
    · next item hselect =>
      obtain rfl := Except.ok.inj h
      exact ⟨hselect, rfl⟩
    · contradiction

end Router

end Turnpike
