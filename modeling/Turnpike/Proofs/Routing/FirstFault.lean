import Turnpike.Proofs.Routing.Faultless
import Turnpike.Proofs.Routing.Once

/-!
The fault a router is refused for.  Whatever is registered is judged by what was registered before it:
at first what can be told on the spot, then every route, then every template.  The first to be at fault
is reported, and where nothing is at fault a router is built.
-/

namespace Turnpike

variable {η : Type}

/-! What can be told when it is registered. -/

/-- A method comes a second time, and none has done so before. -/
def Method.IsFirstRepeated (methods : List Method) (method : Method) : Prop :=
  ∃ before after, methods = before ++ method :: after ∧ before.Nodup ∧ method ∈ before

theorem Method.repeated?_eq_some_iff {taken methods : List Method} {method : Method} :
    repeated? taken methods = some method ↔ ∃ before after, methods = before ++ method :: after ∧
      repeated? taken before = none ∧ (method ∈ taken ∨ method ∈ before) := by
  induction methods generalizing taken with
  | nil => simp [repeated?]
  | cons first methods ih =>
      by_cases htaken : first ∈ taken
      · rw [repeated?, if_pos htaken, Option.some_inj]
        constructor
        · rintro rfl
          exact ⟨[], methods, rfl, rfl, .inl htaken⟩
        · rintro ⟨_ | ⟨other, before⟩, after, hsplit, hnone, -⟩
          · exact (List.cons.inj hsplit).1
          · obtain ⟨rfl, -⟩ := List.cons.inj hsplit
            rw [repeated?, if_pos htaken] at hnone
            contradiction
      · rw [repeated?, if_neg htaken, ih]
        constructor
        · rintro ⟨before, after, rfl, hnone, hmem⟩
          refine ⟨first :: before, after, rfl, by rw [repeated?, if_neg htaken, hnone], ?_⟩
          rw [List.mem_cons] at hmem ⊢
          tauto
        · rintro ⟨_ | ⟨other, before⟩, after, hsplit, hnone, hmem⟩
          · obtain ⟨rfl, -⟩ := List.cons.inj hsplit
            exact absurd hmem (by simpa using htaken)
          · obtain ⟨rfl, rfl⟩ := List.cons.inj hsplit
            rw [repeated?, if_neg htaken] at hnone
            refine ⟨before, after, rfl, hnone, ?_⟩
            rw [List.mem_cons] at hmem ⊢
            tauto

theorem Method.repeated?_nil_eq_some_iff {methods : List Method} {method : Method} :
    repeated? [] methods = some method ↔ IsFirstRepeated methods method := by
  simp [repeated?_eq_some_iff, repeated?_eq_none, IsFirstRepeated]

/-- Only which methods are taken matters, not their order. -/
theorem Method.repeated?_congr {taken other : List Method}
    (h : ∀ method, method ∈ taken ↔ method ∈ other) (methods : List Method) :
    repeated? taken methods = repeated? other methods := by
  induction methods generalizing taken other with
  | nil => rfl
  | cons first methods ih =>
      have hlater : ∀ method, method ∈ first :: taken ↔ method ∈ first :: other := by
        intro method
        rw [List.mem_cons, List.mem_cons, h]
      rw [repeated?, repeated?, ih hlater]
      simp only [h]

theorem Method.repeated?_append (taken first second : List Method) :
    repeated? taken (first ++ second) =
      (repeated? taken first).or (repeated? (first ++ taken) second) := by
  induction first generalizing taken with
  | nil => rfl
  | cons method first ih =>
      rw [List.cons_append, repeated?, repeated?]
      split
      · rfl
      · have hsame : ∀ other, other ∈ first ++ method :: taken ↔ other ∈ method :: first ++ taken := by
          simp [or_left_comm]
        rw [ih, repeated?_congr hsame]

namespace CompositionView

/-- A composition keeps the method that was repeated first among all it was given. -/
theorem repeated_ofEntries (entries : List (Endpoint η)) :
    (ofEntries entries).repeated = Method.repeated? [] (entries.flatMap Endpoint.methods) := by
  induction entries using List.reverseRecOn with
  | nil => rfl
  | append_singleton entries entry ih =>
      have hview : ofEntries (entries ++ [entry]) = (ofEntries entries).add entry := List.foldl_concat ..
      rw [hview, List.flatMap_append, List.flatMap_singleton, Method.repeated?_append, ← ih,
        List.append_nil, add]
      cases hrepeated : (ofEntries entries).repeated with
      | some method => split <;> simp
      | none =>
          have hfault : (ofEntries entries).fault? = none := by rw [fault?, hrepeated]; rfl
          rw [methods, endpoints_ofEntries hfault, Option.none_or]
          cases Method.repeated? (entries.flatMap Endpoint.methods) entry.methods with
          | none => rfl
          | some method => rfl

end CompositionView

theorem RouteDraft.fault_register (draft : RouteDraft η) (registration : Registration η) :
    (draft.register registration).fault = draft.fault.or registration.fault? := by
  cases registration with
  | route path endpoint => exact (Option.or_none ..).symm
  | view path endpoints => exact (Option.or_none ..).symm
  | composition path composed =>
      change (draft.composition path composed).fault = draft.fault.or composed.fault?
      unfold composition
      cases composed.fault? with
      | none => exact (Option.or_none ..).symm
      | some fault => rfl

theorem Blueprint.fault_registered (registrations : List (Registration η)) (blueprint : Blueprint η) :
    (registrations.foldl register blueprint).draft.fault =
      blueprint.draft.fault.or (registrations.findSome? Registration.fault?) := by
  induction registrations generalizing blueprint with
  | nil => exact (Option.or_none ..).symm
  | cons registration registrations ih =>
      rw [List.foldl_cons, ih, register, RouteDraft.fault_register, Option.or_assoc,
        List.findSome?_cons]
      cases registration.fault? <;> rfl

namespace Mounting

def name? : Mounting η → Option String
  | .own _ => none
  | .blueprint name _ _ => some name

/-- What is at fault with a mounting, by the names of the blueprints before it. -/
def fault? (names : List String) : Mounting η → Option RouteFault
  | .own registration => registration.fault?
  | .blueprint name _ registrations =>
    if name ∈ names then some (.duplicateBlueprint name)
    else registrations.findSome? Registration.fault?

end Mounting

namespace RouterBuilder

theorem fault_mount (builder : RouterBuilder η) (mounting : Mounting η) :
    (builder.mount mounting).draft.fault =
      builder.draft.fault.or (mounting.fault? builder.blueprints) := by
  cases mounting with
  | own registration => exact RouteDraft.fault_register ..
  | blueprint name mount registrations =>
      have hfault := Blueprint.fault_registered registrations (Blueprint.start name mount)
      have hname := (Blueprint.registered_eq registrations (Blueprint.start name mount)).1
      change (builder.blueprint _).draft.fault = _
      rw [RouterBuilder.blueprint, hname, Mounting.fault?]
      change _ = (none : Option RouteFault).or _ at hfault
      rw [Option.none_or] at hfault
      by_cases htaken : name ∈ builder.blueprints
      · rw [if_pos htaken, if_pos (show (Blueprint.start name mount).name ∈ _ from htaken)]
        rfl
      · rw [if_neg htaken, if_neg (show (Blueprint.start name mount).name ∉ _ from htaken)]
        rw [Blueprint.routes?, RouteDraft.routes?, hfault]
        cases registrations.findSome? Registration.fault? with
        | none => exact (Option.or_none ..).symm
        | some fault => rfl

theorem blueprints_mount (builder : RouterBuilder η) (mounting : Mounting η) (name : String) :
    name ∈ (builder.mount mounting).blueprints ↔
      name ∈ builder.blueprints ∨ mounting.name? = some name := by
  cases mounting with
  | own registration => simp [mount, register, Mounting.name?]
  | blueprint own mount registrations =>
      have hname := (Blueprint.registered_eq registrations (Blueprint.start own mount)).1
      change name ∈ (builder.blueprint _).blueprints ↔ _ ∨ some own = some name
      rw [RouterBuilder.blueprint, hname, Option.some_inj]
      change name ∈ (if own ∈ builder.blueprints then _ else _ : RouterBuilder η).blueprints ↔ _
      split
      · next htaken =>
        refine ⟨.inl, ?_⟩
        rintro (hmem | rfl)
        · exact hmem
        · exact htaken
      · exact List.mem_cons.trans (or_comm.trans (or_congr_right eq_comm))

theorem mem_blueprints {mountings : List (Mounting η)} {name : String} :
    name ∈ (ofMountings mountings).blueprints ↔ name ∈ mountings.filterMap Mounting.name? := by
  induction mountings using List.reverseRecOn with
  | nil => simp [ofMountings, empty]
  | append_singleton mountings mounting ih =>
      have hlast : ofMountings (mountings ++ [mounting]) = (ofMountings mountings).mount mounting :=
        List.foldl_concat ..
      rw [hlast, blueprints_mount, ih, List.filterMap_append, List.mem_append]
      cases hname : mounting.name? <;> simp [hname, eq_comm]

end RouterBuilder

namespace Enrolment

/-- A composition is at fault if a method is repeated among all that was added to it. -/
inductive AtFault : Enrolment → RouteFault → Prop
  | repeated {path : String} {entries : List (Endpoint WebHandler)} {method : Method} :
      Method.IsFirstRepeated (entries.flatMap Endpoint.methods) method →
      AtFault (.composition path entries) (.duplicateCompositionMethod method)

theorem atFault_iff {enrolment : Enrolment} {fault : RouteFault} :
    enrolment.AtFault fault ↔ enrolment.registration.fault? = some fault := by
  cases enrolment with
  | route path endpoint => exact iff_of_false nofun nofun
  | view path given => exact iff_of_false nofun nofun
  | composition path entries =>
      change _ ↔ (CompositionView.ofEntries entries).fault? = some fault
      rw [CompositionView.fault?, CompositionView.repeated_ofEntries, Option.map_eq_some_iff]
      simp only [Method.repeated?_nil_eq_some_iff]
      constructor
      · rintro ⟨hrepeated⟩
        exact ⟨_, hrepeated, rfl⟩
      · rintro ⟨method, hrepeated, rfl⟩
        exact .repeated hrepeated

/-- The first enrolment at fault is found from the front. -/
theorem firstFault_iff {enrolments : List Enrolment} {fault : RouteFault} :
    FirstFault (fun _ => AtFault) enrolments fault ↔
      (enrolments.map registration).findSome? Registration.fault? = some fault := by
  induction enrolments using List.reverseRecOn generalizing fault with
  | nil => exact iff_of_false not_firstFault_nil nofun
  | append_singleton enrolments enrolment ih =>
      rw [firstFault_concat, faultless_iff, ih, atFault_iff, List.map_append, List.findSome?_append,
        Option.or_eq_some_iff, List.map_singleton, List.findSome?_singleton,
        Option.eq_none_iff_forall_ne_some]
      simp only [ih]

end Enrolment

namespace Section

def name? : Section → Option String
  | .own _ => none
  | .blueprint name _ _ => some name

/-- What is at fault with a section as soon as it is registered behind others: a composition of its
own, the name of a blueprint, or else the first composition of a blueprint that is at fault. -/
inductive AtFault (before : List Section) : Section → RouteFault → Prop
  | own {enrolment : Enrolment} {fault : RouteFault} :
      enrolment.AtFault fault → AtFault before (.own enrolment) fault
  | taken {name : String} {mount : Option String} {enrolments : List Enrolment} :
      name ∈ before.filterMap name? →
      AtFault before (.blueprint name mount enrolments) (.duplicateBlueprint name)
  | inside {name : String} {mount : Option String} {enrolments : List Enrolment}
      {fault : RouteFault} : name ∉ before.filterMap name? →
      FirstFault (fun _ => Enrolment.AtFault) enrolments fault →
      AtFault before (.blueprint name mount enrolments) fault

theorem name?_mounting (part : Section) : part.mounting.name? = part.name? := by
  cases part <;> rfl

theorem atFault_iff {before : List Section} {part : Section} {fault : RouteFault} :
    AtFault before part fault ↔
      part.mounting.fault? (RouterBuilder.ofSections before).blueprints = some fault := by
  have hnames : ∀ name, name ∈ (RouterBuilder.ofSections before).blueprints ↔
      name ∈ before.filterMap name? := by
    intro name
    rw [RouterBuilder.ofSections, RouterBuilder.mem_blueprints, List.filterMap_map,
      Function.comp_def, funext name?_mounting]
  cases part with
  | own enrolment =>
      refine Iff.trans ?_ Enrolment.atFault_iff
      exact ⟨fun h => by cases h; assumption, .own⟩
  | blueprint name mount enrolments =>
      rw [mounting, Mounting.fault?]
      by_cases htaken : name ∈ before.filterMap name?
      · rw [if_pos ((hnames name).mpr htaken)]
        constructor
        · rintro (_ | _ | ⟨hfree, -⟩)
          · rfl
          · exact absurd htaken hfree
        · rintro ⟨⟩
          exact .taken htaken
      · rw [if_neg (mt (hnames name).mp htaken), ← Enrolment.firstFault_iff]
        constructor
        · rintro (_ | hmem | ⟨-, hinside⟩)
          · exact absurd hmem htaken
          · exact hinside
        · exact .inside htaken

end Section

namespace RouterBuilder

/-- The draft of a router keeps the first fault of its sections. -/
theorem fault_ofSections (sections : List Section) {fault : RouteFault} :
    (ofSections sections).draft.fault = some fault ↔ FirstFault Section.AtFault sections fault := by
  induction sections using List.reverseRecOn generalizing fault with
  | nil => exact iff_of_false nofun not_firstFault_nil
  | append_singleton sections part ih =>
      have hlast : ofSections (sections ++ [part]) = (ofSections sections).mount part.mounting := by
        rw [ofSections, List.map_append]
        exact List.foldl_concat ..
      rw [hlast, fault_mount, Option.or_eq_some_iff, firstFault_concat, faultless_iff, ih,
        Section.atFault_iff, Option.eq_none_iff_forall_ne_some]
      simp only [← ih]

theorem fault_ofSections_eq_none_iff {sections : List Section} :
    (ofSections sections).draft.fault = none ↔ Faultless Section.AtFault sections := by
  rw [Option.eq_none_iff_forall_ne_some, faultless_iff]
  exact forall_congr' fun fault => not_congr (fault_ofSections sections)

theorem routes?_ofSections {sections : List Section} (h : Faultless Section.AtFault sections) :
    (ofSections sections).draft.routes? = .ok (sections.flatMap Section.flattened) := by
  have hnone := fault_ofSections_eq_none_iff.mpr h
  rw [RouteDraft.routes?, hnone, routes_of_sound hnone]

end RouterBuilder

/-! What can be told of a route. -/

namespace DraftRoute

/-- A method is registered for a pattern by one of some routes. -/
def IsRegistered (routes : List (DraftRoute η)) (pattern : RoutePattern) (method : Method) : Prop :=
  ∃ route ∈ routes, RoutePattern.parse route.1 = .ok pattern ∧ method ∈ route.2.methods

/-- What is at fault with a route behind others, in the order in which it is looked for. -/
inductive AtFault (before : List (DraftRoute η)) (route : DraftRoute η) : RouteFault → Prop
  | noMethods : route.2.methods = [] → AtFault before route (.noMethods route.1)
  | invalidPattern {flaw : PatternFlaw} : route.2.methods ≠ [] →
      RoutePattern.parse route.1 = .error flaw → AtFault before route (.invalidPattern route.1 flaw)
  | duplicate {pattern : RoutePattern} {free later : List Method} {method : Method} :
      RoutePattern.parse route.1 = .ok pattern → route.2.methods = free ++ method :: later →
      IsRegistered before pattern method → (∀ other ∈ free, ¬ IsRegistered before pattern other) →
      AtFault before route (.duplicate route.1 method)

/-- The templates of routes, each where it comes for the first time. -/
def templates (routes : List (DraftRoute η)) : List String :=
  ((routes.filterMap fun route => (RoutePattern.parse route.1).toOption).map
    RoutePattern.template).eraseDups

theorem templates_concat (routes : List (DraftRoute η)) {route : DraftRoute η}
    {pattern : RoutePattern} (h : RoutePattern.parse route.1 = .ok pattern) :
    templates (routes ++ [route]) =
      if pattern.template ∈ templates routes then templates routes
      else templates routes ++ [pattern.template] := by
  have hlast : [route].filterMap (fun route => (RoutePattern.parse route.1).toOption) = [pattern] := by
    simp [h, Except.toOption]
  unfold templates
  rw [List.filterMap_append, List.map_append, hlast, List.map_singleton, eraseDups_concat]
  simp only [List.mem_eraseDups]

end DraftRoute

namespace RouteGroups

variable {groups next : RouteGroups η} {items : List (RouteItem η)} {route : DraftRoute η}
  {routes : List (DraftRoute η)}

/-- The groups of routes: all that was registered with them, by their templates in order. -/
structure Grouped (routes : List (DraftRoute η)) (groups : RouteGroups η) : Prop where
  gathers : ∃ items, List.Forall₂ RouteItem.Carries items routes ∧ Gathers groups items
  templates : groups.map RouteGroup.template = DraftRoute.templates routes

theorem grouped_nil : Grouped ([] : List (DraftRoute η)) [] :=
  ⟨⟨[], .nil, List.nodup_nil, fun _ => rfl⟩, rfl⟩

theorem exists_item_of_carries (hcarry : List.Forall₂ RouteItem.Carries items routes)
    (h : route ∈ routes) : ∃ item ∈ items, item.Carries route := by
  induction hcarry with
  | nil => contradiction
  | @cons item first items routes hitem _ ih =>
      rcases List.mem_cons.mp h with rfl | hlater
      · exact ⟨item, List.mem_cons_self .., hitem⟩
      · obtain ⟨found, hfound, hcarries⟩ := ih hlater
        exact ⟨found, List.mem_cons_of_mem _ hfound, hcarries⟩

theorem Gathers.answers_iff (h : Gathers groups items)
    (hcarry : List.Forall₂ RouteItem.Carries items routes) (pattern : RoutePattern)
    (method : Method) :
    ((groups.items pattern.template).any fun item =>
      item.pattern == pattern && item.answers method) = true ↔
        DraftRoute.IsRegistered routes pattern method := by
  rw [h.items, List.any_eq_true]
  constructor
  · rintro ⟨item, hitem, hboth⟩
    rw [Bool.and_eq_true, beq_iff_eq, RouteItem.answers, List.contains_iff_mem] at hboth
    obtain ⟨found, hfound, hcarries⟩ :=
      RouteItem.exists_route_of_carries hcarry (List.mem_filter.mp hitem).1
    exact ⟨found, hfound, hboth.1 ▸ hcarries.pattern, hcarries.endpoint ▸ hboth.2⟩
  · rintro ⟨found, hfound, hparse, hmethod⟩
    obtain ⟨item, hitem, hcarries⟩ := exists_item_of_carries hcarry hfound
    have hpattern : item.pattern = pattern := Except.ok.inj (hcarries.pattern.symm.trans hparse)
    refine ⟨item, List.mem_filter.mpr ⟨hitem, by simp [hpattern]⟩, ?_⟩
    rw [← hcarries.endpoint] at hmethod
    simpa [hpattern, RouteItem.answers, RouteItem.methods] using hmethod

/-- Of the methods of a route the first that is registered for its pattern already is found. -/
theorem Grouped.taken?_eq_some_iff (h : Grouped routes groups) {pattern : RoutePattern}
    {methods : List Method} {method : Method} : groups.taken? pattern methods = some method ↔
      DraftRoute.IsRegistered routes pattern method ∧ ∃ free later,
        methods = free ++ method :: later ∧
          ∀ other ∈ free, ¬ DraftRoute.IsRegistered routes pattern other := by
  obtain ⟨items, hcarry, hgathers⟩ := h.gathers
  rw [taken?, List.find?_eq_some_iff_append, hgathers.answers_iff hcarry]
  simp only [Bool.not_eq_true', ← Bool.not_eq_true, hgathers.answers_iff hcarry]

theorem Grouped.atFault_of_register (h : Grouped routes groups) {fault : RouteFault}
    (hregister : groups.register route = .error fault) : DraftRoute.AtFault routes route fault := by
  unfold register at hregister
  split at hregister
  · next hnone =>
    obtain rfl := Except.error.inj hregister
    exact .noMethods (List.isEmpty_iff.mp hnone)
  · next hsome =>
    rw [List.isEmpty_iff] at hsome
    split at hregister
    · next flaw hparse =>
      obtain rfl := Except.error.inj hregister
      exact .invalidPattern hsome hparse
    · next pattern hparse =>
      split at hregister
      · next method htaken =>
        obtain rfl := Except.error.inj hregister
        obtain ⟨hregistered, free, later, hmethods, hfree⟩ := h.taken?_eq_some_iff.mp htaken
        exact .duplicate hparse hmethods hregistered hfree
      · contradiction

theorem Grouped.register_of_atFault (h : Grouped routes groups) {fault : RouteFault}
    (hfault : DraftRoute.AtFault routes route fault) : groups.register route = .error fault := by
  unfold register
  cases hfault with
  | noMethods hnone => rw [if_pos (List.isEmpty_iff.mpr hnone)]
  | invalidPattern hsome hparse => rw [if_neg (mt List.isEmpty_iff.mp hsome), hparse]
  | duplicate hparse hmethods hregistered hfree =>
      have hsome : ¬ route.2.methods.isEmpty = true := by simp [hmethods]
      have htaken := h.taken?_eq_some_iff.mpr ⟨hregistered, _, _, hmethods, hfree⟩
      rw [if_neg hsome, hparse]
      simp only [htaken]

theorem Grouped.register (h : Grouped routes groups) (hregister : groups.register route = .ok next) :
    Grouped (routes ++ [route]) next := by
  obtain ⟨pattern, hparse, rfl⟩ := register_eq_ok hregister
  obtain ⟨items, hcarry, hgathers⟩ := h.gathers
  refine ⟨⟨_, List.rel_append hcarry (.cons ⟨rfl, hparse⟩ .nil), hgathers.add ⟨route.2, pattern⟩⟩, ?_⟩
  rw [templates_add, h.templates, DraftRoute.templates_concat routes hparse]

theorem ofRoutes_judged (routes : List (DraftRoute η)) :
    (∀ fault, ofRoutes routes = .error fault ↔ FirstFault DraftRoute.AtFault routes fault) ∧
      ∀ groups, ofRoutes routes = .ok groups → Grouped routes groups := by
  refine foldlM_judged Grouped grouped_nil ?fails ?goes routes
  case fails =>
    intro before groups route fault h
    exact ⟨h.atFault_of_register, h.register_of_atFault⟩
  case goes =>
    intro before groups route next h hregister
    exact h.register hregister

end RouteGroups

/-! What can be told of a template. -/

/-- The templates that some texts read as, octet by octet, each with itself. -/
def Template.laidOut (texts : List String) : Branches Template :=
  (texts.filterMap parse?).map fun template => (template.octets, template)

/-- What is at fault with the text of a template behind others: it does not read, or the template has
a flaw next to theirs. -/
inductive Template.AtFault (before : List String) (text : String) : RouteFault → Prop
  | unread : parse? text = none → AtFault before text (.conflict text .invalidName)
  | flawed {template : Template} {flaw : TableFlaw} : parse? text = some template →
      flawWithin [] template.octets (laidOut before) = some flaw →
      AtFault before text (.conflict text flaw)

namespace Router

variable {table : RouteTable (List (RouteItem η))} {groups : RouteGroups η} {group : RouteGroup η}

theorem Holds.templates_eq (h : Holds table groups) :
    table.templates = Template.laidOut (groups.map RouteGroup.template) := by
  induction h with
  | empty => rfl
  | insert hholds hparse _ ih =>
      rw [RouteTable.templates, List.map_append, ← RouteTable.templates, ih, Template.laidOut,
        Template.laidOut, List.map_append, List.filterMap_append, List.map_append]
      simp [hparse]

theorem Holds.insert_eq_error_iff (h : Holds table groups) {fault : RouteFault} :
    Router.insert table group = .error fault ↔
      Template.AtFault (groups.map RouteGroup.template) group.template fault := by
  unfold Router.insert RouteTable.insert?
  rw [h.templates_eq]
  constructor
  · intro hinsert
    cases hparse : Template.parse? group.template with
    | none =>
        simp only [hparse] at hinsert
        obtain rfl := Except.error.inj hinsert
        exact .unread hparse
    | some template =>
        simp only [hparse] at hinsert
        cases hflaw : Template.flawWithin [] template.octets
            (Template.laidOut (groups.map RouteGroup.template)) with
        | none =>
            simp only [hflaw] at hinsert
            contradiction
        | some flaw =>
            simp only [hflaw] at hinsert
            obtain rfl := Except.error.inj hinsert
            exact .flawed hparse hflaw
  · intro hfault
    cases hfault with
    | unread hparse => simp only [hparse]
    | flawed hparse hflaw => simp only [hparse, hflaw]

theorem ofGroups_judged (groups : RouteGroups η) (fault : RouteFault) :
    ofGroups groups = .error fault ↔
      FirstFault Template.AtFault (groups.map RouteGroup.template) fault := by
  have hjudged : (∀ fault, groups.foldlM insert (.empty : RouteTable (List (RouteItem η))) =
        .error fault ↔ FirstFault (fun before group => Template.AtFault
          (before.map RouteGroup.template) (RouteGroup.template group)) groups fault) ∧
      ∀ table, groups.foldlM insert .empty = .ok table → Holds table groups := by
    refine foldlM_judged (fun groups table => Holds table groups) .empty ?fails ?goes groups
    case fails =>
      intro before table group fault h
      exact h.insert_eq_error_iff
    case goes =>
      intro before table group next h hinsert
      exact h.insert_eq_ok hinsert
  rw [firstFault_map, ← hjudged.1 fault, ofGroups]
  cases groups.foldlM insert (.empty : RouteTable (List (RouteItem η))) with
  | ok table => exact iff_of_false nofun nofun
  | error earlier => rw [Except.map, Except.error.injEq, Except.error.injEq]

end Router

namespace RouterBuilder

/-- The fault that a router of some sections is refused for.  What was registered comes first, then
its routes, and then their templates. -/
inductive RefusedFor (sections : List Section) (fault : RouteFault) : Prop
  | registered : FirstFault Section.AtFault sections fault → RefusedFor sections fault
  | routed : Faultless Section.AtFault sections →
      FirstFault DraftRoute.AtFault (sections.flatMap Section.flattened) fault →
      RefusedFor sections fault
  | matched : Faultless Section.AtFault sections →
      Faultless DraftRoute.AtFault (sections.flatMap Section.flattened) →
      FirstFault Template.AtFault
        (DraftRoute.templates (sections.flatMap Section.flattened)) fault →
      RefusedFor sections fault

theorem build_of_fault {builder : RouterBuilder η} {fault : RouteFault}
    (h : builder.draft.fault = some fault) : builder.build = .error fault := by
  rw [build, RouteDraft.routes?, h]
  rfl

/-- Without a fault at registration a router is made of the routes. -/
theorem build_of_faultless {sections : List Section} (h : Faultless Section.AtFault sections) :
    (ofSections sections).build =
      RouteGroups.ofRoutes (sections.flatMap Section.flattened) >>= Router.ofGroups := by
  rw [build, routes?_ofSections h]
  rfl

theorem build_eq_error_iff (sections : List Section) (fault : RouteFault) :
    (ofSections sections).build = .error fault ↔ RefusedFor sections fault := by
  cases hdraft : (ofSections sections).draft.fault with
  | some first =>
      have hfirst := (fault_ofSections sections).mp hdraft
      rw [build_of_fault hdraft, Except.error.injEq]
      constructor
      · rintro rfl
        exact .registered hfirst
      · rintro (hfault | ⟨hnone, -⟩ | ⟨hnone, -⟩)
        · exact Option.some.inj (hdraft.symm.trans ((fault_ofSections sections).mpr hfault))
        · exact absurd hnone hfirst.not_faultless
        · exact absurd hnone hfirst.not_faultless
  | none =>
      have hnone := fault_ofSections_eq_none_iff.mp hdraft
      rw [build_of_faultless hnone]
      obtain ⟨herror, hgrouped⟩ := RouteGroups.ofRoutes_judged (sections.flatMap Section.flattened)
      cases hroutes : RouteGroups.ofRoutes (sections.flatMap Section.flattened) with
      | error first =>
          have hfirst := (herror first).mp hroutes
          change Except.error first = _ ↔ _
          rw [Except.error.injEq]
          constructor
          · rintro rfl
            exact .routed hnone hfirst
          · rintro (hfault | ⟨-, hfault⟩ | ⟨-, hsound, -⟩)
            · exact absurd hnone hfault.not_faultless
            · exact Except.error.inj (hroutes.symm.trans ((herror fault).mpr hfault))
            · exact absurd hsound hfirst.not_faultless
      | ok groups =>
          have hsound := faultless_of_eq_ok herror hroutes
          change Router.ofGroups groups = _ ↔ _
          rw [Router.ofGroups_judged, (hgrouped groups hroutes).templates]
          constructor
          · exact .matched hnone hsound
          · rintro (hfault | ⟨-, hfault⟩ | ⟨-, -, hfault⟩)
            · exact absurd hnone hfault.not_faultless
            · exact absurd hsound hfault.not_faultless
            · exact hfault

theorem builds_iff (sections : List Section) : (∃ router, (ofSections sections).build = .ok router) ↔
    Faultless Section.AtFault sections ∧
    Faultless DraftRoute.AtFault (sections.flatMap Section.flattened) ∧
    Faultless Template.AtFault (DraftRoute.templates (sections.flatMap Section.flattened)) := by
  have hbuilt : (∃ router, (ofSections sections).build = .ok router) ↔
      ∀ fault, ¬ RefusedFor sections fault := by
    simp only [← build_eq_error_iff]
    cases (ofSections sections).build <;> simp
  rw [hbuilt]
  constructor
  · intro h
    have hnone := faultless_iff.mpr fun fault hfault => h fault (.registered hfault)
    have hsound := faultless_iff.mpr fun fault hfault => h fault (.routed hnone hfault)
    exact ⟨hnone, hsound, faultless_iff.mpr fun fault hfault => h fault (.matched hnone hsound hfault)⟩
  · rintro ⟨hnone, hsound, hapart⟩ fault (hfault | ⟨-, hfault⟩ | ⟨-, -, hfault⟩)
    · exact hfault.not_faultless hnone
    · exact hfault.not_faultless hsound
    · exact hfault.not_faultless hapart

/-- A router is built if and only if nothing is at fault: no registration, no route and no template.
If it is not built, what is reported is the first registration at fault; if there is none, the first
route at fault; and if there is none either, the first template that cannot stand behind those before
it. -/
theorem build_reports_first (sections : List Section) :
    (∀ fault, (ofSections sections).build = .error fault ↔ RefusedFor sections fault) ∧
    ((∃ router, (ofSections sections).build = .ok router) ↔
      Faultless Section.AtFault sections ∧
      Faultless DraftRoute.AtFault (sections.flatMap Section.flattened) ∧
      Faultless Template.AtFault (DraftRoute.templates (sections.flatMap Section.flattened))) :=
  ⟨build_eq_error_iff sections, builds_iff sections⟩

end RouterBuilder

end Turnpike
