import Turnpike.Proofs.Routing.Apart

/-!
When a path is not found.  The template is selected before it is asked what has to be a number, so
that an item which fits the path is found only if no other template that matches goes before its own.
-/

namespace Turnpike

variable {η : Type}

namespace RouteItem

/-- The pattern of an item matches a path, of which it captures these parameters. -/
def Captures (item : RouteItem η) (path : String) (params : PathParams) : Prop :=
  ∃ template values, Template.parse? item.pattern.template = some template ∧
    template.Matches path.toList values ∧ params = template.names.zip (values.map String.ofList)

/-- The pattern of an item matches a path, and what has to be a number is one. -/
def Fits (item : RouteItem η) (path : String) : Prop :=
  ∃ params, item.Captures path params ∧ item.pattern.accepts params = true

/-- The parameters of an item reach to the end of their segments. -/
def Plain (item : RouteItem η) : Prop :=
  ∀ template, Template.parse? item.pattern.template = some template → template.Plain

/-- One item goes before another, whatever they have for numbers. -/
def Leads (item other : RouteItem η) : Prop :=
  ∃ first second, Template.parse? item.pattern.template = some first ∧
    Template.parse? other.pattern.template = some second ∧ first.Leads second

end RouteItem

namespace Router

/-- The rows of a router: the items of a row share its template, and no two rows clash. -/
structure Sound (router : Router η) : Prop where
  nonempty : ∀ row ∈ router.table.rows, row.entry ≠ []
  template : ∀ row ∈ router.table.rows, ∀ item ∈ row.entry,
    Template.parse? item.pattern.template = some row.template
  restLast : ∀ row ∈ router.table.rows, row.template.RestLast
  spaced : ∀ row ∈ router.table.rows, row.template.Spaced
  apart : ∀ first ∈ router.table.rows, ∀ second ∈ router.table.rows,
    first.template.Clashes second.template → first = second

theorem sound_of_build {builder : RouterBuilder η} {router : Router η}
    (hbuild : builder.build = .ok router) : router.Sound := by
  obtain ⟨groups, hsound, hholds⟩ := RouterBuilder.holds_of_build hbuild
  refine ⟨?_, ?_, fun row hrow => hholds.restLast hrow, fun row hrow => hholds.spaced_row hrow,
    fun first hfirst second hsecond => hholds.eq_of_clashes hfirst hsecond⟩
  · intro row hrow
    obtain ⟨group, hgroup, hentry, -⟩ := hholds.exists_group hrow
    rw [hentry]
    exact hsound.nonempty group hgroup
  · intro row hrow item hitem
    obtain ⟨group, hgroup, hentry, hparse⟩ := hholds.exists_group hrow
    rw [hsound.template group hgroup item (hentry ▸ hitem), hparse]

/-- No route that was registered is lost. -/
theorem exists_item_of_build {builder : RouterBuilder η} {router : Router η}
    (hbuild : builder.build = .ok router) {pattern : String} {endpoint : Endpoint η}
    (hroute : (pattern, endpoint) ∈ builder.draft.routes) :
    ∃ item ∈ router.items, item.endpoint = endpoint ∧
      RoutePattern.parse pattern = .ok item.pattern := by
  obtain ⟨groups, hsound, hholds⟩ := RouterBuilder.holds_of_build hbuild
  obtain ⟨group, hgroup, item, hitem, hboth⟩ := hsound.every pattern endpoint hroute
  obtain ⟨row, hrow, hentry, -⟩ := hholds.exists_row hgroup
  exact ⟨item, mem_items.mpr ⟨row, hrow, hentry ▸ hitem⟩, hboth⟩

theorem dispatch_eq_notFound {router : Router η} {method : Method} {path : String} :
    router.dispatch method path = .error (.notFound path) ↔ router.candidates path = [] := by
  unfold dispatch
  simp only
  split
  · next hempty => exact iff_of_true rfl (List.isEmpty_iff.mp hempty)
  · next hempty =>
    refine iff_of_false ?_ (fun hnil => hempty (List.isEmpty_iff.mpr hnil))
    split <;> exact nofun

variable {router : Router η} {path : String}

theorem Sound.mem_row (h : router.Sound) {item : RouteItem η} (hitem : item ∈ router.items) :
    ∃ row ∈ router.table.rows, item ∈ row.entry ∧
      Template.parse? item.pattern.template = some row.template := by
  obtain ⟨row, hrow, hentry⟩ := mem_items.mp hitem
  exact ⟨row, hrow, hentry, h.template row hrow item hentry⟩

/-- The candidates are the items of the template that is selected which fit the path. -/
theorem Sound.mem_candidates (h : router.Sound) {item : RouteItem η} :
    item ∈ router.candidates path ↔ item ∈ (router.locate path).items ∧ item.Fits path := by
  rw [candidates, List.mem_filter]
  refine and_congr_right ?_
  intro hitem
  obtain ⟨row, values, hfind, hentry⟩ := mem_located.mp hitem
  obtain ⟨hrow, hmatches⟩ := RouteTable.matches_of_find? h.restLast hfind
  have hparse := h.template row hrow item hentry
  rw [locate_of_find?_eq_some hfind]
  constructor
  · intro haccepts
    exact ⟨_, ⟨row.template, values, hparse, hmatches, rfl⟩, haccepts⟩
  · intro hfits
    obtain ⟨_, ⟨template, others, htemplate, hother, rfl⟩, haccepts⟩ := hfits
    obtain rfl := Option.some.inj (hparse.symm.trans htemplate)
    rw [(h.spaced row hrow).values_eq hmatches hother]
    exact haccepts

theorem Sound.plain_row (h : router.Sound) (hplain : ∀ item ∈ router.items, item.Plain)
    {row : TableRow (List (RouteItem η))} (hrow : row ∈ router.table.rows) : row.template.Plain := by
  obtain ⟨item, hitem⟩ := List.exists_mem_of_ne_nil row.entry (h.nonempty row hrow)
  exact hplain item (mem_items.mpr ⟨row, hrow, hitem⟩) row.template (h.template row hrow item hitem)

theorem Sound.ordered (h : router.Sound) (hplain : ∀ item ∈ router.items, item.Plain) :
    router.table.branches.Ordered where
  plain template row hmem := by
    obtain ⟨hrow, rfl⟩ := RouteTable.mem_branches.mp hmem
    exact h.plain_row hplain hrow
  restLast template row hmem := by
    obtain ⟨hrow, rfl⟩ := RouteTable.mem_branches.mp hmem
    exact h.restLast row hrow
  apart template row other found hmem hother hclash := by
    obtain ⟨hrow, rfl⟩ := RouteTable.mem_branches.mp hmem
    obtain ⟨hfound, rfl⟩ := RouteTable.mem_branches.mp hother
    rw [h.apart row hrow found hfound hclash]

theorem Sound.selects (h : router.Sound) (hplain : ∀ item ∈ router.items, item.Plain)
    (path : List Char) : router.table.branches.Selects path (router.table.branches.find? path) :=
  (h.ordered hplain).selects (Nat.le_refl _)

/-- What is selected goes before everything else that matches. -/
theorem Sound.leads_of_located (h : router.Sound) (hplain : ∀ item ∈ router.items, item.Plain)
    {item other : RouteItem η} {params : PathParams} (hitem : item ∈ (router.locate path).items)
    (hother : other ∈ router.items) (hcaptures : other.Captures path params) : item.Leads other := by
  obtain ⟨row, values, hfind, hentry⟩ := mem_located.mp hitem
  obtain ⟨second, hsecond, -, hparse⟩ := h.mem_row hother
  obtain ⟨template, others, htemplate, hmatches, -⟩ := hcaptures
  obtain rfl := Option.some.inj (hparse.symm.trans htemplate)
  have hselects := h.selects hplain path.toList
  rw [hfind] at hselects
  cases hselects with
  | first hmem _ hleads =>
      obtain ⟨hrow, rfl⟩ := RouteTable.mem_branches.mp hmem
      exact ⟨_, _, h.template row hrow item hentry, hparse,
        hleads second.template second others (RouteTable.mem_branches.mpr ⟨hsecond, rfl⟩) hmatches⟩

/-- What matches and goes before everything else that does is selected. -/
theorem Sound.located_of_leads (h : router.Sound) (hplain : ∀ item ∈ router.items, item.Plain)
    {item : RouteItem η} {params : PathParams} (hitem : item ∈ router.items)
    (hcaptures : item.Captures path params) (hleads : ∀ other ∈ router.items, ∀ params,
      other.Captures path params → item.Leads other) : item ∈ (router.locate path).items := by
  obtain ⟨row, hrow, hentry, hparse⟩ := h.mem_row hitem
  obtain ⟨template, values, htemplate, hmatches, -⟩ := hcaptures
  obtain rfl := Option.some.inj (hparse.symm.trans htemplate)
  have hbranch := RouteTable.mem_branches.mpr ⟨hrow, rfl⟩
  have hselects := h.selects hplain path.toList
  cases hfind : router.table.branches.find? path.toList with
  | none =>
      rw [hfind] at hselects
      cases hselects with
      | unmatched hnone => exact absurd hmatches (hnone _ row values hbranch)
  | some found =>
      obtain ⟨first, captured⟩ := found
      rw [hfind] at hselects
      cases hselects with
      | first hmem hfound hbefore =>
          obtain ⟨hfirst, rfl⟩ := RouteTable.mem_branches.mp hmem
          -- the two rows go before each other, and so they are one
          obtain ⟨other, hother⟩ := List.exists_mem_of_ne_nil first.entry (h.nonempty first hfirst)
          have hothers := h.template first hfirst other hother
          obtain ⟨_, _, hleft, hright, hback⟩ := hleads other
            (mem_items.mpr ⟨first, hfirst, hother⟩) _ ⟨_, _, hothers, hfound, rfl⟩
          obtain rfl := Option.some.inj (hparse.symm.trans hleft)
          obtain rfl := Option.some.inj (hothers.symm.trans hright)
          have hforth := hbefore _ row values hbranch hmatches
          obtain rfl := h.apart row hrow first hfirst (hback.clashes hforth)
          exact mem_located.mpr ⟨row, captured, hfind, hentry⟩

/-- A path is found if and only if an item of the template that is selected fits it.  Where parameters
reach to the end of their segments, that template is the one before all others that match. -/
theorem dispatch_ne_notFound_iff {builder : RouterBuilder η} (hbuild : builder.build = .ok router)
    (method : Method) (path : String) :
    (∀ pattern endpoint, (pattern, endpoint) ∈ builder.draft.routes →
      ∃ item ∈ router.items, item.endpoint = endpoint ∧
        RoutePattern.parse pattern = .ok item.pattern) ∧
    (router.dispatch method path ≠ .error (.notFound path) ↔
      ∃ item ∈ router.items, item.Fits path ∧ item ∈ (router.locate path).items) ∧
    ((∀ item ∈ router.items, item.Plain) →
      (router.dispatch method path ≠ .error (.notFound path) ↔
        ∃ item ∈ router.items, item.Fits path ∧
          ∀ other ∈ router.items, ∀ params, other.Captures path params → item.Leads other)) := by
  have hsound := sound_of_build hbuild
  have hfound : router.dispatch method path ≠ .error (.notFound path) ↔
      ∃ item ∈ router.items, item.Fits path ∧ item ∈ (router.locate path).items := by
    rw [Ne, dispatch_eq_notFound, List.eq_nil_iff_forall_not_mem, not_forall_not]
    refine exists_congr ?_
    intro item
    rw [hsound.mem_candidates]
    constructor
    · intro h
      exact ⟨mem_items_of_located hbuild h.1, h.2, h.1⟩
    · intro h
      exact ⟨h.2.2, h.2.1⟩
  refine ⟨fun pattern endpoint => exists_item_of_build hbuild, hfound, ?_⟩
  intro hplain
  rw [hfound]
  constructor
  · intro h
    obtain ⟨item, hitem, hfits, hlocated⟩ := h
    exact ⟨item, hitem, hfits, fun other hother params hcaptures =>
      hsound.leads_of_located hplain hlocated hother hcaptures⟩
  · intro h
    obtain ⟨item, hitem, hfits, hleads⟩ := h
    obtain ⟨params, hcaptures, haccepts⟩ := hfits
    exact ⟨item, hitem, ⟨params, hcaptures, haccepts⟩,
      hsound.located_of_leads hplain hitem hcaptures hleads⟩

/-- A number below a literal text, and all other paths. -/
def numberOrRest : RouterBuilder Unit :=
  (RouterBuilder.empty.register (.route "/item/<id:int>" ⟨[.get], (), false⟩)).register
    (.route "/<rest:path>" ⟨[.get], (), false⟩)

theorem numberOrRest_build : ∃ router : Router Unit, numberOrRest.build = .ok router ∧
    router.items.map RouteItem.pattern = [⟨"/item/{id}", ["id"]⟩, ⟨"/{*rest}", []⟩] ∧
    router.dispatch .get "/item/abc" = .error (.notFound "/item/abc") := by
  have hbuilds : (numberOrRest.build.toOption.map fun router =>
      (router.items.map RouteItem.pattern, match router.dispatch .get "/item/abc" with
        | .ok _ => none
        | .error fault => some fault)) =
      some ([⟨"/item/{id}", ["id"]⟩, ⟨"/{*rest}", []⟩], some (.notFound "/item/abc")) := by
    decide
  cases hbuild : numberOrRest.build with
  | error fault =>
      rw [hbuild] at hbuilds
      contradiction
  | ok router =>
      rw [hbuild] at hbuilds
      obtain ⟨hitems, hdispatch⟩ := Prod.mk.inj (Option.some.inj hbuilds)
      refine ⟨router, rfl, hitems, ?_⟩
      cases hresult : router.dispatch .get "/item/abc" with
      | ok route =>
          rw [hresult] at hdispatch
          contradiction
      | error fault =>
          rw [hresult] at hdispatch
          exact congrArg _ (Option.some.inj hdispatch)

theorem parse?_number : Template.parse? "/item/{id}" = some [.literal '/', .literal 'i', .literal 't',
    .literal 'e', .literal 'm', .literal '/', .param "id"] := by decide

theorem parse?_rest : Template.parse? "/{*rest}" = some [.literal '/', .rest "rest"] := by
  decide

/-- A path with a number is found through the item that goes first. -/
theorem dispatch_ne_notFound_number : ∃ router : Router Unit, numberOrRest.build = .ok router ∧
    (∀ item ∈ router.items, item.Plain) ∧
    router.dispatch .get "/item/7" ≠ .error (.notFound "/item/7") := by
  obtain ⟨router, hbuild, hpatterns, -⟩ := numberOrRest_build
  have hitems : ∀ item ∈ router.items,
      item.pattern = ⟨"/item/{id}", ["id"]⟩ ∨ item.pattern = ⟨"/{*rest}", []⟩ := by
    intro item hitem
    have hmem : item.pattern ∈ router.items.map RouteItem.pattern := List.mem_map.mpr ⟨item, hitem, rfl⟩
    rw [hpatterns] at hmem
    simpa using hmem
  have hplain : ∀ item ∈ router.items, item.Plain := by
    intro item hitem template htemplate
    rcases hitems item hitem with hpattern | hpattern
    · rw [hpattern, parse?_number] at htemplate
      obtain rfl := Option.some.inj htemplate
      simp [Template.Plain]
    · rw [hpattern, parse?_rest] at htemplate
      obtain rfl := Option.some.inj htemplate
      simp [Template.Plain]
  have hnumber : ∃ item ∈ router.items, item.pattern = ⟨"/item/{id}", ["id"]⟩ := by
    rw [← List.mem_map, hpatterns]
    exact List.mem_cons_self ..
  obtain ⟨item, hitem, hpattern⟩ := hnumber
  refine ⟨router, hbuild, hplain, ?_⟩
  have hparse : Template.parse? item.pattern.template = some [.literal '/', .literal 'i',
      .literal 't', .literal 'e', .literal 'm', .literal '/', .param "id"] := by
    rw [hpattern]
    exact parse?_number
  refine ((dispatch_ne_notFound_iff hbuild .get "/item/7").2.2 hplain).mpr ⟨item, hitem, ?_, ?_⟩
  · have hlast : Template.Matches [.param "id"] (['7'] ++ []) [['7']] := .param nofun (by decide) .nil
    have haccepts : item.pattern.accepts [("id", "7")] = true := by
      rw [hpattern]
      decide
    exact ⟨_, ⟨_, _, hparse, hlast.text "/item/".toList, rfl⟩, haccepts⟩
  · intro other hother params _
    rcases hitems other hother with hpattern | hpattern
    · refine ⟨_, _, hparse, by rw [hpattern]; exact parse?_number, ?_⟩
      exact .literal (.literal (.literal (.literal (.literal (.literal (.param .ended))))))
    · exact ⟨_, _, hparse, by rw [hpattern]; exact parse?_rest, .literal .literalRest⟩

/-- An item that fits the path is hidden by one that goes before it and whose number does not read. -/
theorem dispatch_notFound_behind_number : ∃ router : Router Unit,
    numberOrRest.build = .ok router ∧ (∃ item ∈ router.items, item.Fits "/item/abc") ∧
      router.dispatch .get "/item/abc" = .error (.notFound "/item/abc") := by
  obtain ⟨router, hbuild, hpatterns, hdispatch⟩ := numberOrRest_build
  have hrest : ∃ item ∈ router.items, item.pattern = ⟨"/{*rest}", []⟩ := by
    rw [← List.mem_map, hpatterns]
    exact List.mem_cons_of_mem _ (List.mem_cons_self ..)
  obtain ⟨item, hitem, hpattern⟩ := hrest
  have hmatches : Template.Matches [.literal '/', .rest "rest"] "/item/abc".toList
      ["item/abc".toList] := .literal (.rest nofun)
  refine ⟨router, hbuild, ⟨item, hitem, _, ⟨_, _, hpattern ▸ parse?_rest, hmatches, rfl⟩, ?_⟩, hdispatch⟩
  rw [hpattern]
  rfl

end Router

end Turnpike
