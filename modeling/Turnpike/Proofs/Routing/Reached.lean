import Turnpike.Proofs.Routing.Numbers
import Turnpike.Proofs.Routing.Once

/-!
Which items are ever handed out.  An item without numbers is, whatever was registered before it.  One
with numbers is, where numbers get through to its template, unless an item of the same template and
method stands before it that asks for no other numbers.
-/

namespace Turnpike

theorem PathParams.exists_get? {params : PathParams} {name : String} (h : name ∈ params.map Prod.fst) :
    ∃ value, params.get? name = some value := by
  induction params with
  | nil => contradiction
  | cons pair params ih =>
      rw [get?_cons]
      split
      · exact ⟨pair.2, rfl⟩
      · next hother => exact ih ((List.mem_cons.mp h).resolve_left (Ne.symm hother))

theorem PathParams.mem_of_get? {params : PathParams} {name value : String}
    (h : params.get? name = some value) : name ∈ params.map Prod.fst := by
  induction params with
  | nil => contradiction
  | cons pair params ih =>
      rw [get?_cons] at h
      split at h
      · next hsame => exact hsame ▸ List.mem_cons_self ..
      · exact List.mem_cons_of_mem _ (ih h)

namespace RoutePattern

variable {pattern other : RoutePattern} {params : PathParams}

theorem accepts_iff : pattern.accepts params = true ↔
    ∀ name ∈ pattern.numbers, ∃ value, params.get? name = some value ∧ IsNumber value.toList := by
  simp [accepts, List.all_eq_true, Option.any_eq_true, IsNumber]

theorem accepts_of_subset (h : pattern.accepts params = true)
    (hsubset : other.numbers ⊆ pattern.numbers) : other.accepts params = true :=
  accepts_iff.mpr fun name hname => accepts_iff.mp h name (hsubset hname)

/-- Where the numbers of a pattern are given, exactly the patterns that ask for no others accept. -/
theorem accepts_iff_of_gives (hgives : Branches.GivesAll pattern.numbers params)
    (hnames : ∀ name ∈ pattern.numbers, name ∈ params.map Prod.fst) :
    other.accepts params = true ↔ other.numbers ⊆ pattern.numbers := by
  constructor
  · intro h name hname
    obtain ⟨value, hget, hnumber⟩ := accepts_iff.mp h name hname
    exact Decidable.byContradiction fun hother => (hgives name value hget).other hother hnumber
  · intro hsubset
    refine accepts_iff.mpr fun name hname => ?_
    obtain ⟨value, hget⟩ := PathParams.exists_get? (hnames name (hsubset hname))
    exact ⟨value, hget, (hgives name value hget).number (hsubset hname)⟩

end RoutePattern

namespace Router

variable {η : Type} {builder : RouterBuilder η} {router : Router η}
  {row : TableRow (List (RouteItem η))} {before after : List (RouteItem η)} {item : RouteItem η}
  {method : Method}

theorem open_not_mem_row (hbuild : builder.build = .ok router) (hrow : row ∈ router.table.rows) :
    .literal '<' ∉ row.template := by
  have hsound := sound_of_build hbuild
  obtain ⟨item, hitem⟩ := List.exists_mem_of_ne_nil row.entry (hsound.nonempty row hrow)
  obtain ⟨path, -, hpattern⟩ := comesFrom_of_build hbuild (mem_items.mpr ⟨row, hrow, hitem⟩)
  intro hmem
  exact RoutePattern.open_not_mem hpattern
    (Template.char_mem_of_parse? (hsound.template row hrow item hitem) (hsound.spaced row hrow) hmem)

/-- The items of a row have one text for their template. -/
theorem exists_text_of_row (hbuild : builder.build = .ok router) (hrow : row ∈ router.table.rows) :
    ∃ text, ∀ item ∈ row.entry, item.pattern.template = text := by
  obtain ⟨groups, hsound, hholds⟩ := RouterBuilder.holds_of_build hbuild
  obtain ⟨group, hgroup, hentry, -⟩ := hholds.exists_group hrow
  exact ⟨group.template, fun item hitem => hsound.template group hgroup item (hentry ▸ hitem)⟩

theorem Sound.singles (h : router.Sound) (hrow : row ∈ router.table.rows) :
    router.table.branches.Singles row.template row where
  mem := RouteTable.mem_branches.mpr ⟨hrow, rfl⟩
  only other found hmem hclash := by
    obtain ⟨hfound, rfl⟩ := RouteTable.mem_branches.mp hmem
    obtain rfl := h.apart row hrow found hfound hclash
    exact ⟨rfl, rfl⟩
  restLast other found hmem := by
    obtain ⟨hfound, rfl⟩ := RouteTable.mem_branches.mp hmem
    exact h.restLast found hfound
  spaced := h.spaced row hrow

/-- Of an item its row has no other of the same pattern that lists one of its methods. -/
theorem disjoint_of_before (hbuild : builder.build = .ok router) (hrow : row ∈ router.table.rows)
    (hentry : row.entry = before ++ item :: after) {other : RouteItem η} (hother : other ∈ before) :
    other.Apart item := by
  obtain ⟨items, -, hkeeps, -, hapart⟩ := apart_of_build hbuild
  have hpairwise := hkeeps.apart_row hapart hrow
  rw [hentry, List.pairwise_append] at hpairwise
  exact hpairwise.2.2 other hother item (List.mem_cons_self ..)

/-- An item stands in its row once. -/
theorem not_mem_of_entry (hbuild : builder.build = .ok router) (hrow : row ∈ router.table.rows)
    (hentry : row.entry = before ++ item :: after) (hmethod : method ∈ item.methods) :
    item ∉ before ∧ item ∉ after := by
  obtain ⟨items, -, hkeeps, -, hapart⟩ := apart_of_build hbuild
  have hpairwise := hkeeps.apart_row hapart hrow
  rw [hentry, List.pairwise_append, List.pairwise_cons] at hpairwise
  obtain ⟨-, ⟨hafter, -⟩, hbefore⟩ := hpairwise
  constructor
  · intro hmem
    exact hbefore item hmem item (List.mem_cons_self ..) rfl hmethod hmethod
  · intro hmem
    exact hafter item hmem rfl hmethod hmethod

/-- Some path comes to an item by a method. -/
def Reaches (router : Router η) (method : Method) (item : RouteItem η) : Prop :=
  ∃ path route, router.dispatch method path = .ok route ∧ route.item = item

end Router

/-- The template of an item has the names that the item takes for numbers, and of the items before it no
one that lists the method asks for no other numbers. -/
structure RouteItem.IsOpen {η : Type} (item : RouteItem η) (template : Template)
    (before : List (RouteItem η)) (method : Method) : Prop where
  named : ∀ name ∈ item.pattern.numbers, name ∈ template.names
  first : ∀ other ∈ before, method ∈ other.methods → ¬ other.pattern.numbers ⊆ item.pattern.numbers

namespace Router

variable {η : Type} {builder : RouterBuilder η} {router : Router η}
  {row : TableRow (List (RouteItem η))} {before after : List (RouteItem η)} {item : RouteItem η}
  {method : Method}

/-- An item stands in one row only. -/
theorem row_unique (hbuild : builder.build = .ok router) (hrow : row ∈ router.table.rows)
    (hitem : item ∈ row.entry) {found : TableRow (List (RouteItem η))}
    (hfound : found ∈ router.table.rows) (hmem : item ∈ found.entry) : row = found := by
  have hsound := sound_of_build hbuild
  refine hsound.apart row hrow found hfound ?_
  have hsame := (hsound.template row hrow _ hitem).symm.trans (hsound.template found hfound _ hmem)
  rw [← Option.some.inj hsame]
  exact Template.Clashes.self (hsound.restLast row hrow)

/-- A path that comes to an item by a method which the item lists goes to the row of the item, and
the item is the first there that takes the method. -/
theorem located_of_dispatch (hbuild : builder.build = .ok router) (hrow : row ∈ router.table.rows)
    {path : String} {route : Route η} (hitem : route.item ∈ row.entry)
    (hmethod : method ∈ route.item.methods) (h : router.dispatch method path = .ok route) :
    ∃ values, router.table.branches.find? path.toList = some (row, values) ∧
      RouteItem.IsFirst row.entry (fun item =>
        item.Takes (row.template.names.zip (values.map String.ofList)) method) route.item := by
  have hfirst : RouteItem.IsFirst (router.locate path).items
      (fun item => item.Takes (router.locate path).params method) route.item := by
    cases (dispatch_eq_ok_iff.mp h).1 with
    | own hown => exact hown
    | get _ hnone hget =>
        -- an item that lists the method does not come in the place of another
        exact absurd ⟨hget.holds.1, hmethod⟩ (hnone route.item hget.mem)
  obtain ⟨found, values, hfind, hmem⟩ := mem_located.mp hfirst.mem
  have hfound := (RouteTable.matches_of_find? (sound_of_build hbuild).restLast hfind).1
  obtain rfl := row_unique hbuild hrow hitem hfound hmem
  rw [locate_of_find?_eq_some hfind] at hfirst
  exact ⟨values, hfind, hfirst⟩

theorem isOpen_of_reaches (hbuild : builder.build = .ok router) (hrow : row ∈ router.table.rows)
    (hentry : row.entry = before ++ item :: after) (hmethod : method ∈ item.methods)
    (h : router.Reaches method item) : item.IsOpen row.template before method := by
  obtain ⟨path, route, hdispatch, rfl⟩ := h
  have hitem : route.item ∈ row.entry := hentry ▸ List.mem_append_cons_self
  obtain ⟨values, hfind, front, behind, hsplit, htakes, hnone⟩ :=
    located_of_dispatch hbuild hrow hitem hmethod hdispatch
  obtain ⟨hbefore, hafter⟩ := not_mem_of_entry hbuild hrow hentry hmethod
  obtain ⟨rfl, -, -⟩ := (List.append_cons_inj_of_notMem hbefore hafter).mp (hentry.symm.trans hsplit)
  constructor
  · intro name hname
    obtain ⟨value, hget, -⟩ := RoutePattern.accepts_iff.mp htakes.1 name hname
    have hmatches := (RouteTable.matches_of_find? (sound_of_build hbuild).restLast hfind).2
    rw [← hmatches.map_fst_zip_names]
    exact PathParams.mem_of_get? hget
  · intro other hother hlisted hsubset
    exact hnone other hother ⟨RoutePattern.accepts_of_subset htakes.1 hsubset, hlisted⟩

theorem find?_of_passes (hsound : router.Sound) (hrow : row ∈ router.table.rows) {path : List Char}
    {values : List (List Char)} (h : router.table.branches.Passes row.template path values) :
    router.table.branches.find? path = some (row, values) :=
  h.findWithin_eq (hsound.singles hrow) (Nat.le_refl _)

theorem reaches_of_isOpen (hbuild : builder.build = .ok router) (hrow : row ∈ router.table.rows)
    (hentry : row.entry = before ++ item :: after) (hmethod : method ∈ item.methods)
    (hnumbers : router.table.branches.LetsNumbersTo row.template item.pattern.numbers)
    (hopen : item.IsOpen row.template before method) : router.Reaches method item := by
  have hsound := sound_of_build hbuild
  have hfree : ∀ branch ∈ router.table.branches, .literal '<' ∉ branch.1 := by
    rintro ⟨template, other⟩ hbranch
    obtain ⟨hother, rfl⟩ := RouteTable.mem_branches.mp hbranch
    exact open_not_mem_row hbuild hother
  obtain ⟨path, values, hpasses, hgives⟩ :=
    hnumbers.exists_passes hfree (List.nil_append _).symm (hsound.restLast row hrow)
  have hfind : router.table.branches.find? (String.ofList path).toList = some (row, values) := by
    rw [String.toList_ofList]
    exact find?_of_passes hsound hrow hpasses
  have hlocate := locate_of_find?_eq_some hfind
  have hgiven : Branches.GivesAll item.pattern.numbers (router.locate (String.ofList path)).params := by
    rw [hlocate]
    exact fun name value => hgives name value List.not_mem_nil
  have hnames : ∀ name ∈ item.pattern.numbers,
      name ∈ (router.locate (String.ofList path)).params.map Prod.fst := by
    rw [hlocate, hpasses.matches.map_fst_zip_names]
    exact hopen.named
  refine ⟨String.ofList path, ⟨item, (router.locate (String.ofList path)).params⟩,
    dispatch_eq_ok_iff.mpr ⟨.own ⟨before, after, ?_, ⟨?_, hmethod⟩, ?_⟩, rfl⟩, rfl⟩
  · rw [hlocate, hentry]
  · exact (RoutePattern.accepts_iff_of_gives hgiven hnames).mpr (List.Subset.refl _)
  · intro other hother htakes
    exact hopen.first other hother htakes.2
      ((RoutePattern.accepts_iff_of_gives hgiven hnames).mp htakes.1)

/-- Without numbers an item is open, as one before it that asks for none has another pattern or other
methods. -/
theorem isOpen_of_no_numbers (hbuild : builder.build = .ok router) (hrow : row ∈ router.table.rows)
    (hentry : row.entry = before ++ item :: after) (hmethod : method ∈ item.methods)
    (hnumbers : item.pattern.numbers = []) : item.IsOpen row.template before method := by
  obtain ⟨text, htext⟩ := exists_text_of_row hbuild hrow
  rw [hentry] at htext
  constructor
  · rw [hnumbers]
    exact nofun
  · intro other hother hlisted hsubset
    have hsame : other.pattern = item.pattern := by
      rw [hnumbers] at hsubset
      rw [RoutePattern.mk.injEq]
      exact ⟨(htext other (List.mem_append_left _ hother)).trans
        (htext item List.mem_append_cons_self).symm,
        (List.subset_nil.mp hsubset).trans hnumbers.symm⟩
    exact disjoint_of_before hbuild hrow hentry hother hsame hlisted hmethod

/-- An item of a router that builds is come to by a method that it lists only if it is open.  So it is
where it asks for no numbers, or numbers get through to its template; and they do get through where all
wildcards fill segments. -/
theorem reaches_iff (hbuild : builder.build = .ok router) (hrow : row ∈ router.table.rows)
    (hentry : row.entry = before ++ item :: after) (hmethod : method ∈ item.methods) :
    (router.Reaches method item → item.IsOpen row.template before method) ∧
    (router.table.branches.LetsNumbersTo row.template item.pattern.numbers →
      item.IsOpen row.template before method → router.Reaches method item) ∧
    (item.pattern.numbers = [] → router.Reaches method item) ∧
    ((∀ other ∈ router.table.rows, other.template.Segmented) →
      (router.Reaches method item ↔ item.IsOpen row.template before method)) := by
  have hreached := isOpen_of_reaches hbuild hrow hentry hmethod
  have hopen := reaches_of_isOpen hbuild hrow hentry hmethod
  refine ⟨hreached, hopen, fun hnumbers => ?plain, fun hsegmented => ⟨hreached, hopen ?segmented⟩⟩
  case plain =>
    refine hopen ?_ (isOpen_of_no_numbers hbuild hrow hentry hmethod hnumbers)
    rw [hnumbers]
    exact fun _ _ _ _ _ _ hmem => absurd hmem List.not_mem_nil
  case segmented =>
    refine Branches.letsNumbersTo_of_segmented ?_ _ _
    rintro ⟨template, other⟩ hbranch
    obtain ⟨hother, rfl⟩ := RouteTable.mem_branches.mp hbranch
    exact hsegmented other hother

/-- Routes that all list `GET`. -/
def ofPatterns (patterns : List String) : RouterBuilder Unit :=
  patterns.foldl (fun builder pattern => builder.register (.route pattern ⟨[.get], (), false⟩)) .empty

def itemOutline (item : RouteItem Unit) : RoutePattern × List Method := (item.pattern, item.methods)

/-- A template, and what its items list. -/
def rowOutline (row : TableRow (List (RouteItem Unit))) :
    Template × List (RoutePattern × List Method) :=
  (row.template, row.entry.map itemOutline)

def rowsOf (builder : RouterBuilder Unit) :
    Option (List (Template × List (RoutePattern × List Method))) :=
  builder.build.toOption.map fun router => router.table.rows.map rowOutline

theorem exists_of_rowsOf {builder : RouterBuilder Unit}
    {rows : List (Template × List (RoutePattern × List Method))} (h : rowsOf builder = some rows) :
    ∃ router, builder.build = .ok router ∧ router.table.rows.map rowOutline = rows := by
  obtain ⟨router, hbuild, hrows⟩ := Option.map_eq_some_iff.mp h
  exact ⟨router, Except.eq_ok_of_toOption hbuild, hrows⟩

theorem exists_pair {row : TableRow (List (RouteItem Unit))} {template : Template}
    {first second : RoutePattern × List Method} (h : rowOutline row = (template, [first, second])) :
    row.template = template ∧ ∃ item other, row.entry = [item, other] ∧
      itemOutline item = first ∧ itemOutline other = second := by
  obtain ⟨htemplate, hentry⟩ := Prod.mk.inj h
  obtain ⟨item, others, hitems, hitem, hothers⟩ := List.map_eq_cons_iff.mp hentry
  obtain ⟨other, rfl, hother⟩ := List.map_eq_singleton_iff.mp hothers
  exact ⟨htemplate, item, other, hitems, hitem, hother⟩

/-- A number, then any segment, and beside both a literal text that is a number. -/
theorem reaches_number_first : ∃ router row typed untyped,
    (ofPatterns ["/item/<id:int>", "/item/<id>", "/item/0"]).build = .ok router ∧
      row ∈ router.table.rows ∧ row.entry = [typed, untyped] ∧ typed.pattern.numbers = ["id"] ∧
      untyped.pattern.numbers = [] ∧ router.Reaches .get typed ∧ router.Reaches .get untyped := by
  have houtline : rowsOf (ofPatterns ["/item/<id:int>", "/item/<id>", "/item/0"]) =
      some [("/item/".toList.map .literal ++ [.param "id"],
          [(⟨"/item/{id}", ["id"]⟩, [.get]), (⟨"/item/{id}", []⟩, [.get])]),
        ("/item/0".toList.map .literal, [(⟨"/item/0", []⟩, [.get])])] := by
    decide
  obtain ⟨router, hbuild, hrows⟩ := exists_of_rowsOf houtline
  have hsegmented : ∀ row ∈ router.table.rows, row.template.Segmented := by
    have hall : ∀ outline ∈ router.table.rows.map rowOutline, outline.1.Segmented := by
      rw [hrows]
      decide
    exact fun row hrow => hall _ (List.mem_map_of_mem hrow)
  obtain ⟨row, hrow, hpair⟩ := List.mem_map.mp (hrows.symm ▸ List.mem_cons_self ..)
  obtain ⟨htemplate, typed, untyped, hentry, htyped, huntyped⟩ := exists_pair hpair
  obtain ⟨htyped, hmethod⟩ := Prod.mk.inj htyped
  obtain ⟨huntyped, hother⟩ := Prod.mk.inj huntyped
  have hfirst : row.entry = [] ++ typed :: [untyped] := hentry
  have hsecond : row.entry = [typed] ++ untyped :: [] := hentry
  have hopen : typed.IsOpen row.template [] .get := by
    refine ⟨?_, nofun⟩
    rw [htyped, htemplate]
    decide
  obtain ⟨-, -, -, hreached⟩ := reaches_iff hbuild hrow hfirst (hmethod ▸ List.mem_cons_self ..)
  obtain ⟨-, -, hplain, -⟩ := reaches_iff hbuild hrow hsecond (hother ▸ List.mem_cons_self ..)
  exact ⟨router, row, typed, untyped, hbuild, hrow, hentry, by rw [htyped], by rw [huntyped],
    (hreached hsegmented).mpr hopen, hplain (by rw [huntyped])⟩

/-- The router builds, and by `GET` no path comes to one of its items that lists it. -/
def LeavesOut (builder : RouterBuilder Unit) : Prop :=
  ∃ router, builder.build = .ok router ∧ ∃ item ∈ router.items, .get ∈ item.methods ∧
    ¬ router.Reaches .get item

/-- Behind an item that takes any segment, one that takes numbers is never come to. -/
theorem leavesOut_number_last : LeavesOut (ofPatterns ["/item/<id>", "/item/<id:int>"]) := by
  have houtline : rowsOf (ofPatterns ["/item/<id>", "/item/<id:int>"]) =
      some [("/item/".toList.map .literal ++ [.param "id"],
        [(⟨"/item/{id}", []⟩, [.get]), (⟨"/item/{id}", ["id"]⟩, [.get])])] := by
    decide
  obtain ⟨router, hbuild, hrows⟩ := exists_of_rowsOf houtline
  obtain ⟨row, hrow, hpair⟩ := List.mem_map.mp (hrows.symm ▸ List.mem_cons_self ..)
  obtain ⟨-, untyped, typed, hentry, huntyped, htyped⟩ := exists_pair hpair
  obtain ⟨huntyped, hother⟩ := Prod.mk.inj huntyped
  obtain ⟨-, hmethod⟩ := Prod.mk.inj htyped
  have hlisted : .get ∈ typed.methods := hmethod ▸ List.mem_cons_self ..
  have hsecond : row.entry = [untyped] ++ typed :: [] := hentry
  have hitem : typed ∈ row.entry := hsecond ▸ List.mem_append_cons_self
  refine ⟨router, hbuild, typed, mem_items.mpr ⟨row, hrow, hitem⟩, hlisted, fun hreaches => ?_⟩
  have hopen := isOpen_of_reaches hbuild hrow hsecond hlisted hreaches
  refine hopen.first untyped (List.mem_cons_self ..) (hother ▸ List.mem_cons_self ..) ?_
  rw [huntyped]
  exact List.nil_subset _

/-- In braces of its own a wildcard is text, and the number that it was to be is never there. -/
theorem leavesOut_in_braces : LeavesOut (ofPatterns ["/{<id:int>}"]) := by
  have houtline : rowsOf (ofPatterns ["/{<id:int>}"]) =
      some [("/{id}".toList.map .literal, [(⟨"/{{id}}", ["id"]⟩, [.get])])] := by
    decide
  obtain ⟨router, hbuild, hrows⟩ := exists_of_rowsOf houtline
  obtain ⟨row, hrow, hpair⟩ := List.mem_map.mp (hrows.symm ▸ List.mem_cons_self ..)
  obtain ⟨htemplate, hitems⟩ := Prod.mk.inj hpair
  obtain ⟨item, hentry, hitem⟩ := List.map_eq_singleton_iff.mp hitems
  obtain ⟨hpattern, hmethod⟩ := Prod.mk.inj hitem
  have hlisted : .get ∈ item.methods := hmethod ▸ List.mem_cons_self ..
  have hfirst : row.entry = [] ++ item :: [] := hentry
  refine ⟨router, hbuild, item, mem_items.mpr ⟨row, hrow, hentry ▸ List.mem_cons_self ..⟩, hlisted,
    fun hreaches => ?_⟩
  have hnamed := (isOpen_of_reaches hbuild hrow hfirst hlisted hreaches).named
  rw [hpattern, htemplate] at hnamed
  exact absurd (hnamed "id" (List.mem_cons_self ..)) (by decide)

/-- Every text that a number can begin with, alone and before a parameter. -/
def drawingOff : List String :=
  IsNumber.marks.flatMap fun c => [String.ofList ['/', c], String.ofList ['/', c] ++ "<x>"]

def drawingOffRows : List (Template × List (RoutePattern × List Method)) :=
  IsNumber.marks.flatMap fun c =>
    [([.literal '/', .literal c], [(⟨String.ofList ['/', c], []⟩, [.get])]),
      ([.literal '/', .literal c, .param "x"], [(⟨String.ofList ['/', c] ++ "{x}", []⟩, [.get])])]

/-- Behind the first character of a number the path ends there, or one parameter takes what is left. -/
theorem last_of_drawingOff {router : Router Unit} {numbers : List (RoutePattern × List Method)}
    (hrows : router.table.rows.map rowOutline =
      ([.literal '/', .param "id"], numbers) :: drawingOffRows) {c : Char} {below : Template}
    {row : TableRow (List (RouteItem Unit))}
    (h : (below, row) ∈ (router.table.branches.afterLiteral '/').afterLiteral c) :
    below = [] ∨ ∃ name, below = [.param name] := by
  obtain ⟨hrow, htemplate⟩ :=
    RouteTable.mem_branches.mp (Branches.mem_afterLiteral.mp (Branches.mem_afterLiteral.mp h))
  have hlisted : rowOutline row ∈ ([.literal '/', .param "id"], numbers) :: drawingOffRows :=
    hrows ▸ List.mem_map_of_mem hrow
  rw [rowOutline, ← htemplate] at hlisted
  rcases List.mem_cons.mp hlisted with hfirst | hlater
  · cases hfirst
  · obtain ⟨d, -, hd⟩ := List.mem_flatMap.mp hlater
    simp only [List.mem_cons, List.not_mem_nil, or_false, Prod.mk.injEq, List.cons.injEq] at hd
    rcases hd with ⟨⟨-, -, hbelow⟩, -⟩ | ⟨⟨-, -, hbelow⟩, -⟩
    · exact .inl hbelow
    · exact .inr ⟨"x", hbelow⟩

/-- A path that begins as a number does goes to a template with that beginning. -/
theorem find?_of_drawingOff {router : Router Unit} (hsound : router.Sound)
    {numbers : List (RoutePattern × List Method)}
    (hrows : router.table.rows.map rowOutline =
      ([.literal '/', .param "id"], numbers) :: drawingOffRows) {c : Char} {later : List Char}
    (hc : c ∈ IsNumber.marks) (hfree : '/' ∉ later) :
    ∃ row values, router.table.branches.find? ('/' :: c :: later) = some (row, values) ∧
      row.template ≠ [.literal '/', .param "id"] := by
  have hrow : ∀ outline ∈ drawingOffRows, ∃ row ∈ router.table.rows, rowOutline row = outline :=
    fun outline houtline => List.mem_map.mp (hrows ▸ List.mem_cons_of_mem _ houtline)
  by_cases hlater : later = []
  · subst hlater
    obtain ⟨row, hrow, houtline⟩ := hrow ([.literal '/', .literal c], _)
      (List.mem_flatMap.mpr ⟨c, hc, List.mem_cons_self ..⟩)
    have htemplate : row.template = [.literal '/', .literal c] := (Prod.mk.inj houtline).1
    refine ⟨row, [], find?_of_passes hsound hrow (htemplate ▸ .literal (.literal .nil)), ?_⟩
    rw [htemplate]
    nofun
  · obtain ⟨row, hrow, houtline⟩ := hrow ([.literal '/', .literal c, .param "x"], _)
      (List.mem_flatMap.mpr ⟨c, hc, List.mem_cons_of_mem _ (List.mem_cons_self ..)⟩)
    have htemplate : row.template = [.literal '/', .literal c, .param "x"] :=
      (Prod.mk.inj houtline).1
    have hpasses : router.table.branches.Passes row.template ('/' :: c :: (later ++ [])) [later] := by
      rw [htemplate]
      refine .literal (.literal (.param hlater hfree ?_ .nil))
      rintro ⟨below, other⟩ hbranch
      exact Template.not_drawsOff_of_last (last_of_drawingOff hrows hbranch) hlater _
    rw [List.append_nil] at hpasses
    refine ⟨row, [later], find?_of_passes hsound hrow hpasses, ?_⟩
    rw [htemplate]
    nofun

/-- Literal text is tried first, so that no number is left for a parameter beside it. -/
theorem leavesOut_drawn_off : LeavesOut (ofPatterns ("/<id:int>" :: drawingOff)) := by
  have houtline : rowsOf (ofPatterns ("/<id:int>" :: drawingOff)) =
      some (([.literal '/', .param "id"], [(⟨"/{id}", ["id"]⟩, [.get])]) :: drawingOffRows) := by
    decide
  obtain ⟨router, hbuild, hrows⟩ := exists_of_rowsOf houtline
  have hsound := sound_of_build hbuild
  obtain ⟨row, hrow, hpair⟩ := List.mem_map.mp (hrows.symm ▸ List.mem_cons_self ..)
  obtain ⟨htemplate, hitems⟩ := Prod.mk.inj hpair
  obtain ⟨item, hentry, hitem⟩ := List.map_eq_singleton_iff.mp hitems
  obtain ⟨hpattern, hmethod⟩ := Prod.mk.inj hitem
  have hmem : item ∈ row.entry := hentry ▸ List.mem_cons_self ..
  have hlisted : .get ∈ item.methods := hmethod ▸ List.mem_cons_self ..
  refine ⟨router, hbuild, item, mem_items.mpr ⟨row, hrow, hmem⟩, hlisted, ?_⟩
  rintro ⟨path, route, hdispatch, rfl⟩
  obtain ⟨values, hfind, hfirst⟩ := located_of_dispatch hbuild hrow hmem hlisted hdispatch
  have hmatches := (RouteTable.matches_of_find? hsound.restLast hfind).2
  have haccepts :=
    RoutePattern.accepts_iff.mp hfirst.holds.1 "id" (hpattern ▸ List.mem_cons_self ..)
  generalize path.toList = text at hfind hmatches
  rw [htemplate] at hmatches haccepts
  -- what stands behind the slash is the number that the item asks for
  cases hmatches with
  | literal hparam =>
      cases hparam with
      | @param _ _ value _ _ hsome hfree hnil =>
          cases hnil
          obtain ⟨number, hget, hnumber⟩ := haccepts
          obtain rfl : String.ofList value = number := Option.some.inj hget
          rw [String.toList_ofList] at hnumber
          obtain ⟨c, later, rfl⟩ := List.exists_cons_of_ne_nil hsome
          obtain ⟨other, found, hfound, hother⟩ := find?_of_drawingOff hsound hrows
            hnumber.head_mem (fun hmem => hfree (List.mem_cons_of_mem _ hmem))
          rw [List.append_nil, hfound] at hfind
          obtain ⟨rfl, -⟩ := Prod.mk.inj (Option.some.inj hfind)
          exact hother htemplate

/-- Items that no path comes to: a number behind any segment, one that stands in braces, and one that
literal text draws off. -/
theorem exists_leavesOut : LeavesOut (ofPatterns ["/item/<id>", "/item/<id:int>"]) ∧
    LeavesOut (ofPatterns ["/{<id:int>}"]) ∧ LeavesOut (ofPatterns ("/<id:int>" :: drawingOff)) :=
  ⟨leavesOut_number_last, leavesOut_in_braces, leavesOut_drawn_off⟩

end Router

end Turnpike
