import Turnpike.Routing.Draft
import Turnpike.Web.Fault

/-!
The routing table.  Routes are grouped by the template of their pattern; a path selects one
template, the kinds of the parameters select among its routes, and the method selects one of those.
-/

namespace Turnpike

structure RouteItem (η : Type) where
  endpoint : Endpoint η
  pattern : RoutePattern

namespace RouteItem

variable {η : Type}

def methods (item : RouteItem η) : List Method := item.endpoint.methods

def answers (item : RouteItem η) (method : Method) : Bool := item.methods.contains method

end RouteItem

structure RouteGroup (η : Type) where
  template : String
  items : List (RouteItem η)

abbrev RouteGroups (η : Type) := List (RouteGroup η)

namespace RouteGroups

variable {η : Type}

def items (groups : RouteGroups η) (template : String) : List (RouteItem η) :=
  (groups.filter fun group => group.template == template).flatMap RouteGroup.items

def add : RouteGroups η → RouteItem η → RouteGroups η
  | [], item => [⟨item.pattern.template, [item]⟩]
  | group :: groups, item =>
    if group.template = item.pattern.template then
      ⟨group.template, group.items ++ [item]⟩ :: groups
    else group :: add groups item

theorem templates_add (groups : RouteGroups η) (item : RouteItem η) :
    (groups.add item).map RouteGroup.template =
      if item.pattern.template ∈ groups.map RouteGroup.template then
        groups.map RouteGroup.template
      else groups.map RouteGroup.template ++ [item.pattern.template] := by
  induction groups with
  | nil => rfl
  | cons group groups ih =>
    rw [add]
    split
    · next h => simp [h]
    · next h =>
      rw [List.map_cons, ih]
      by_cases hin : item.pattern.template ∈ groups.map RouteGroup.template
      · simp [hin]
      · simp [hin, Ne.symm h]

/-- An item joins those of its template, behind them. -/
theorem items_add {groups : RouteGroups η} (hnodup : (groups.map RouteGroup.template).Nodup)
    (item : RouteItem η) (template : String) :
    (groups.add item).items template =
      if item.pattern.template = template then groups.items template ++ [item]
      else groups.items template := by
  induction groups with
  | nil => by_cases h : item.pattern.template = template <;> simp [add, items, h]
  | cons group groups ih =>
    have hfresh := (List.nodup_cons.mp hnodup).1
    have ih := ih (List.nodup_cons.mp hnodup).2
    rw [add]
    split
    · next h =>
      have hlater : items groups group.template = [] := by
        rw [items, List.filter_eq_nil_iff.mpr, List.flatMap_nil]
        intro other hother heq
        exact hfresh (List.mem_map.mpr ⟨other, hother, by simpa using heq⟩)
      split
      · next htemplate =>
        obtain rfl : group.template = template := h.trans htemplate
        unfold items at hlater ⊢
        simp [hlater]
      · next htemplate =>
        have hne : group.template ≠ template := fun heq => htemplate (h.symm.trans heq)
        simp [items, hne]
    · unfold items at ih ⊢
      by_cases h : group.template = template
      · simp only [List.filter_cons, beq_iff_eq.mpr h, if_true, List.flatMap_cons, ih]
        split <;> simp
      · simpa [List.filter_cons, h] using ih

/-- The first method of an endpoint that an item with the same pattern answers already. -/
def taken? (groups : RouteGroups η) (pattern : RoutePattern) (methods : List Method) :
    Option Method :=
  methods.find? fun method =>
    (groups.items pattern.template).any fun item => item.pattern == pattern && item.answers method

def register (groups : RouteGroups η) (route : DraftRoute η) : Except RouteFault (RouteGroups η) :=
  if route.2.methods.isEmpty then .error (.noMethods route.1)
  else
    match RoutePattern.parse route.1 with
    | .error flaw => .error (.invalidPattern route.1 flaw)
    | .ok pattern =>
      match groups.taken? pattern route.2.methods with
      | some method => .error (.duplicate route.1 method)
      | none => .ok (groups.add ⟨route.2, pattern⟩)

def ofRoutes (routes : List (DraftRoute η)) : Except RouteFault (RouteGroups η) :=
  routes.foldlM register []

end RouteGroups

structure Router (η : Type) where
  table : RouteTable (List (RouteItem η))

/-- The items registered for the template that a path selects, and what the path captures. -/
structure RouteMatch (η : Type) where
  items : List (RouteItem η)
  params : PathParams

structure Route (η : Type) where
  item : RouteItem η
  params : PathParams

namespace Router

variable {η : Type}

def insert (table : RouteTable (List (RouteItem η))) (group : RouteGroup η) :
    Except RouteFault (RouteTable (List (RouteItem η))) :=
  match table.insert? group.template group.items with
  | .ok table => .ok table
  | .error flaw => .error (.conflict group.template flaw)

def ofGroups (groups : RouteGroups η) : Except RouteFault (Router η) :=
  (groups.foldlM insert .empty).map fun table => ⟨table⟩

/-- Every item, by the order in which the templates came. -/
def items (router : Router η) : List (RouteItem η) := router.table.rows.flatMap TableRow.entry

def isRequestStream (router : Router η) : Bool :=
  router.items.any fun item => item.endpoint.isStream

/-- A path that selects nothing gives an empty match. -/
def locate (router : Router η) (path : String) : RouteMatch η :=
  match router.table.find? path with
  | some (items, params) => ⟨items, params⟩
  | none => ⟨[], []⟩

/-- The items whose parameters are of the kinds they have to be. -/
def candidates (router : Router η) (path : String) : List (RouteItem η) :=
  let found := router.locate path
  found.items.filter fun item => item.pattern.accepts found.params

/-- `HEAD` is answered by `GET` if no item answers it. -/
def select (candidates : List (RouteItem η)) (method : Method) : Option (RouteItem η) :=
  match candidates.find? fun item => item.answers method with
  | some item => some item
  | none => if method.isHead then candidates.find? fun item => item.answers .get else none

def allowed (candidates : List (RouteItem η)) : List Method :=
  (candidates.flatMap RouteItem.methods).eraseDups

theorem nodup_eraseDups [BEq α] [LawfulBEq α] : ∀ values : List α, values.eraseDups.Nodup
  | [] => by simp
  | value :: values => by
    rw [List.eraseDups_cons, List.nodup_cons]
    refine ⟨?_, nodup_eraseDups _⟩
    simp
termination_by values => values.length
decreasing_by
  exact Nat.lt_succ_of_le (List.length_filter_le _ _)

theorem nodup_allowed (candidates : List (RouteItem η)) : (allowed candidates).Nodup :=
  nodup_eraseDups _

theorem mem_allowed {candidates : List (RouteItem η)} {method : Method} :
    method ∈ allowed candidates ↔ ∃ item ∈ candidates, method ∈ item.methods := by
  simp [allowed]

def dispatch (router : Router η) (method : Method) (path : String) : Except WebFault (Route η) :=
  let candidates := router.candidates path
  if candidates.isEmpty then .error (.notFound path)
  else
    match select candidates method with
    | some item => .ok ⟨item, (router.locate path).params⟩
    | none => .error (.methodNotAllowed method path (allowed candidates))

end Router

def RouterBuilder.build {η : Type} (builder : RouterBuilder η) : Except RouteFault (Router η) := do
  let routes ← builder.draft.routes?
  let groups ← RouteGroups.ofRoutes routes
  Router.ofGroups groups

end Turnpike
