import Turnpike.Routing.Fault

/-!
Routes on their way into a router: endpoints collected under paths, the first fault kept for the
time the router is built.
-/

namespace Turnpike

/-- A handler with the methods it answers.  The body of a streamed endpoint is left to it. -/
structure Endpoint (η : Type) where
  methods : List Method
  handler : η
  isStream : Bool

namespace Endpoint

variable {η : Type}

def ofMethods (methods : List Method) (handler : η) : Endpoint η := ⟨methods, handler, false⟩

def withStream (endpoint : Endpoint η) (isStream : Bool) : Endpoint η := { endpoint with isStream }

def stream (endpoint : Endpoint η) : Endpoint η := endpoint.withStream true

end Endpoint

/-- The first method that occurs a second time, or that is taken already. -/
def Method.repeated? (taken : List Method) : List Method → Option Method
  | [] => none
  | method :: methods =>
    if method ∈ taken then some method else repeated? (method :: taken) methods

/-- Handlers of one path, no method with two of them. -/
structure CompositionView (η : Type) where
  endpoints : List (Endpoint η)
  repeated : Option Method

namespace CompositionView

variable {η : Type}

def empty : CompositionView η := ⟨[], none⟩

def methods (view : CompositionView η) : List Method := view.endpoints.flatMap Endpoint.methods

/-- An endpoint with a method that is taken is left out. -/
def add (view : CompositionView η) (endpoint : Endpoint η) : CompositionView η :=
  match Method.repeated? view.methods endpoint.methods with
  | some method => { view with repeated := view.repeated.or (some method) }
  | none => { view with endpoints := view.endpoints ++ [endpoint] }

def fault? (view : CompositionView η) : Option RouteFault :=
  view.repeated.map .duplicateCompositionMethod

end CompositionView

abbrev DraftRoute (η : Type) := String × Endpoint η

structure RouteDraft (η : Type) where
  routes : List (DraftRoute η)
  fault : Option RouteFault

namespace RouteDraft

variable {η : Type}

def empty : RouteDraft η := ⟨[], none⟩

def route (draft : RouteDraft η) (path : String) (endpoint : Endpoint η) : RouteDraft η :=
  { draft with routes := draft.routes ++ [(path, endpoint)] }

def append (draft : RouteDraft η) (routes : List (DraftRoute η)) : RouteDraft η :=
  { draft with routes := draft.routes ++ routes }

def fail (draft : RouteDraft η) (fault : RouteFault) : RouteDraft η :=
  { draft with fault := draft.fault.or (some fault) }

def view (draft : RouteDraft η) (path : String) (endpoints : List (Endpoint η)) : RouteDraft η :=
  draft.append (endpoints.map fun endpoint => (path, endpoint))

def composition (draft : RouteDraft η) (path : String) (view : CompositionView η) : RouteDraft η :=
  match view.fault? with
  | some fault => draft.fail fault
  | none => draft.view path view.endpoints

def routes? (draft : RouteDraft η) : Except RouteFault (List (DraftRoute η)) :=
  match draft.fault with
  | some fault => .error fault
  | none => .ok draft.routes

end RouteDraft

inductive Registration (η : Type) where
  | route (path : String) (endpoint : Endpoint η)
  | view (path : String) (endpoints : List (Endpoint η))
  | composition (path : String) (view : CompositionView η)

def RouteDraft.register {η : Type} (draft : RouteDraft η) : Registration η → RouteDraft η
  | .route path endpoint => draft.route path endpoint
  | .view path endpoints => draft.view path endpoints
  | .composition path view => draft.composition path view

/-- A named group of routes that may be mounted below a path. -/
structure Blueprint (η : Type) where
  name : String
  mount : Option String
  draft : RouteDraft η

namespace Blueprint

variable {η : Type}

def start (name : String) (mount : Option String) : Blueprint η := ⟨name, mount, .empty⟩

def register (blueprint : Blueprint η) (registration : Registration η) : Blueprint η :=
  { blueprint with draft := blueprint.draft.register registration }

def trimSlashes (path : List Char) : List Char :=
  ((path.dropWhile (· == '/')).reverse.dropWhile (· == '/')).reverse

/-- A path below a mount; the mount alone stands for the root. -/
def joined (mount path : List Char) : List Char :=
  match trimSlashes mount, path with
  | [], path => path
  | mount, [] | mount, ['/'] => '/' :: mount
  | mount, '/' :: path => '/' :: (mount ++ '/' :: path)
  | mount, path => '/' :: (mount ++ '/' :: path)

def joinedText (mount path : String) : String := String.ofList (joined mount.toList path.toList)

def routes? (blueprint : Blueprint η) : Except RouteFault (List (DraftRoute η)) :=
  blueprint.draft.routes?.map fun routes =>
    match blueprint.mount with
    | none => routes
    | some mount => routes.map fun (path, endpoint) => (joinedText mount path, endpoint)

end Blueprint

/-- Everything registered so far, and the names of the blueprints among it. -/
structure RouterBuilder (η : Type) where
  draft : RouteDraft η
  blueprints : List String

namespace RouterBuilder

variable {η : Type}

def empty : RouterBuilder η := ⟨.empty, []⟩

def register (builder : RouterBuilder η) (registration : Registration η) : RouterBuilder η :=
  { builder with draft := builder.draft.register registration }

/-- Merges the routes of a blueprint; of a name that is taken nothing is merged. -/
def blueprint (builder : RouterBuilder η) (blueprint : Blueprint η) : RouterBuilder η :=
  if blueprint.name ∈ builder.blueprints then
    { builder with draft := builder.draft.fail (.duplicateBlueprint blueprint.name) }
  else
    let draft := match blueprint.routes? with
      | .ok routes => builder.draft.append routes
      | .error fault => builder.draft.fail fault
    ⟨draft, blueprint.name :: builder.blueprints⟩

end RouterBuilder

end Turnpike
