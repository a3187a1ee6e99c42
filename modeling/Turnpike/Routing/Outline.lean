import Turnpike.Routing.Router
import Turnpike.Text.Outline

/-!
Outlines of routes and of what is wrong with them.
-/

namespace Turnpike

def Method.outlines (methods : List Method) : String := Outline.list (methods.map Method.text)

def TableFlaw.outline : TableFlaw → String
  | .clash earlier => Outline.record "Conflict" [("with", Outline.text earlier)]
  | .twoWildcards => "InvalidParamSegment"
  | .invalidName => "InvalidParam"
  | .restNotLast => "InvalidCatchAll"

def RouteFault.outline : RouteFault → String
  | .duplicate path method =>
    Outline.record "Duplicate" [("path", Outline.text path), ("method", method.text)]
  | .invalidPattern pattern flaw =>
    Outline.record "InvalidPattern"
      [("pattern", Outline.text pattern), ("reason", Outline.text flaw.message)]
  | .conflict template flaw =>
    Outline.record "Conflict" [("path", Outline.text template), ("source", flaw.outline)]
  | .noMethods path => Outline.record "NoMethods" [("path", Outline.text path)]
  | .duplicateBlueprint name => Outline.record "DuplicateBlueprint" [("name", Outline.text name)]
  | .duplicateCompositionMethod method =>
    Outline.record "DuplicateCompositionMethod" [("method", method.text)]

def WebFault.outline : WebFault → String
  | .notFound path => Outline.record "NotFound" [("path", Outline.text path)]
  | .methodNotAllowed method path allowed =>
    Outline.record "MethodNotAllowed"
      [("method", method.text), ("path", Outline.text path), ("allowed", Method.outlines allowed)]
  | .payloadTooLarge limit => Outline.record "PayloadTooLarge" [("limit", Outline.number limit)]
  | .badRequest reason => Outline.record "BadRequest" [("reason", Outline.text reason)]
  | .body source => Outline.record "Body" [("source", Outline.text source.message)]

def RoutePattern.outline (pattern : RoutePattern) : String :=
  Outline.record "RoutePattern"
    [("path", Outline.text pattern.template), ("int_params", Outline.texts pattern.numbers)]

def PathParams.outline (params : PathParams) : String :=
  Outline.record "PathParams"
    [("params", Outline.list (params.map fun (name, value) =>
      Outline.tuple [Outline.text name, Outline.text value]))]

variable {η : Type}

def Endpoint.outline (endpoint : Endpoint η) : String :=
  Outline.partialRecord "RouterItemBuilder"
    [("methods", Method.outlines endpoint.methods), ("stream", Outline.flag endpoint.isStream)]

def RouteItem.outline (item : RouteItem η) : String :=
  Outline.partialRecord "RouterItem"
    [("methods", Method.outlines item.methods),
      ("stream", Outline.flag item.endpoint.isStream),
      ("pattern", item.pattern.outline)]

def RouteMatch.outline (found : RouteMatch η) : String :=
  Outline.record "RouteResult"
    [("router_items", Outline.list (found.items.map RouteItem.outline)),
      ("params", found.params.outline)]

def Route.outline (route : Route η) : String :=
  Outline.record "Route" [("item", route.item.outline), ("params", route.params.outline)]

def Route.outlineOf (result : Except WebFault (Route η)) : String :=
  match result with
  | .ok route => Outline.wrap "Ok" route.outline
  | .error fault => Outline.wrap "Err" fault.outline

def CompositionView.outline (view : CompositionView η) : String :=
  Outline.record "CompositionView"
    [("methods", Method.outlines view.methods),
      ("error", Outline.maybe (view.fault?.map RouteFault.outline))]

def Blueprint.outline (blueprint : Blueprint η) : String :=
  Outline.partialRecord "Blueprint"
    [("name", Outline.text blueprint.name),
      ("url_prefix", Outline.maybe (blueprint.mount.map Outline.text))]

def RouterBuilder.outline (builder : RouterBuilder η) : String :=
  Outline.partialRecord "RouterBuilder"
    [("routes", Outline.number builder.draft.routes.length)]

def Router.outline (router : Router η) : String :=
  Outline.partialRecord "Router" [("is_request_stream", Outline.flag router.isRequestStream)]

end Turnpike
