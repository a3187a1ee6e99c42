import Turnpike.Message.Method
import Turnpike.Routing.Pattern
import Turnpike.Routing.Table

namespace Turnpike

inductive RouteFault where
  | duplicate (path : String) (method : Method)
  | invalidPattern (pattern : String) (flaw : PatternFlaw)
  | conflict (template : String) (flaw : TableFlaw)
  | noMethods (path : String)
  | duplicateBlueprint (name : String)
  | duplicateCompositionMethod (method : Method)
  deriving DecidableEq, Repr

def RouteFault.message : RouteFault → String
  | .duplicate path method => s!"route {method.text} {path} is registered twice"
  | .invalidPattern pattern flaw => s!"invalid route pattern {pattern}: {flaw.message}"
  | .conflict template flaw => s!"route {template} conflicts with an existing route: {flaw.message}"
  | .noMethods path => s!"route {path} has no methods"
  | .duplicateBlueprint name => s!"blueprint {name} is registered twice"
  | .duplicateCompositionMethod method =>
    s!"method {method.text} is added twice to a composition view"

end Turnpike
