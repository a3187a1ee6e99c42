namespace Turnpike

/-- What a path has captured, in the order of the pattern. -/
abbrev PathParams := List (String × String)

def PathParams.get? (params : PathParams) (name : String) : Option String :=
  (params.find? fun pair => pair.1 == name).map Prod.snd

end Turnpike
