import RouteAtlas.Route.Table

/-!
# Route tables of running applications

An application exposes its routes as objects of which some attributes may be missing. An object
with an endpoint and methods is a route, one with routes of its own is a mount, and all others
contribute nothing.
-/

namespace RouteAtlas.Route

/-- A route object: `path` is missing, null or a text; a dependency may lack its callable. -/
inductive Resource where
  | mk (path : Option (Option Text)) (endpoint : Handler) (methods : List Text)
      (dependencies : List Handler) (routes : Option (List Resource))

inductive ApplicationError where
  | noTable (shown : Text)
  | noPath
  deriving DecidableEq

def ApplicationError.message : ApplicationError → Text
  | .noTable shown => shown ++ " does not expose a route table"
  | .noPath => "'AppObject' object has no attribute 'path'"

def isPresent : Handler → Bool
  | .absent => false
  | _ => true

/-- The methods as a sorted set; `HEAD` beside `GET` is implicit and left out. -/
def declaredMethods (methods : List Text) : List Text :=
  Text.sorted (Text.distinct (methods.filter fun m => m != "HEAD" || !methods.contains "GET"))

mutual

def Resource.node? : Resource → Except ApplicationError (Option Node)
  | .mk path endpoint methods dependencies routes =>
    if isPresent endpoint && !methods.isEmpty then
      match path with
      | none => .error .noPath
      | some path =>
        let chain := dependencies.filter isPresent ++ [endpoint]
        .ok (some (.route path (declaredMethods methods) chain))
    else
      match routes with
      | none => .ok none
      | some [] => .ok none
      | some (r :: rs) => do
        let children ← Resource.nodes (r :: rs)
        return some (.mount (path.getD (some [])) children)

def Resource.nodes : List Resource → Except ApplicationError (List Node)
  | [] => .ok []
  | r :: rs => do
    let first ← r.node?
    let rest ← Resource.nodes rs
    return first.toList ++ rest

end

/-- The table of an application; it must expose its routes. -/
def Resource.table : Resource → Except ApplicationError Table
  | .mk _ _ _ _ none => .error (.noTable "<app>")
  | .mk _ _ _ _ (some routes) => Resource.nodes routes

end RouteAtlas.Route
