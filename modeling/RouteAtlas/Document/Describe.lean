import RouteAtlas.Document.Basic
import RouteAtlas.Handler.Analysis
import RouteAtlas.Owner.Resolve
import RouteAtlas.Pairs
import RouteAtlas.Route.Table

/-!
# Operations of routes

Every method of a route becomes an operation. A later route replaces the operations of an earlier
one that have the same path and method; they keep their places.
-/

namespace RouteAtlas

namespace DocumentSettings

/-- The timestamp of examples; an empty one counts as none. -/
def exampleTimestamp (s : DocumentSettings) : Text :=
  (s.timestamp.filter (!·.isEmpty)).getD Example.defaultTimestamp

def examples (s : DocumentSettings) (names : List Text) : List (Text × Example) :=
  Example.ofFields s.grammar.wrapper s.exampleTimestamp names

end DocumentSettings

/-- The schema of a response: the inferred fields if there are any, else the entity that the path
names. -/
def ResponseSchema.ofRoute (s : DocumentSettings) (catalog : List Entity) (path : Text)
    (inferred : List Text) : ResponseSchema :=
  match s.examples inferred with
  | [] =>
    match Entity.matching path catalog with
    | some e => .entity e
    | none => .unknown
  | fs => .inferred (fs.map (·.1))

/-- The operations of a route, one for each of its methods. -/
def Route.Entry.operations (s : DocumentSettings) (owners : ControllerMap) (catalog : List Entity)
    (route : Nat) (e : Route.Entry) : Except HandlerError PathItem := do
  let analysis ← e.handler.analyze s.grammar e.handlers
  let response := ResponseSchema.ofRoute s catalog e.path analysis.response
  let operation := fun method : Text => {
    route := route
    tag := Owner.resolve {} owners e.handler.name e.path
    summary := method.upper ++ " " ++ e.path
    request := s.examples analysis.request
    response := response
    responseExample := s.examples response.properties
    validators := analysis.validators : Operation }
  return Pairs.ofList (e.methods.map fun m => (m.lower, operation m))

namespace Paths

def add (paths : Paths) (path : Text) (operations : PathItem) : Paths :=
  let before := (paths.lookup path).getD []
  Pairs.put paths path (operations.foldl (fun item o => Pairs.put item o.1 o.2) before)

/-- The operations of entries added in order; `route` counts the entries before. -/
def addEntries (s : DocumentSettings) (owners : ControllerMap) (catalog : List Entity)
    (paths : Paths) (route : Nat) : List Route.Entry → Except HandlerError Paths
  | [] => .ok paths
  | e :: es => do
    let operations ← e.operations s owners catalog route
    addEntries s owners catalog (add paths e.path operations) (route + 1) es

def tagNames (paths : Paths) : List Text :=
  paths.flatMap fun p => p.2.map fun o => o.2.tag

end Paths

/-- Each name once, sorted by code point. -/
def DocumentTag.ofNames (names : List Text) : List DocumentTag :=
  (Text.sorted (Text.distinct names)).map DocumentTag.mk

def Document.ofEntries (s : DocumentSettings) (owners : ControllerMap) (catalog : List Entity)
    (entries : List Route.Entry) : Except HandlerError Document := do
  let paths ← Paths.addEntries s owners catalog [] 0 entries
  return ⟨s, DocumentTag.ofNames paths.tagNames, catalog, paths⟩

end RouteAtlas
