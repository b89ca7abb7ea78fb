import RouteAtlas.Handler.Basic
import RouteAtlas.Text.Case
import RouteAtlas.Text.Search

/-!
# Route tables

A table is a forest of routes and mounts. Walking it gives one entry per route, in the order of
registration, with its full path and its methods as a sorted set.
-/

namespace RouteAtlas.Route

/-- Every run of slashes becomes one slash. -/
def squeeze : Text → Text
  | [] => []
  | c :: r => if c = '/' ∧ r.head? = some (.char '/') then squeeze r else c :: squeeze r

def dropFinalSlash (t : Text) : Text :=
  if 1 < t.length ∧ t.getLast? = some (.char '/') then t.dropLast else t

def rooted (t : Text) : Text := if t.head? = some (.char '/') then t else .char '/' :: t

/-- A slash at the front, no two in a row, and none at the end but for the root. -/
def normalize (path : Text) : Text := dropFinalSlash (squeeze (rooted path.trim))

/-- A path under a mount; an empty mount adds nothing. -/
def under (base path : Text) : Text :=
  if base.isEmpty then normalize path else normalize (base ++ "/" ++ path)

/-- A node of a route table; a foreign node is neither a route nor a mount and stops the walk. -/
inductive Node where
  | route (path : Option Text) (methods : List Text) (handlers : List Handler)
  | mount (base : Option Text) (children : List Node)
  | foreign (shown : Text)

abbrev Table := List Node

structure Entry where
  path : Text
  methods : List Text
  handlers : List Handler

namespace Entry

/-- The handler that answers: the last of the chain. -/
def handler (e : Entry) : Handler := e.handlers.getLast?.getD .absent

end Entry

inductive WalkError where
  | foreignNode (shown : Text)
  deriving DecidableEq

def WalkError.message : WalkError → Text
  | .foreignNode shown => "Unsupported route table node: " ++ shown

/-- Trimmed and in upper case, empty declarations left out, each once, sorted by code point. -/
def methodSet (declared : List Text) : List Text :=
  Text.sorted (Text.distinct ((declared.filter (!·.isEmpty)).map fun m => m.trim.upper))

mutual

def Node.walk (base : Text) : Node → Except WalkError (List Entry)
  | .route path methods handlers =>
    .ok [⟨under base (path.getD []), methodSet methods, handlers⟩]
  | .mount inner children => walkAll (under base (inner.getD [])) children
  | .foreign shown => .error (.foreignNode shown)

def walkAll (base : Text) : List Node → Except WalkError (List Entry)
  | [] => .ok []
  | n :: ns => do
    let first ← n.walk base
    let rest ← walkAll base ns
    return first ++ rest

end

def Table.entries (table : Table) : Except WalkError (List Entry) := walkAll [] table

end RouteAtlas.Route
