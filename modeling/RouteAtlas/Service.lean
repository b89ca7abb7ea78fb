import RouteAtlas.Project
import RouteAtlas.Url

/-!
# Document service

The service holds the document of the latest build that succeeded. Reading the document builds it
only while there is none; a rebuild replaces it, and a failed one leaves it as it was.
-/

namespace RouteAtlas

structure Request where
  method : Text
  path : Text
  deriving DecidableEq

def Request.ofUrl (method url : Text) : Except UrlError Request :=
  (Url.ofText url).map fun u => ⟨method, u.place⟩

structure Response where
  status : Nat
  body : Text
  deriving DecidableEq

namespace Response

/-- A body without a form in UTF-8 cannot be sent. -/
def ofJson (status : Nat) (v : Json) : Response :=
  let t := v.toText .compact
  match Utf8.encode t with
  | .ok _ => ⟨status, t⟩
  | .error _ => ⟨500, "Internal Server Error"⟩

def detail (status : Nat) (t : Text) : Response := ofJson status (.obj [("detail", .str t)])

/-- Only documented errors are told. -/
def ofError (e : ProjectError) : Response :=
  if e.isDocumented then detail 400 e.message else ⟨500, "Internal Server Error"⟩

end Response

/-- What can be asked for, each with one method. -/
inductive Resource where
  | health
  | document
  | rebuild
  deriving DecidableEq

namespace Resource

def path : Resource → Text
  | .health => "/health"
  | .document => "/openapi.json"
  | .rebuild => "/rebuild"

def method : Resource → Text
  | .rebuild => "POST"
  | _ => "GET"

def all : List Resource := [.health, .document, .rebuild]

/-- Whether a path is that of a resource; slashes at its end do not count, nor does one line feed
before them. -/
def isAt (r : Resource) (path : Text) : Bool :=
  let path := (path.reverse.dropWhile fun c : CodePoint => c == '/').reverse
  path == r.path || path == r.path ++ "\n"

def at? (path : Text) : Option Resource := all.find? fun r => r.isAt path

end Resource

structure Service where
  project : Project
  document : Option Document := none

namespace Service

variable {ε : Type}

/-- Builds the document anew; what the service holds changes only if that succeeds. -/
def rebuild (s : Service) : Action ε (Except ProjectError Document × Service) := do
  match ← Action.attempt s.project.build with
  | .ok d => return (.ok d, { s with document := some d })
  | .error e => return (.error e, s)

/-- The held document, built if there is none. -/
def current (s : Service) : Action ε (Except ProjectError Document × Service) :=
  match s.document with
  | some d => return (.ok d, s)
  | none => s.rebuild

def respond (form : Document → Json) : Except ProjectError Document → Response
  | .ok d => .ofJson 200 (form d)
  | .error e => .ofError e

def summary (d : Document) : Json :=
  .obj [("status", .str "ok"), ("paths", .int d.paths.length), ("tags", .int d.tags.length)]

def serve (s : Service) : Resource → Action ε (Response × Service)
  | .health => return (.ofJson 200 (.obj [("status", .str "ok")]), s)
  | .document => do
    let (d, s) ← s.current
    return (respond Document.toJson d, s)
  | .rebuild => do
    let (d, s) ← s.rebuild
    return (respond summary d, s)

/-- Answers a request; nothing is told in the body to who asks for the head only. -/
def answer (s : Service) (r : Request) : Action ε (Response × Service) := do
  let method := r.method.upper
  let (response, s) ← match Resource.at? r.path with
    | none => pure (.detail 404 "Not Found", s)
    | some resource =>
      if resource.method = method then s.serve resource
      else pure (.detail 405 "Method Not Allowed", s)
  return (if method = "HEAD" then { response with body := [] } else response, s)

end Service

end RouteAtlas
