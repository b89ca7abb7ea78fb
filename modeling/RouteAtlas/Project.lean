import RouteAtlas.Document.Build
import RouteAtlas.Route.Manifest
import RouteAtlas.Settings

/-!
# Projects

A project is where the builder and the route table of a document come from: settings that are given,
or a root whose settings are read anew for every document.
-/

namespace RouteAtlas

inductive ProjectError where
  | noRoutes
  | settings (e : SettingsError)
  | manifest (e : Route.ManifestError)
  | controllers (f : Files.Failure)
  | build (e : BuildError)
  deriving DecidableEq

namespace ProjectError

def message : ProjectError → Text
  | .noRoutes =>
    "No route manifest configured; pass --routes or set \x60routes\x60 in .routedoc.yml"
  | .settings e => e.message
  | .manifest e => e.message
  | .controllers f => f.message
  | .build e => e.message

/-- Whether the error is one that settings or manifests are documented to have. -/
def isDocumented : ProjectError → Bool
  | .noRoutes => true
  | .settings e => e.isDocumented
  | .manifest e => e.isDocumented
  | .controllers _ => false
  | .build _ => false

end ProjectError

def Settings.table (s : Settings) : Action ProjectError Route.Table :=
  match s.routes with
  | none => throw .noRoutes
  | some path => Action.mapError .manifest (Route.Manifest.load path)

def Settings.builder (s : Settings) : Action ProjectError Builder :=
  Action.mapError .controllers (Builder.ofSettings s)

structure Project where
  builder : Action ProjectError Builder
  table : Action ProjectError Route.Table

namespace Project

def ofSettings (s : Settings) : Project := ⟨s.builder, s.table⟩

/-- The project at a root with its manifest there; nothing is remembered between documents. -/
def ofRoot (env : Environment) (root : Files.Path) : Project where
  builder := do
    let s ← Action.ofExcept ((Settings.load (← Action.files) env root).mapError .settings)
    s.builder
  table := Action.mapError .manifest (Route.Manifest.load (root.join ⟨.relative, ["routes.yml"]⟩))

def build (p : Project) : Action ProjectError Document := do
  let b ← p.builder
  let t ← p.table
  let (d, _) ← Action.mapError .build (b.build t)
  return d

end Project

end RouteAtlas
