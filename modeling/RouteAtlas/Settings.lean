import RouteAtlas.Files.Reading
import RouteAtlas.Handler.Fields
import RouteAtlas.Value.Display
import RouteAtlas.Yaml.Load

/-!
# Settings

A project has its settings in a file at its root. What the file does not say has a default, and the
base URL may be given by the environment.
-/

namespace RouteAtlas

structure Info where
  title : Text := "API"
  version : Text := "1.0.0"
  description : Text := "Auto-generated OpenAPI 3 docs (best-effort)."
  deriving DecidableEq

structure DocumentSettings where
  info : Info := {}
  baseUrl : Option Text := none
  grammar : Grammar := {}
  timestamp : Option Text := none
  deriving DecidableEq

structure Settings where
  root : Files.Path
  document : DocumentSettings
  routes : Option Files.Path
  controllers : Files.Path
  catalog : Option Files.Path
  output : Files.Path
  deriving DecidableEq

inductive SettingsError where
  | malformed (name : Text)
  | notMapping
  | access (e : Files.AccessError)
  | encoding (e : Utf8.DecodeError)
  | load (e : Yaml.LoadError)
  | display (e : DisplayError)
  | noHome
  | linkLoop (path : Files.Path)
  deriving DecidableEq

namespace SettingsError

def message : SettingsError → Text
  | .malformed name => "Failed to parse " ++ name ++ ": " ++ Yaml.LoadError.malformed.message
  | .notMapping => ".routedoc.yml must contain a mapping at the root"
  | .access e => e.message
  | .encoding e => e.message
  | .load e => e.message
  | .display e => e.message
  | .noHome => "Could not determine home directory."
  | .linkLoop path => "Symlink loop from " ++ path.toText.quoted

def ofHome : Files.HomeError → SettingsError
  | .unknown => .noHome
  | .badName e => .access (.badName e)

def ofRealPath : Files.RealPathError → SettingsError
  | .loop p => .linkLoop p
  | .badName e => .access (.badName e)

/-- Whether the error is one that a settings file is documented to have. -/
def isDocumented : SettingsError → Bool
  | .malformed _ | .notMapping => true
  | _ => false

end SettingsError

abbrev Environment := List (Text × Text)

namespace Settings

def fileName : Text := ".routedoc.yml"

/-- Texts, numbers and truth values as texts. -/
def scalarText? : Value → Except SettingsError (Option Text)
  | .str t => .ok (some t)
  | .int n => (((Value.int n).shownScalar).map some).mapError .display
  | .float x => (((Value.float x).shownScalar).map some).mapError .display
  | .bool b => (((Value.bool b).shownScalar).map some).mapError .display
  | _ => .ok none

def textAt? (es : List (Value × Value)) (key : Text) : Except SettingsError (Option Text) :=
  match Value.entry? es key with
  | some v => scalarText? v
  | none => .ok none

def properText? (es : List (Value × Value)) (key : Text) : Except SettingsError (Option Text) :=
  (textAt? es key).map (·.filter (!·.isEmpty))

/-- The entries under a key; anything but a mapping has none. -/
def section? (cs : Collections) (es : List (Value × Value)) (key : Text) : List (Value × Value) :=
  ((Value.entry? es key).bind cs.entries?).getD []

def info (es : List (Value × Value)) : Except SettingsError Info := do
  let d : Info := {}
  let title ← properText? es "title"
  let version ← properText? es "version"
  let description ← properText? es "description"
  return ⟨title.getD d.title, version.getD d.version, description.getD d.description⟩

def grammar (es : List (Value × Value)) : Except SettingsError Grammar := do
  let d : Grammar := {}
  let wrapper ← properText? es "wrapper_field"
  let carrier ← properText? es "carrier"
  let successCall ← properText? es "success_call"
  let rawCall ← properText? es "raw_call"
  return ⟨wrapper.getD d.wrapper, carrier.getD d.carrier, successCall.getD d.successCall,
    rawCall.getD d.rawCall⟩

/-- The variables that may give the base URL, the first one first. -/
def baseUrlVariables : List Text := ["ROUTEDOC_BASE_URL", "BASE_URL"]

/-- The base URL of the first variable that is not empty, else that of the file. -/
def baseUrl (env : Environment) (es : List (Value × Value)) :
    Except SettingsError (Option Text) := do
  let own ← textAt? es "base_url"
  return (baseUrlVariables.findSome? fun n => (env.lookup n).filter (!·.isEmpty)) <|> own

/-- A path under a key, seen from the root. -/
def pathAt? (fs : Files.System) (root : Files.Path) (es : List (Value × Value)) (key : Text) :
    Except SettingsError (Option Files.Path) := do
  match ← properText? es key with
  | none => return none
  | some t =>
    let p ← (fs.expandHome (Files.Path.ofText t)).mapError SettingsError.ofHome
    return some (root.join p)

def ofEntries (fs : Files.System) (env : Environment) (root : Files.Path) (cs : Collections)
    (es : List (Value × Value)) : Except SettingsError Settings := do
  let info ← info (section? cs es "info")
  let grammar ← grammar (section? cs es "grammar")
  let baseUrl ← baseUrl env es
  let routes ← pathAt? fs root es "routes"
  let controllers ← pathAt? fs root es "controllers"
  let catalog ← pathAt? fs root es "catalog"
  let output ← pathAt? fs root es "output"
  let timestamp ← textAt? es "example_timestamp"
  return {
    root := root
    document := { info := info, baseUrl := baseUrl, grammar := grammar, timestamp := timestamp }
    routes := routes
    controllers := controllers.getD (root.join ⟨.relative, ["controller"]⟩)
    catalog := catalog
    output := output.getD (root.join ⟨.relative, [".routedoc", "openapi.json"]⟩) }

def realPath (fs : Files.System) (p : Files.Path) : Except SettingsError Files.Path :=
  (fs.realPath p).mapError SettingsError.ofRealPath

/-- A path with the home directory put in and without links. -/
def resolved (fs : Files.System) (p : Files.Path) : Except SettingsError Files.Path := do
  let p ← (fs.expandHome p).mapError SettingsError.ofHome
  realPath fs p

/-- The settings file that a path means: itself, or the one in a directory. -/
def locate (fs : Files.System) (p : Files.Path) : Except SettingsError Files.Path := do
  let p ← (fs.expandHome p).mapError SettingsError.ofHome
  let isDir ← (fs.isDir p).mapError fun f => .access (.failed f)
  realPath fs (if isDir then p.join ⟨.relative, [fileName]⟩ else p)

/-- The mapping that a file holds, with its collections; one without content holds none. -/
def entriesOf (fs : Files.System) (file : Files.Path) :
    Except SettingsError (Collections × List (Value × Value)) := do
  let t ←
    match fs.readText file with
    | .ok t => .ok t
    | .error (.access e) => .error (.access e)
    | .error (.encoding e) => .error (.encoding e)
  if t.isBlank then return (#[], [])
  else
    match Yaml.load t with
    | .ok d =>
      match d.entries?, d.root with
      | some es, _ => return (d.collections, es)
      | none, .null => return (#[], [])
      | none, _ => .error .notMapping
    | .error .malformed => .error (.malformed file.name)
    | .error e => .error (.load e)

def load (fs : Files.System) (env : Environment) (p : Files.Path) :
    Except SettingsError Settings := do
  let file ← locate fs p
  let root ← realPath fs file.parent
  let there ← (fs.holds file).mapError fun f => .access (.failed f)
  let (cs, es) ← if there then entriesOf fs file else .ok (#[], [])
  ofEntries fs env root cs es

end Settings

end RouteAtlas
