import RouteAtlas.Entity.Schema
import RouteAtlas.Files.Reading
import RouteAtlas.Pairs
import RouteAtlas.Session
import RouteAtlas.Value.Display
import RouteAtlas.Yaml.Load

/-!
# Catalogs of entities

A catalog is a mapping from entity names to mappings from fields to type tags, held in memory or in
a file. A catalog that cannot be read counts as empty.
-/

namespace RouteAtlas

inductive Catalog where
  | memory (d : Loaded)
  | file (path : Files.Path)
  | unreachable (reason : Text)

inductive CatalogError where
  | unreachable (reason : Text)
  | unreadable (path : Files.Path) (f : Files.Failure)
  | badName (e : Files.NameError)
  | encoding (e : Utf8.DecodeError)
  | malformed (name : Text)
  | load (e : Yaml.LoadError)
  | display (e : DisplayError)
  | notMapping (name : Text)
  | noEntries (kind : Text)
  deriving DecidableEq

def CatalogError.message : CatalogError → Text
  | .unreachable reason => reason
  | .unreadable path f => "Cannot read entity catalog " ++ path.toText ++ ": " ++ f.message
  | .badName e => e.message
  | .encoding e => e.message
  | .malformed name => "Failed to parse " ++ name ++ ": " ++ Yaml.LoadError.malformed.message
  | .load e => e.message
  | .display e => e.message
  | .notMapping name => name ++ " must contain a mapping of entities"
  | .noEntries kind => "'" ++ kind ++ "' object has no attribute 'items'"

namespace Catalog

def plain (cs : Collections) (v : Value) : Except CatalogError Text :=
  (cs.plain v).mapError .display

/-- Fields and their tags as texts; of fields with one name the last counts. -/
def fieldTexts (cs : Collections) (es : List (Value × Value)) :
    Except CatalogError (List (Text × Text)) := do
  return Pairs.ofList (← es.mapM fun e => do return (← plain cs e.1, ← plain cs e.2))

/-- The entities of a file's mapping: all of it, or what stands under `entities`. -/
def entriesOf? (d : Loaded) : Option (List (Value × Value)) :=
  d.entries?.map fun es => ((Value.entry? es "entities").bind d.collections.entries?).getD es

/-- The entity of an entry, unless its fields are no mapping. -/
def mappingOnly (cs : Collections) (e : Value × Value) :
    Except CatalogError (Option (Text × List (Text × Text))) :=
  match cs.entries? e.2 with
  | none => .ok none
  | some fs => do
    let fields ← fieldTexts cs fs
    return some (← plain cs e.1, fields)

/-- The entities of a file; what is no mapping is left out. -/
def ofFile (fs : Files.System) (path : Files.Path) :
    Except CatalogError (List (Text × List (Text × Text))) := do
  let t ←
    match fs.readText path with
    | .ok t => .ok t
    | .error (.access (.failed f)) => .error (.unreadable path f)
    | .error (.access (.badName e)) => .error (.badName e)
    | .error (.encoding e) => .error (.encoding e)
  let d ←
    if t.isBlank then .ok (Loaded.ofJson (.obj []))
    else
      match Yaml.load t with
      | .ok d => .ok d
      | .error .malformed => .error (.malformed path.name)
      | .error e => .error (.load e)
  match entriesOf? d with
  | some es => return Pairs.ofList ((← es.mapM (mappingOnly d.collections)).filterMap id)
  | none => .error (.notMapping path.name)

/-- The entity of an entry in memory; one whose fields are no mapping is reported. -/
def remembered (cs : Collections) (e : Value × Value) :
    Action CatalogError (Option (Text × List (Text × Text))) := do
  match ← Action.ofExcept (mappingOnly cs e) with
  | some entity => return some entity
  | none => do
    let name ← Action.ofExcept (plain cs e.1)
    Action.note .warning .catalog ("Skipping entity " ++ name ++ ": fields are not a mapping")
    return none

def fetch : Catalog → Action CatalogError (List (Text × List (Text × Text)))
  | .memory d =>
    match d.entries? with
    | some es => do return Pairs.ofList ((← es.mapM (remembered d.collections)).filterMap id)
    | none => throw (.noEntries (d.collections.kind d.root))
  | .file path => do Action.ofExcept (ofFile (← Action.files) path)
  | .unreachable reason => throw (.unreachable reason)

/-- The entities of a catalog; one that cannot be read is reported and counts as empty. -/
def read {ε : Type} (c : Option Catalog) : Action ε (List Entity) := do
  match c with
  | none => return []
  | some c =>
    match ← Action.attempt c.fetch with
    | .ok es => return es.map fun e => ⟨e.1, e.2⟩
    | .error e =>
      Action.note .warning .catalog
        ("Entity catalog unavailable, continuing without schemas: " ++ e.message)
      return []

end Catalog

end RouteAtlas
