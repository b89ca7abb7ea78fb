import RouteAtlas.Files.Reading
import RouteAtlas.Json.Printer
import RouteAtlas.Json.Reader
import RouteAtlas.Session
import RouteAtlas.Value.Display
import RouteAtlas.Yaml.Load
import RouteAtlas.Yaml.Printer

/-!
# Document files

A store is a file that holds the latest document, as YAML or as JSON according to its name. Writing
replaces the whole file.
-/

namespace RouteAtlas

structure Store where
  path : Files.Path
  deriving DecidableEq

namespace Store

inductive WriteCause where
  | tooManyDigits
  | encoding (e : Utf8.EncodeError)
  | access (e : Files.AccessError)
  deriving DecidableEq

def WriteCause.message : WriteCause → Text
  | .tooManyDigits => DisplayError.tooManyDigits.message
  | .encoding e => e.message
  | .access e => e.message

structure WriteError where
  path : Files.Path
  cause : WriteCause
  deriving DecidableEq

def WriteError.message (e : WriteError) : Text :=
  "Could not write " ++ e.path.toText ++ ": " ++ e.cause.message

inductive ReadError where
  | badName (e : Files.NameError)
  | encoding (e : Utf8.DecodeError)
  | json (e : Json.ReadError)
  | yaml (e : Yaml.LoadError)
  deriving DecidableEq

def ReadError.message : ReadError → Text
  | .badName e => e.message
  | .encoding e => e.message
  | .json e => e.message
  | .yaml e => e.message

def isYaml (s : Store) : Bool :=
  let e := s.path.extension.lower
  e == ".yaml" || e == ".yml"

mutual

def hasLongInt : Json → Bool
  | .int n => Decimal.tooLong n.natAbs
  | .list vs => itemsHaveLongInt vs
  | .obj fs => fieldsHaveLongInt fs
  | .shared _ v => hasLongInt v
  | _ => false

def itemsHaveLongInt : List Json → Bool
  | [] => false
  | v :: vs => hasLongInt v || itemsHaveLongInt vs

def fieldsHaveLongInt : List (Text × Json) → Bool
  | [] => false
  | (_, v) :: fs => hasLongInt v || fieldsHaveLongInt fs

end

def text (s : Store) (v : Json) : Except WriteCause Text :=
  if hasLongInt v then .error .tooManyDigits
  else if s.isYaml then .ok (Yaml.toText v)
  else .ok (v.toText .indented ++ "\n")

/-- Writes a document in place of the one before. The file is emptied before its text is encoded. -/
def write (s : Store) (v : Json) : Action WriteError Files.Path := do
  let fail := fun {α : Type} (x : Except WriteCause α) =>
    (x.mapError (WriteError.mk s.path) : Except WriteError α)
  let t ← Action.ofExcept (fail (s.text v))
  Action.mapError (fun e => ⟨s.path, .access e⟩) (Action.makeDirs s.path.parent)
  Action.change fun fs => fail ((fs.writeBytes s.path []).mapError .access)
  let bytes ← Action.ofExcept (fail ((Utf8.encode t).mapError .encoding))
  Action.change fun fs => fail ((fs.writeBytes s.path bytes).mapError .access)
  return s.path

/-- What the text of a file holds; a text that is not well formed holds nothing. -/
def parse (s : Store) (t : Text) : Except ReadError (Option Loaded) :=
  if s.isYaml then
    match Yaml.load t with
    | .ok d => .ok (some d)
    | .error .malformed => .ok none
    | .error e => .error (.yaml e)
  else
    match Json.ofText true t with
    | .ok v => .ok (some (Loaded.ofJson v))
    | .error .malformed => .ok none
    | .error e => .error (.json e)

/-- The document in the file: nothing if there is no readable file or it holds no mapping. -/
def read (s : Store) (fs : Files.System) : Except ReadError (Option Loaded) :=
  match fs.readText s.path with
  | .error (.access (.failed _)) => .ok none
  | .error (.access (.badName e)) => .error (.badName e)
  | .error (.encoding e) => .error (.encoding e)
  | .ok t => return (← s.parse t).filter fun d => d.entries?.isSome

end Store

end RouteAtlas
