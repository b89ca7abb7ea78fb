import RouteAtlas.Files.Reading
import RouteAtlas.Route.Table
import RouteAtlas.Session
import RouteAtlas.Value.Display
import RouteAtlas.Yaml.Load

/-!
# Route manifests

A manifest is a file with a list of routes. An entry with routes of its own is a mount; any other
must have a path. A handler is given by its name or by a mapping with its source or the file of it.
-/

namespace RouteAtlas.Route

inductive ManifestError where
  | unreadable (path : Files.Path) (f : Files.Failure)
  | badName (e : Files.NameError)
  | encoding (e : Utf8.DecodeError)
  | malformed (name : Text)
  | load (e : Yaml.LoadError)
  | display (e : DisplayError)
  | notList (name : Text)
  | notMapping (shown : Text)
  | nestedNotList
  | noPath (shown : Text)
  | badHandler (shown : Text)
  | notIterable (kind : Text)
  | tooDeep
  deriving DecidableEq

namespace ManifestError

def message : ManifestError → Text
  | .unreadable path f => "Cannot read route manifest " ++ path.toText ++ ": " ++ f.message
  | .badName e => e.message
  | .encoding e => e.message
  | .malformed name => "Failed to parse " ++ name ++ ": " ++ Yaml.LoadError.malformed.message
  | .load e => e.message
  | .display e => e.message
  | .notList name => name ++ ": 'routes' must be a list"
  | .notMapping shown => "Route entries must be mappings, got " ++ shown
  | .nestedNotList => "Nested 'routes' must be a list"
  | .noPath shown => "Route entry is missing 'path': " ++ shown
  | .badHandler shown => "Handler entries must be names or mappings, got " ++ shown
  | .notIterable kind => "'" ++ kind ++ "' object is not iterable"
  | .tooDeep => Yaml.LoadError.tooDeep.message

/-- Whether the error is one that a manifest is documented to have. -/
def isDocumented : ManifestError → Bool
  | .badName _ | .encoding _ | .load _ | .display _ | .notIterable _ | .tooDeep => false
  | _ => true

end ManifestError

namespace Manifest

def plain (cs : Collections) (v : Value) : Action ManifestError Text :=
  Action.ofExcept ((cs.plain v).mapError .display)

def shown (cs : Collections) (v : Value) : Action ManifestError Text :=
  Action.ofExcept ((cs.shown v).mapError .display)

/-- The parts of a value: items, characters, bytes or keys. -/
def parts (cs : Collections) (v : Value) : Except ManifestError (List Value) :=
  match v, cs.get? v with
  | _, some (.list vs) => .ok vs
  | _, some (.set vs) => .ok vs
  | _, some (.pair a b) => .ok [a, b]
  | _, some (.map es) => .ok (es.map (·.1))
  | .str t, _ => .ok (t.map fun c => .str [c])
  | .bytes bs, _ => .ok (bs.map fun b => .int b.toNat)
  | v, _ => .error (.notIterable (cs.kind v))

/-- A value under a key, unless it counts as false. -/
def given? (cs : Collections) (es : List (Value × Value)) (key : Text) : Option Value :=
  (Value.entry? es key).filter cs.holds

/-- The text of a value under a key; what counts as false has none. -/
def textAt (cs : Collections) (es : List (Value × Value)) (key : Text) :
    Action ManifestError Text := do
  match given? cs es key with
  | some v => plain cs v
  | none => return []

/-- The source of a handler; one without a text of its own is read from its file. -/
def source (dir : Files.Path) (cs : Collections) (es : List (Value × Value)) :
    Action ManifestError Text := do
  match (Value.entry? es "source").getD .null, given? cs es "file" with
  | .null, some file => do
    let path := dir.join (Files.Path.ofText (← plain cs file))
    match (← Action.files).readTextLenient path with
    | .ok t => return t
    | .error (.badName e) => throw (.badName e)
    | .error (.failed f) =>
      Action.note .warning .routes
        ("Cannot read handler source " ++ path.toText ++ ": " ++ f.message)
      return []
  | _, _ => textAt cs es "source"

def handler (dir : Files.Path) (cs : Collections) (v : Value) : Action ManifestError Handler := do
  match v, cs.entries? v with
  | .str name, _ => return .declared (some name) (some [])
  | _, some es => do
    let name ← textAt cs es "name"
    let source ← source dir cs es
    return .declared (some name) (some source)
  | v, none => throw (.badHandler (← shown cs v))

/-- The declared methods: one text, or the parts of any other value; `get` if there are none. -/
def methods (cs : Collections) (es : List (Value × Value)) : Action ManifestError (List Text) := do
  match Value.entry? es "methods" <|> Value.entry? es "method" with
  | none => return ["get"]
  | some (.str t) => return [t]
  | some v => (← Action.ofExcept (parts cs v)).mapM (plain cs)

def route (dir : Files.Path) (cs : Collections) (es : List (Value × Value)) (path : Value) :
    Action ManifestError Node := do
  let raw ← Action.ofExcept (((given? cs es "handlers").map (parts cs)).getD (.ok []))
  let handlers ← raw.mapM (handler dir cs)
  let path ← plain cs path
  let ms ← methods cs es
  return .route (some path) ms handlers

/-- The list of routes in a value that counts as true. -/
def nested (cs : Collections) (v : Value) : Except ManifestError (List Value) :=
  match cs.items? v with
  | some vs => .ok vs
  | none => if cs.holds v then .error .nestedNotList else .ok []

def mountPath (cs : Collections) (es : List (Value × Value)) : Action ManifestError Text :=
  match given? cs es "prefix" with
  | some v => plain cs v
  | none => textAt cs es "path"

/-- How deep mounts may be nested. -/
def maxDepth : Nat := 970

/-- The nodes of a list of entries; `fuel` bounds how deep mounts are nested. -/
def nodes (dir : Files.Path) (cs : Collections) :
    Nat → List Value → Action ManifestError (List Node)
  | 0, _ => throw .tooDeep
  | fuel + 1, vs => vs.mapM fun v => do
    match cs.entries? v with
    | none => throw (.notMapping (← shown cs v))
    | some es =>
      match Value.entry? es "routes", Value.entry? es "path" with
      | some routes, _ => do
        let children ← Action.ofExcept (nested cs routes)
        let base ← mountPath cs es
        return .mount (some base) (← nodes dir cs fuel children)
      | none, some path => route dir cs es path
      | none, none => throw (.noPath (← shown cs v))

/-- The list of routes that a file holds, which may be nothing. -/
def routeList (name : Text) (d : Loaded) : Except ManifestError (List Value) :=
  let listed := match d.entries? with
    | some es => (Value.entry? es "routes").getD .null
    | none => d.root
  match listed, d.collections.items? listed with
  | .null, _ => .ok []
  | _, some vs => .ok vs
  | _, none => .error (.notList name)

def content (path : Files.Path) (t : Text) : Except ManifestError Loaded :=
  if t.isBlank then .ok ⟨#[], .null⟩
  else
    match Yaml.load t with
    | .ok d => .ok d
    | .error .malformed => .error (.malformed path.name)
    | .error e => .error (.load e)

def load (path : Files.Path) : Action ManifestError Table := do
  match (← Action.files).readText path with
  | .error (.access (.failed f)) => throw (.unreadable path f)
  | .error (.access (.badName e)) => throw (.badName e)
  | .error (.encoding e) => throw (.encoding e)
  | .ok t =>
    let d ← Action.ofExcept (content path t)
    let vs ← Action.ofExcept (routeList path.name d)
    nodes path.parent d.collections maxDepth vs

end Manifest

end RouteAtlas.Route
