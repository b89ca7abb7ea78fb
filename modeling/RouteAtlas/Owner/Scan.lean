import RouteAtlas.Files.Reading
import RouteAtlas.Owner.Exports
import RouteAtlas.Owner.Resolve
import RouteAtlas.Session

/-!
# Scanning a directory for controllers

The files of a directory come before its subdirectories, both by name. Directories of tools and
linked directories are not entered. A handler belongs to the first file that exports it.
-/

namespace RouteAtlas.Owner

def excluded : List Text := [".git", ".hg", ".svn", ".venv", "node_modules", "__pycache__",
  ".pytest_cache", ".mypy_cache", ".idea", ".routedoc", "dist", "build"]

def byNameOrder {α : Type} (items : List (Text × α)) : List (Text × α) :=
  items.mergeSort fun a b => a.1.le b.1

/-- Whether an entry of a directory is neither a directory nor a link that leads to one. -/
def isFileEntry (fs : Files.System) (path : Files.Path) : Files.Node → Bool
  | .file _ => true
  | .dir _ => false
  | .link _ =>
    match fs.isDir path with
    | .ok isDir => !isDir
    | .error _ => true

def fileNames (fs : Files.System) (dir : Files.Path) (es : List (Text × Files.Node)) : List Text :=
  Text.sorted <| (es.filter fun e => isFileEntry fs (dir.join ⟨.relative, [e.1]⟩) e.2).map (·.1)

mutual

/-- The files below a directory; what a directory holds is not known if its path is too long. -/
def filesBelow (fs : Files.System) (dir : Files.Path) : Files.Node → List Files.Path
  | .dir es =>
    if Files.maxPath < Files.byteLength dir.toText then []
    else
      (fileNames fs dir es).map (fun n => dir.join ⟨.relative, [n]⟩) ++
        ((byNameOrder (subdirectories fs dir es)).map (·.2)).flatten
  | _ => []

/-- The files below every subdirectory that is entered, under its name. -/
def subdirectories (fs : Files.System) (dir : Files.Path) :
    List (Text × Files.Node) → List (Text × List Files.Path)
  | [] => []
  | (n, e) :: es =>
    if excluded.contains n then subdirectories fs dir es
    else (n, filesBelow fs (dir.join ⟨.relative, [n]⟩) e) :: subdirectories fs dir es

end

def controllerFiles (fs : Files.System) (n : Naming) (dir : Files.Path) (tree : Files.Node) :
    List Files.Path :=
  (filesBelow fs dir tree).filter fun p => n.matchesFile p.name

/-- Names under one tag behind those known before; a known name keeps its tag. -/
def addNames (map : ControllerMap) (tag : Text) (names : List Text) : ControllerMap :=
  names.foldl (fun m n => if (m.lookup n).isSome then m else m ++ [(n, tag)]) map

def scanFile {ε : Type} (n : Naming) (map : ControllerMap) (path : Files.Path) :
    Action ε ControllerMap := do
  match (← Action.files).readTextLenient path with
  | .error f =>
    Action.note .warning .controllers
      ("Error scanning controller file " ++ path.name ++ ": " ++ f.message)
    return map
  | .ok t =>
    let tag := tagOfFile n path.name
    let names := handlerNames n t
    if !names.isEmpty then
      Action.note .debug .controllers
        ("Found " ++ Text.ofNat names.length ++ " functions in " ++ path.name ++ " -> " ++ tag)
    return addNames map tag names

def scan (n : Naming) (dir : Files.Path) : Action Files.Failure ControllerMap := do
  let fs ← Action.files
  match ← Action.ofExcept (fs.node? dir) with
  | some (.dir es) =>
    let map ← (controllerFiles fs n dir (.dir es)).foldlM (scanFile n) []
    let tags := Text.distinct (map.map (·.2))
    Action.note .info .controllers
      ("Mapped " ++ Text.ofNat map.length ++ " controller functions to " ++
        Text.ofNat tags.length ++ " controllers")
    return map
  | _ =>
    Action.note .warning .controllers ("Controller directory not found: " ++ dir.toText)
    return []

end RouteAtlas.Owner
