import RouteAtlas.CommandLine.Run
import RouteAtlas.Service
import Std.Time.Format

/-!
# The program

The names of the files that a run may read come from standard input, one a line up to an empty line;
the run works on their contents, and files that it changes are written back. Requests to a served
project follow behind the empty line: a method, a space and a URL on each line.
-/

namespace RouteAtlas

namespace Text

/-- The characters of a text; surrogates that stand alone are replaced. -/
def toString (t : Text) : String :=
  String.ofList <| t.map fun c =>
    match c with
    | .char c => c
    | .lone _ => '\uFFFD'

end Text

namespace Files

mutual

def Node.files (place : Place) : Node → List (Place × Bytes)
  | .file bs => [(place, bs)]
  | .dir es => entryFiles place es
  | .link _ => []

def Node.entryFiles (place : Place) : List (Text × Node) → List (Place × Bytes)
  | [] => []
  | (name, n) :: es => n.files (place ++ [name]) ++ entryFiles place es

end

/-- The files of a system that another one does not have with the same content. -/
def System.changes (s old : System) : List (Path × Bytes) :=
  (s.tree.files []).filterMap fun f =>
    let p : Path := ⟨.slash, f.1⟩
    match old.readBytes p with
    | .ok bs => if bs = f.2 then none else some (p, f.2)
    | .error _ => some (p, f.2)

/-- A system with one more file and the directories above it. -/
def System.withFile (s : System) (p : Path) (bs : Bytes) : System :=
  match (s.makeDirs p.parent).bind fun s => s.writeBytes p bs with
  | .ok s => s
  | .error _ => s

end Files

namespace Program

open Files

/-- The lines of a stream up to an empty one or its end. -/
partial def readNames (input : IO.FS.Stream) : IO (List Text) := do
  let line ← input.getLine
  let name := ((Text.ofString line).upTo '\n')
  if name.isEmpty then return [] else return name :: (← readNames input)

def emptySystem : IO System := do
  let working := Path.ofText (Text.ofString ((← IO.getEnv "PWD").getD "/"))
  let home := Text.ofString ((← IO.getEnv "HOME").getD "/")
  let s : System := ⟨.dir [], [], home, []⟩
  let s := (s.makeDirs working).toOption.getD s
  return { s with working := working.names }

def snapshot (names : List Text) : IO System := do
  let mut s ← emptySystem
  for name in names do
    let bytes ← try some <$> IO.FS.readBinFile name.toString catch _ => pure none
    if let some bs := bytes then
      s := s.withFile (Path.ofText name) bs.toList
  return s

def writeBack (s old : System) : IO Unit := do
  for (p, bs) in s.changes old do
    IO.FS.createDirAll p.parent.toText.toString
    IO.FS.writeBinFile p.toText.toString ⟨bs.toArray⟩

def environment : IO Environment := do
  let mut env : Environment := []
  for name in CommandLine.columnsVariable :: Settings.baseUrlVariables do
    if let some value ← IO.getEnv name.toString then
      env := env ++ [(name, Text.ofString value)]
  return env

def stamp : IO Text := do
  return Text.ofString ((← Std.Time.PlainDateTime.now).format "uuuu-MM-dd HH:mm:ss,SSS ")

def request (line : Text) : Except UrlError Request :=
  let line := line.upTo '\n'
  let method := line.upTo ' '
  Request.ofUrl method (line.drop (method.length + 1))

/-- Answers a request with the files as they are now. -/
def respond (names : List Text) (s : Service) (r : Request) : IO Service := do
  let old ← snapshot names
  let ((out, session) : Except Empty (Response × Service) × Session) :=
    (s.answer r).outcome ⟨old, []⟩
  writeBack session.files old
  for r in session.log do
    if r.level.reaches .info then IO.eprint (CommandLine.Sink.consoleLine r).toString
  match out with
  | .ok (response, s) =>
    IO.println (Text.ofNat response.status ++ [CodePoint.char ' '] ++ response.body).toString
    return s

/-- Answers requests until the input ends. -/
partial def serve (input : IO.FS.Stream) (names : List Text) (s : Service) : IO Unit := do
  let line ← input.getLine
  if line.isEmpty then return
  match request (Text.ofString line) with
  | .ok r => serve input names (← respond names s r)
  | .error e =>
    IO.eprintln e.message.toString
    serve input names s

end Program

end RouteAtlas

open RouteAtlas in
/-- Runs the program; the exit code is 1 for failures that have none of their own. -/
def main (args : List String) : IO UInt32 := do
  let input ← IO.getStdin
  let names ← Program.readNames input
  let old ← Program.snapshot names
  let report := CommandLine.run (← Program.environment) (← Program.stamp)
    (args.map Text.ofString) old
  IO.print report.output.toString
  IO.eprint report.errorOutput.toString
  Program.writeBack report.files old
  match report.outcome with
  | .ok (.written _ _) => return 0
  | .ok (.ready s) =>
    Program.serve input names ⟨Project.ofSettings s, none⟩
    return 0
  | .error e =>
    match e.exitCode? with
    | some n => return n.toUInt32
    | none =>
      IO.eprintln e.message.toString
      return 1
