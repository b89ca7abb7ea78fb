import RouteAtlas.CommandLine.Arguments
import RouteAtlas.CommandLine.Help
import RouteAtlas.Project

/-!
# Running commands

A command reads the settings and the manifest of a project and builds its document, or hands the
project over to be served. Records of the log go to the error output and, if there is a log file,
to its end.
-/

namespace RouteAtlas.CommandLine

inductive Failure where
  | halt (h : Halt)
  | home (e : Files.HomeError)
  | logFile (e : Files.AccessError)
  | project (e : ProjectError)
  | notWritten
  deriving DecidableEq

namespace Failure

def message : Failure → Text
  | .halt (.wrong _ e) => e.message
  | .halt (.help _) => []
  | .home e => (SettingsError.ofHome e).message
  | .logFile e => e.message
  | .project e => e.message
  | .notWritten => "routedoc build could not write the document. Run with --verbose for details."

def exitCode? : Failure → Option Nat
  | .halt h => some h.exitCode
  | .project e => if e.isDocumented then some 1 else none
  | .notWritten => some 1
  | _ => none

def errorOutput (c : Command) : Failure → Text
  | .project e =>
    if e.isDocumented then "routedoc " ++ c.name ++ " failed: " ++ e.message ++ "\n" else []
  | .notWritten => Failure.notWritten.message ++ "\n"
  | _ => []

end Failure

inductive Result where
  | written (paths : Nat) (place : Files.Path)
  | ready (settings : Settings)
  deriving DecidableEq

/-- A path as seen from the working directory, if it lies in it. -/
def shownPath (fs : Files.System) (p : Files.Path) : Text :=
  ((p.relativeTo? ⟨.slash, fs.working⟩).getD p).toText

def Result.output (fs : Files.System) : Result → Text
  | .written paths place =>
    "API document with " ++ Text.ofNat paths ++ " paths written to " ++ shownPath fs place ++ "\n"
  | .ready _ => []

/-- Where records go, and from which level on. -/
structure Sink where
  file : Option Files.Path
  least : Level
  stamp : Text

namespace Sink

def shows (k : Sink) (r : Record) : Bool := r.level.reaches k.least

def consoleLine (r : Record) : Text := "[routedoc] " ++ r.level.name ++ " " ++ r.message ++ "\n"

def fileLine (k : Sink) (r : Record) : Text :=
  k.stamp ++ r.level.name ++ " " ++ r.origin.name ++ ": " ++ r.message ++ "\n"

def console (k : Sink) (log : Log) : Text := (log.filter k.shows).flatMap consoleLine

/-- Adds a record to the log file; one that cannot be written is lost. -/
def append (k : Sink) (fs : Files.System) (r : Record) : Files.System :=
  match k.file, Utf8.encode (k.fileLine r) with
  | some p, .ok bs =>
    match fs.appendBytes p bs with
    | .ok fs => fs
    | .error _ => fs
  | _, _ => fs

/-- Records reach the log file when the action is over, and not one by one as they are noted. Only an
action that reads the log file itself could tell: one that scans it as a controller file, or takes
the source of a handler from it. -/
def recorded {ε α : Type} (k : Sink) (a : Action ε α) : Action ε α := do
  let before := (← get).log.length
  let outcome ← Action.attempt a
  modify fun s =>
    { s with files := ((s.log.drop before).filter k.shows).foldl k.append s.files }
  Action.ofExcept outcome

end Sink

namespace Invocation

def least (i : Invocation) : Level := if i.verbose then .debug else .info

/-- Makes the log file, with the directories above it, unless it is there. -/
def openLog (i : Invocation) : Action Failure (Option Files.Path) := do
  match i.logFile.bind Given.proper? with
  | none => return none
  | some t =>
    let fs ← Action.files
    match fs.expandHome (Files.Path.ofText t) with
    | .error e => throw (.home e)
    | .ok p =>
      let file := fs.absolute p
      Action.mapError .logFile (Action.makeDirs p.parent)
      Action.change fun fs => (fs.appendBytes file []).mapError .logFile
      return some file

/-- A path that an argument gives, in place of that of the settings. -/
def pathOr (fs : Files.System) (given : Option (Given Text)) (path : Option Files.Path) :
    Except SettingsError (Option Files.Path) :=
  match given.bind Given.proper? with
  | none => .ok path
  | some t => (Settings.resolved fs (Files.Path.ofText t)).map some

def output? (i : Invocation) : Option (Given Text) :=
  match i.command with
  | .build output => output
  | .serve _ _ => none

/-- The settings of the project with what the arguments say instead. -/
def settings (i : Invocation) (env : Environment) (fs : Files.System) :
    Except SettingsError Settings := do
  let s ← Settings.load fs env (Files.Path.ofText i.sources.path)
  let routes ← pathOr fs i.sources.routes s.routes
  let controllers ← pathOr fs i.sources.controllers (some s.controllers)
  let catalog ← pathOr fs i.sources.catalog s.catalog
  let output ← pathOr fs i.output? (some s.output)
  return { s with
    document := { s.document with
      baseUrl := i.sources.baseUrl.bind Given.proper? <|> s.document.baseUrl }
    routes := routes
    controllers := controllers.getD s.controllers
    catalog := catalog
    output := output.getD s.output }

def build (k : Sink) (s : Settings) (t : Route.Table) : Action Failure Result := do
  let b ← k.recorded (Action.mapError .project s.builder)
  let d ← k.recorded (Action.mapError (fun e => .project (.build e)) (b.assemble t))
  match ← k.recorded (Builder.persist b.store d) with
  | some place => return .written d.paths.length place
  | none => throw .notWritten

def perform (i : Invocation) (env : Environment) (stamp : Text) : Action Failure Result := do
  let k : Sink := ⟨← i.openLog, i.least, stamp⟩
  let s ← Action.ofExcept ((i.settings env (← Action.files)).mapError (.project ∘ .settings))
  let t ← k.recorded (Action.mapError .project s.table)
  match i.command with
  | .build _ => build k s t
  | .serve _ _ => return .ready s

end Invocation

structure Report where
  outcome : Except Failure Result
  output : Text
  errorOutput : Text
  files : Files.System

def columnsVariable : Text := "COLUMNS"

def defaultColumns : Nat := 80

/-- How many columns the output has: the positive number that the environment gives, if it does. -/
def columns (env : Environment) : Nat :=
  match (env.lookup columnsVariable).map (Integer.ofText 10) with
  | some (.ok n) => if 0 < n then n.toNat else defaultColumns
  | _ => defaultColumns

/-- Runs the program on its arguments; `stamp` begins each line of the log file. -/
def run (env : Environment) (stamp : Text) (args : List Text) (fs : Files.System) : Report :=
  match parse args with
  | .error h => ⟨.error (.halt h), h.output (columns env), h.errorOutput (columns env), fs⟩
  | .ok i =>
    let (outcome, s) := (i.perform env stamp).outcome ⟨fs, []⟩
    let log := Sink.console ⟨none, i.least, stamp⟩ s.log
    match outcome with
    | .ok r => ⟨.ok r, r.output fs, log, s.files⟩
    | .error e => ⟨.error e, [], log ++ e.errorOutput i.command, s.files⟩

end RouteAtlas.CommandLine
