import RouteAtlas.Text.Quoted
import RouteAtlas.Text.Search

/-!
# Options of the command line

The program has two commands. The program itself and each command have options of their own, of
which those for logging are common.
-/

namespace RouteAtlas.CommandLine

/-- Who reads arguments: the program, up to the command, or the command behind it. -/
inductive Scope where
  | program
  | build
  | serve
  deriving DecidableEq

inductive Field where
  | logFile
  | routes
  | controllers
  | catalog
  | baseUrl
  | output
  | host
  | port
  deriving DecidableEq

inductive Effect where
  | help
  | verbose
  | store (field : Field)
  deriving DecidableEq

structure Spelling where
  name : Text
  effect : Effect
  deriving DecidableEq

namespace Field

def flag : Field → Text
  | .logFile => "--log-file"
  | .routes => "--routes"
  | .controllers => "--controllers"
  | .catalog => "--catalog"
  | .baseUrl => "--base-url"
  | .output => "--output"
  | .host => "--host"
  | .port => "--port"

def placeholder : Field → Text
  | .logFile => "FILE"
  | .routes => "ROUTES"
  | .controllers => "CONTROLLERS"
  | .catalog => "CATALOG"
  | .baseUrl => "BASE_URL"
  | .output => "OUTPUT"
  | .host => "HOST"
  | .port => "PORT"

end Field

namespace Effect

def names : Effect → List Text
  | .help => ["-h", "--help"]
  | .verbose => ["-v", "--verbose"]
  | .store f => [f.flag]

def title (e : Effect) : Text := Text.join "/" e.names

end Effect

namespace Scope

def name : Scope → Text
  | .program => "routedoc"
  | .build => "routedoc build"
  | .serve => "routedoc serve"

def fields : Scope → List Field
  | .program => [.logFile]
  | .build => [.logFile, .routes, .controllers, .catalog, .baseUrl, .output]
  | .serve => [.logFile, .routes, .controllers, .catalog, .baseUrl, .host, .port]

/-- What options do, in the order of their declaration. -/
def effects (l : Scope) : List Effect := [.help, .verbose] ++ l.fields.map .store

def spellings (l : Scope) : List Spelling :=
  l.effects.flatMap fun e => e.names.map fun n => ⟨n, e⟩

def spelling? (l : Scope) (name : Text) : Option Spelling :=
  l.spellings.find? fun s => s.name == name

end Scope

inductive UsageError where
  | noCommand
  | unknownCommand (given : Text)
  | unrecognized (given : List Text)
  | ambiguous (given : Text) (candidates : List Text)
  | noValue (option : Effect)
  | unwantedValue (option : Effect) (value : Text)
  | noInteger (value : Text)
  deriving DecidableEq

def UsageError.message : UsageError → Text
  | .noCommand => "the following arguments are required: command"
  | .unknownCommand given =>
    "argument command: invalid choice: " ++ given.quoted ++ " (choose from 'build', 'serve')"
  | .unrecognized given => "unrecognized arguments: " ++ Text.join " " given
  | .ambiguous given candidates =>
    "ambiguous option: " ++ given ++ " could match " ++ Text.join ", " candidates
  | .noValue option => "argument " ++ option.title ++ ": expected one argument"
  | .unwantedValue option value =>
    "argument " ++ option.title ++ ": ignored explicit argument " ++ value.quoted
  | .noInteger value => "argument --port: invalid int value: " ++ value.quoted

inductive Halt where
  | help (scope : Scope)
  | wrong (scope : Scope) (e : UsageError)
  deriving DecidableEq

def Halt.exitCode : Halt → Nat
  | .help _ => 0
  | .wrong _ _ => 2

end RouteAtlas.CommandLine
