import RouteAtlas.CommandLine.Options
import RouteAtlas.Text.Fill

/-!
# Usage and help

Both are set for a number of columns, of which the last two stay free. The help lists arguments on
the left and says what they are for in a column on the right.
-/

namespace RouteAtlas.CommandLine

def Field.purpose : Field → Text
  | .logFile => "Also write timestamped log records to FILE."
  | .routes => "Route manifest (YAML or JSON) describing the live routes."
  | .controllers => "Directory scanned for controller modules."
  | .catalog => "Entity schema catalog (YAML or JSON)."
  | .baseUrl => "Server URL declared in the document."
  | .output => "Where to write the document (.json or .yaml)."
  | .host => "Interface to bind."
  | .port => "Port to listen on."

namespace Effect

def purpose : Effect → Text
  | .help => "show this help message and exit"
  | .verbose => "Increase log verbosity for troubleshooting."
  | .store f => f.purpose

def operand : Effect → Text
  | .store f => " " ++ f.placeholder
  | _ => []

def form (e : Effect) : Text := "[" ++ e.names.headD [] ++ e.operand ++ "]"

/-- How an option is given, under all its names. -/
def forms (e : Effect) : Text := Text.join ", " (e.names.map (· ++ e.operand))

end Effect

/-- An argument in a list of the help, indented by `depth`. -/
structure Listed where
  depth : Nat
  form : Text
  purpose : Text

def spaces (n : Nat) : Text := List.replicate n ' '

namespace Listed

/-- The argument as lines, what it is for beginning at a column; it does so on the line of the
argument if there are two spaces before it. -/
def lines (column width : Nat) (a : Listed) : List Text :=
  let shown := spaces a.depth ++ a.form
  match Text.wrapped width [] (a.purpose.cut ' ') with
  | [] => [shown]
  | first :: rest =>
    let rest := rest.map (spaces column ++ ·)
    if shown.length + 2 ≤ column then (shown ++ spaces (column - shown.length) ++ first) :: rest
    else shown :: (spaces column ++ first) :: rest

end Listed

namespace Scope

def places : Scope → List Listed
  | .program => [
      ⟨2, "\x7bbuild,serve\x7d", ""⟩,
      ⟨4, "build", "Build the API document and write it to disk."⟩,
      ⟨4, "serve", "Serve the API document over HTTP."⟩]
  | _ => [⟨2, "path",
      "Project root containing .routedoc.yml (defaults to current directory)."⟩]

def placeForms : Scope → List Text
  | .program => ["\x7bbuild,serve\x7d", "..."]
  | _ => ["[path]"]

def options (l : Scope) : List Listed := l.effects.map fun e => ⟨2, e.forms, e.purpose⟩

def description : Scope → Text
  | .program => "Generate OpenAPI documents by statically analyzing route handlers."
  | _ => []

def usageLead : Text := "usage: "

/-- How arguments are given. What does not fit on one line is set in lines behind the name, or below
it if the name takes more than three quarters of the width. -/
def usageLines (columns : Nat) (l : Scope) : List Text :=
  let width := columns - 2
  let lead := usageLead.length
  let options := l.effects.map Effect.form
  let whole := usageLead ++ Text.join " " (l.name :: options ++ l.placeForms)
  let indented := fun (n : Nat) (ts : List Text) => ts.map (spaces n ++ ·)
  if whole.length ≤ width then [whole]
  else if 4 * (lead + l.name.length) ≤ 3 * width then
    let indent := lead + l.name.length + 1
    let set := Text.packed (width - lead) (width - indent) [] (l.name :: options)
    let places := Text.packed (width - indent) (width - indent) [] l.placeForms
    (usageLead ++ set.headD []) :: indented indent (set.tail ++ places)
  else
    let set := Text.packed (width - lead) (width - lead) []
    let together := set (options ++ l.placeForms)
    let below := if together.length ≤ 1 then together else set options ++ set l.placeForms
    (usageLead ++ l.name) :: indented lead below

def listing (columns : Nat) (l : Scope) (heading : Text) (ls : List Listed) : List Text :=
  let widest := ((l.places ++ l.options).map fun a => a.form.length + 4).foldl max 0
  let column := min widest (min 24 (max (columns - 22) 4))
  heading :: ls.flatMap (Listed.lines column (max (columns - 2 - column) 11))

def unlines (ls : List Text) : Text := ls.flatMap (· ++ "\n")

def usage (columns : Nat) (l : Scope) : Text := unlines (l.usageLines columns)

def help (columns : Nat) (l : Scope) : Text :=
  let parts := [
    l.usageLines columns,
    Text.wrapped (max (columns - 2) 11) [] (l.description.cut ' '),
    l.listing columns "positional arguments:" l.places,
    l.listing columns "options:" l.options]
  Text.join "\n" ((parts.filter fun p => !p.isEmpty).map unlines)

end Scope

namespace Halt

def output (columns : Nat) : Halt → Text
  | .help l => l.help columns
  | .wrong _ _ => []

def errorOutput (columns : Nat) : Halt → Text
  | .help _ => []
  | .wrong l e => l.usage columns ++ l.name ++ ": error: " ++ e.message ++ "\n"

end Halt

end RouteAtlas.CommandLine
