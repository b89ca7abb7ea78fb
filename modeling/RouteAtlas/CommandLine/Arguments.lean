import RouteAtlas.CommandLine.Options
import RouteAtlas.Number.Integer

/-!
# Reading arguments

Options may be abbreviated while it is clear which one is meant, and one-letter options may stand
together. Behind a double hyphen nothing is an option. Negative numbers and words with a space are
no options.
-/

namespace RouteAtlas.CommandLine

inductive Word where
  | plain (t : Text)
  | separator
  | option (s : Spelling) (value : Option Text)
  | unknown (t : Text)
  deriving DecidableEq

def Word.isOption : Word → Bool
  | .option _ _ => true
  | .unknown _ => true
  | _ => false

/-- A number sign and digits, perhaps with a point before some of them; a line feed may follow. -/
def isNegativeNumber (t : Text) : Bool :=
  let atEnd := fun r : Text => r.isEmpty || r == "\n"
  match t with
  | .char '-' :: r =>
    let rest := r.dropWhile CodePoint.isDigit
    (rest.length < r.length && atEnd rest) ||
      (match rest with
        | .char '.' :: r =>
          let rest := r.dropWhile CodePoint.isDigit
          rest.length < r.length && atEnd rest
        | _ => false)
  | _ => false

/-- A text cut at its first equals sign, if there is one. -/
def assignment? (t : Text) : Option (Text × Text) :=
  let name := t.upTo '='
  if name.length < t.length then some (name, t.drop (name.length + 1)) else none

/-- The options that an argument may mean when it is not a full name. -/
def candidates (l : Scope) (t : Text) : List (Spelling × Option Text) :=
  match t with
  | _ :: c :: rest =>
    if c = '-' then
      let (stem, value) := match assignment? t with
        | some (n, v) => (n, some v)
        | none => (t, none)
      (l.spellings.filter fun s => s.name.startsWith stem).map fun s => (s, value)
    else
      l.spellings.filterMap fun s =>
        if s.name = t.take 2 then some (s, some rest)
        else if s.name.startsWith t then some (s, none)
        else none
  | _ => []

def readWord (l : Scope) (t : Text) : Except UsageError Word :=
  if t.head? != some (.char '-') then .ok (.plain t)
  else
    match l.spelling? t with
    | some s => .ok (.option s none)
    | none =>
      if t.length = 1 then .ok (.plain t)
      else
        let given := (assignment? t).bind fun a =>
          (l.spelling? a.1).map fun s => Word.option s (some a.2)
        match given with
        | some w => .ok w
        | none =>
          match candidates l t with
          | [(s, value)] => .ok (.option s value)
          | [] => .ok (if isNegativeNumber t || t.contains ' ' then .plain t else .unknown t)
          | many => .error (.ambiguous t (many.map fun c => c.1.name))

def readWords (l : Scope) : List Text → Except UsageError (List Word)
  | [] => .ok []
  | t :: ts =>
    if t = "--" then .ok (.separator :: ts.map .plain)
    else do
      let w ← readWord l t
      let ws ← readWords l ts
      return w :: ws

/-- What is given for an option: a value, or nothing where a double hyphen stands for it. -/
inductive Given (α : Type) where
  | value (a : α)
  | nothing
  deriving DecidableEq

def Given.proper? : Given Text → Option Text
  | .value t => if t.isEmpty then none else some t
  | .nothing => none

/-- What has been read at one level; the latest values come first. `main` is what stands in the
place of the command or of the path. -/
structure Reading where
  verbose : Bool := false
  values : List (Field × Given Text) := []
  extra : List Text := []
  main : Option (List Text) := none

/-- The effects of the one-letter options that stand together, and whether the last of them is left
without a value that it may need. -/
def cluster (s : Spelling) (value : Text) :
    Nat → Scope → Except UsageError (List (Effect × Option Text))
  | 0, _ => .error (.unwantedValue s.effect value)
  | fuel + 1, l =>
    match s.effect with
    | .store f => .ok [(.store f, some value)]
    | e =>
      match value with
      | c :: rest =>
        if s.name.startsWith "--" then .error (.unwantedValue e value)
        else
          match l.spelling? [.char '-', c] with
          | none => .error (.unwantedValue e value)
          | some next =>
            if rest.isEmpty then .ok [(e, none), (next.effect, none)]
            else (cluster next rest fuel l).map ((e, none) :: ·)
      | [] => .error (.unwantedValue e value)

def effects (l : Scope) (s : Spelling) :
    Option Text → Except UsageError (List (Effect × Option Text))
  | none => .ok [(s.effect, none)]
  | some value => cluster s value (value.length + 1) l

/-- Gives the last effect the next word as its value, if it needs one. -/
def complete : List (Effect × Option Text) → List Word →
    Except UsageError (List (Effect × Option Text) × List Word)
  | [(.store f, none)], ws =>
    match ws with
    | .plain t :: ws => .ok ([(.store f, some t)], ws)
    | _ => .error (.noValue (.store f))
  | e :: es, ws => (complete es ws).map fun p => (e :: p.1, p.2)
  | [], ws => .ok ([], ws)

/-- Takes effects in order; help ends the reading at once. -/
def take (l : Scope) (r : Reading) : List (Effect × Option Text) → Except Halt Reading
  | [] => .ok r
  | (.help, _) :: _ => .error (.help l)
  | (.verbose, _) :: es => take l { r with verbose := true } es
  | (.store f, value) :: es =>
    let t := value.getD []
    if t = "--" then take l { r with values := (f, .nothing) :: r.values } es
    else
      match f, Integer.ofText 10 t with
      | .port, .error _ => .error (.wrong l (.noInteger t))
      | _, _ => take l { r with values := (f, .value t) :: r.values } es

def Word.text : Word → Text
  | .plain t => t
  | .separator => "--"
  | .option s _ => s.name
  | .unknown t => t

def isSeparator : Word → Bool
  | .separator => true
  | _ => false

/-- The path at the beginning of words, with the separators around it. -/
def pathWords (ws : List (Text × Word)) : List Text × List (Text × Word) :=
  let before := ws.takeWhile fun w => isSeparator w.2
  let ws := ws.dropWhile fun w => isSeparator w.2
  let (own, ws) := match ws with
    | (t, .plain _) :: ws => ([t], ws)
    | ws => ([], ws)
  let behind := ws.takeWhile fun w => isSeparator w.2
  (before.map (·.1) ++ own ++ behind.map (·.1), ws.dropWhile fun w => isSeparator w.2)

/-- What stands in the main place: a command with everything behind it, or a path. -/
def mainWords (l : Scope) (ws : List (Text × Word)) : Option (List Text × List (Text × Word)) :=
  match l with
  | .program =>
    match ws.dropWhile fun w => isSeparator w.2 with
    | (_, .plain _) :: _ => some (ws.map (·.1), [])
    | _ => none
  | _ => some (pathWords ws)

/-- Reads words up to their end; `fuel` bounds their number. -/
def walk (l : Scope) : Nat → List (Text × Word) → Reading → Except Halt Reading
  | 0, _, r => .ok r
  | fuel + 1, ws, r =>
    match ws with
    | (_, .option s value) :: rest =>
      match (effects l s value).bind fun es => complete es (rest.map (·.2)) with
      | .error e => .error (.wrong l e)
      | .ok (es, left) =>
        match take l r es with
        | .error h => .error h
        | .ok r => walk l fuel (rest.drop (rest.length - left.length)) r
    | (t, .unknown _) :: rest => walk l fuel rest { r with extra := r.extra ++ [t] }
    | ws =>
      let main := if r.main.isNone then mainWords l ws else none
      match main with
      | some (own, rest) => walk l fuel rest { r with main := some own }
      | none =>
        let strays := ws.takeWhile fun w => !w.2.isOption
        if strays.isEmpty then .ok r
        else
          walk l fuel (ws.drop strays.length) { r with extra := r.extra ++ strays.map (·.1) }

def readScope (l : Scope) (args : List Text) : Except Halt Reading := do
  let ws ← (readWords l args).mapError (Halt.wrong l)
  walk l (2 * args.length + 2) (args.zip ws) {}

structure Sources where
  path : Text
  routes : Option (Given Text)
  controllers : Option (Given Text)
  catalog : Option (Given Text)
  baseUrl : Option (Given Text)
  deriving DecidableEq

inductive Command where
  | build (output : Option (Given Text))
  | serve (host : Given Text) (port : Given Int)
  deriving DecidableEq

def Command.name : Command → Text
  | .build _ => "build"
  | .serve _ _ => "serve"

structure Invocation where
  verbose : Bool
  logFile : Option (Given Text)
  sources : Sources
  command : Command
  deriving DecidableEq

def scope? (command : Text) : Option Scope :=
  if command = "build" then some .build else if command = "serve" then some .serve else none

namespace Reading

def value? (r : Reading) (f : Field) : Option (Given Text) := r.values.lookup f

/-- The path: the first separator is none. -/
def path (r : Reading) : Text := (((r.main.getD []).erase "--").head?).getD "."

def port (r : Reading) : Given Int :=
  match r.value? .port with
  | some (.value t) => .value ((Integer.ofText 10 t).toOption.getD 0)
  | some .nothing => .nothing
  | none => .value 8000

def command (l : Scope) (r : Reading) : Command :=
  match l with
  | .serve => .serve ((r.value? .host).getD (.value "127.0.0.1")) r.port
  | _ => .build (r.value? .output)

def invocation (program : Reading) (l : Scope) (r : Reading) : Invocation := {
  verbose := program.verbose || r.verbose
  logFile := r.value? .logFile <|> program.value? .logFile
  sources := ⟨r.path, r.value? .routes, r.value? .controllers, r.value? .catalog, r.value? .baseUrl⟩
  command := r.command l }

end Reading

def parse (args : List Text) : Except Halt Invocation := do
  let program ← readScope .program args
  match program.main with
  | none => .error (.wrong .program .noCommand)
  | some own =>
    let command := own.headD []
    match scope? command with
    | none => .error (.wrong .program (.unknownCommand command))
    | some l =>
      let r ← readScope l own.tail
      let extra := program.extra ++ r.extra
      if extra.isEmpty then return program.invocation l r
      else .error (.wrong .program (.unrecognized extra))

end RouteAtlas.CommandLine
