import RouteAtlas.Json.Basic
import RouteAtlas.Number.Shortest

/-!
# JSON text of document values

Objects keep the order of their fields. Characters outside of ASCII are written as they are, unless
the layout asks for escapes.
-/

namespace RouteAtlas.Json

structure Layout where
  between : Text
  afterKey : Text
  /-- Every item on a line of its own, this much deeper than what holds it. -/
  indent : Option Nat
  ascii : Bool

namespace Layout

def line : Layout := ⟨", ", ": ", none, false⟩

def compact : Layout := ⟨",", ":", none, false⟩

/-- One item a line, two blanks a level. -/
def indented : Layout := ⟨",", ": ", some 2, false⟩

end Layout

def hexDigit (n : Nat) : CodePoint := .char (Nat.digitChar (n % 16))

def escape16 (n : Nat) : Text :=
  [.char '\\', .char 'u', hexDigit (n / 4096), hexDigit (n / 256), hexDigit (n / 16), hexDigit n]

def escaped (ascii : Bool) (c : CodePoint) : Text :=
  let n := c.toNat
  if c = '"' then "\\\""
  else if c = '\\' then "\\\\"
  else if c = '\n' then "\\n"
  else if c = '\r' then "\\r"
  else if c = '\t' then "\\t"
  else if n = 0x0C then "\\f"
  else if n = 0x08 then "\\b"
  else if n < 0x20 then escape16 n
  else if ascii && 0x7F ≤ n then
    if 0x10000 ≤ n then
      escape16 (0xD800 + (n - 0x10000) / 0x400) ++ escape16 (0xDC00 + (n - 0x10000) % 0x400)
    else escape16 n
  else [c]

def quoted (ascii : Bool) (t : Text) : Text := "\"" ++ t.flatMap (escaped ascii) ++ "\""

def ofBinary : Binary → Text
  | .undefined => "NaN"
  | .infinite negative => if negative then "-Infinity" else "Infinity"
  | x => x.text

/-- A line break and the blanks of a level, if items stand on lines of their own. -/
def Layout.newline (l : Layout) (level : Nat) : Text :=
  match l.indent with
  | none => []
  | some n => .char '\n' :: List.replicate (n * level) (.char ' ')

mutual

def render (l : Layout) (level : Nat) : Json → Text
  | .null => "null"
  | .bool b => if b then "true" else "false"
  | .int n => Text.ofInt n
  | .float x => ofBinary x
  | .str t => quoted l.ascii t
  | .list [] => "[]"
  | .list (v :: vs) =>
    "[" ++ l.newline (level + 1) ++ render l (level + 1) v ++ renderItems l (level + 1) vs ++
      l.newline level ++ "]"
  | .obj [] => "\x7b\x7d"
  | .obj ((k, v) :: fs) =>
    "\x7b" ++ l.newline (level + 1) ++ quoted l.ascii k ++ l.afterKey ++ render l (level + 1) v ++
      renderFields l (level + 1) fs ++ l.newline level ++ "\x7d"
  | .shared _ v => render l level v

def renderItems (l : Layout) (level : Nat) : List Json → Text
  | [] => []
  | v :: vs => l.between ++ l.newline level ++ render l level v ++ renderItems l level vs

def renderFields (l : Layout) (level : Nat) : List (Text × Json) → Text
  | [] => []
  | (k, v) :: fs =>
    l.between ++ l.newline level ++ quoted l.ascii k ++ l.afterKey ++ render l level v ++
      renderFields l level fs

end

def toText (l : Layout) (v : Json) : Text := render l 0 v

end RouteAtlas.Json
