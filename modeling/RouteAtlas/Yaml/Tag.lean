import RouteAtlas.Text.Case
import RouteAtlas.Yaml.Timestamp

/-!
# Tags of YAML nodes

A tag says how a node is read. A plain scalar without a tag gets one by its form: as a truth value,
a number, nothing, a timestamp or one of two marks, and else as a text.
-/

namespace RouteAtlas.Yaml

inductive Tag where
  | null
  | bool
  | int
  | float
  | binary
  | timestamp
  | omap
  | pairs
  | set
  | str
  | seq
  | map
  | merge
  | value
  | unknown
  deriving DecidableEq

namespace Tag

def standard : Text := "tag:yaml.org,2002:"

def names : List (Text × Tag) := [
  ("null", .null), ("bool", .bool), ("int", .int), ("float", .float), ("binary", .binary),
  ("timestamp", .timestamp), ("omap", .omap), ("pairs", .pairs), ("set", .set), ("str", .str),
  ("seq", .seq), ("map", .map), ("merge", .merge), ("value", .value)]

def ofText (t : Text) : Tag := ((Text.after standard t).bind fun n => names.lookup n).getD .unknown

def isDigitOrLine (c : Char) : Bool := c.isDigit || c == '_'

def dropSign : List Char → List Char
  | '+' :: r => r
  | '-' :: r => r
  | cs => cs

def someAll (p : Char → Bool) (cs : List Char) : Bool := !cs.isEmpty && cs.all p

/-- Digits and low lines, of which the first is a digit that satisfies `p`; what is left. -/
def number? (p : Char → Bool) (cs : List Char) : Option (List Char) :=
  match cs with
  | c :: r => if c.isDigit && p c then some (r.dropWhile isDigitOrLine) else none
  | [] => none

def isExponent : List Char → Bool
  | [] => true
  | e :: s :: r => (e == 'e' || e == 'E') && (s == '+' || s == '-') && someAll Char.isDigit r
  | _ => false

/-- Behind a colon: one digit, or two of which the first is at most five. -/
def sixtieth? (cs : List Char) : Option (List Char) :=
  match cs with
  | ':' :: a :: b :: r =>
    if !a.isDigit then none
    else if b.isDigit then (if a ≤ '5' then some r else none)
    else some (b :: r)
  | [':', a] => if a.isDigit then some [] else none
  | _ => none

/-- What is left behind as many parts of a number of base sixty as there are. -/
def sixtieths : Nat → List Char → List Char
  | 0, cs => cs
  | fuel + 1, cs =>
    match sixtieth? cs with
    | some r => sixtieths fuel r
    | none => cs

/-- As `sixtieths`, for at least one part. -/
def someSixtieths? (cs : List Char) : Option (List Char) :=
  (sixtieth? cs).map (sixtieths cs.length)

def isFloat (cs : List Char) : Bool :=
  let unsigned := dropSign cs
  let pointed := fun r : List Char => match r with
    | '.' :: r => some (r.dropWhile isDigitOrLine)
    | _ => none
  ((number? (fun _ => true) unsigned).bind pointed).any isExponent ||
    (match cs with
      | '.' :: c :: r => c.isDigit && isExponent (r.dropWhile isDigitOrLine)
      | _ => false) ||
    (((number? (fun _ => true) unsigned).bind someSixtieths?).bind pointed).any List.isEmpty ||
    [".inf".toList, ".Inf".toList, ".INF".toList].contains unsigned ||
    [".nan".toList, ".NaN".toList, ".NAN".toList].contains cs

def isInt (cs : List Char) : Bool :=
  let unsigned := dropSign cs
  let isBinary := fun c : Char => c == '0' || c == '1' || c == '_'
  let isOctal := fun c : Char => ('0' ≤ c && c ≤ '7') || c == '_'
  let isHex := fun c : Char =>
    c.isDigit || ('a' ≤ c && c ≤ 'f') || ('A' ≤ c && c ≤ 'F') || c == '_'
  (match unsigned with
    | '0' :: 'b' :: r => someAll isBinary r
    | _ => false) ||
    (match unsigned with
      | '0' :: r => r.all isOctal
      | _ => false) ||
    (match unsigned with
      | '0' :: 'x' :: r => someAll isHex r
      | _ => false) ||
    (number? (· != '0') unsigned).any fun r => r.isEmpty || (someSixtieths? r).any List.isEmpty

def truths : List (Text × Bool) := [("yes", true), ("no", false), ("true", true), ("false", false),
  ("on", true), ("off", false)]

def spellings (w : Text) : List Text := [w, w.capitalized, w.upper]

def isTimestamp (cs : List Char) : Bool :=
  (Timestamp.ofChars? cs).any fun t => t.time.isSome || cs.length == 10

def dropFinalBreak (t : Text) : Text :=
  if t.getLast? = some (.char '\n') then t.dropLast else t

def ofForm (t : Text) : Tag :=
  if t = "\n" then .str
  else
    let t := dropFinalBreak t
    match t.chars? with
    | none => .str
    | some cs =>
      if truths.any fun w => (spellings w.1).contains t then .bool
      else if isFloat cs then .float
      else if isInt cs then .int
      else if t = "<<" then .merge
      else if t = [] ∨ t = "~" ∨ (spellings "null").contains t then .null
      else if isTimestamp cs then .timestamp
      else if t = "=" then .value
      else if t = "!" ∨ t = "&" ∨ t = "*" then .unknown
      else .str

end Tag

end RouteAtlas.Yaml
