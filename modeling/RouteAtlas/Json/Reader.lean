import RouteAtlas.Json.Basic
import RouteAtlas.Number.Decimal
import RouteAtlas.Pairs
import RouteAtlas.Text.Search

/-!
# Reading JSON text

Beside the standard grammar the reader knows `NaN` and the infinities. Of fields with one name the
last counts, at the place of the first. Escapes may write surrogates; two that belong together
become one character. Lists and objects nest only so deep.
-/

namespace RouteAtlas.Json

inductive Container where
  | array
  | object
  deriving DecidableEq

def Container.title : Container → Text
  | .array => "array"
  | .object => "object"

inductive ReadError where
  | malformed
  | tooManyDigits (count : Nat)
  | tooDeep (opened : Container)
  deriving DecidableEq

def ReadError.message : ReadError → Text
  | .malformed => "malformed JSON text"
  | .tooDeep opened =>
    "maximum recursion depth exceeded while decoding a JSON " ++ opened.title ++
      " from a unicode string"
  | .tooManyDigits count =>
    "Exceeds the limit (4300 digits) for integer string conversion: value has " ++
      Text.ofNat count ++ " digits; use sys.set_int_max_str_digits() to increase the limit"

abbrev Read (α : Type) := Except ReadError (α × Text)

def isSpace (c : CodePoint) : Bool := c == ' ' || c == '\t' || c == '\n' || c == '\r'

def skipSpace (t : Text) : Text := t.dropWhile isSpace

def hexValue? (c : CodePoint) : Option Nat :=
  let n := c.toNat
  if 0x30 ≤ n ∧ n ≤ 0x39 then some (n - 0x30)
  else if 0x61 ≤ n ∧ n ≤ 0x66 then some (n - 0x57)
  else if 0x41 ≤ n ∧ n ≤ 0x46 then some (n - 0x37)
  else none

def hex4? : Text → Option (Nat × Text)
  | a :: b :: c :: d :: r => do
    let a ← hexValue? a
    let b ← hexValue? b
    let c ← hexValue? c
    let d ← hexValue? d
    return (4096 * a + 256 * b + 16 * c + d, r)
  | _ => none

/-- The digits of an escape with what follows: a trailing surrogate right behind a leading one
belongs to it. -/
def unicodeEscape? (t : Text) : Option (CodePoint × Text) := do
  let (high, r) ← hex4? t
  let pair := do
    guard (0xD800 ≤ high ∧ high < 0xDC00)
    let r ← Text.after "\\u" r
    let (low, r) ← hex4? r
    guard (0xDC00 ≤ low ∧ low < 0xE000)
    return (CodePoint.ofNat (0x10000 + (high - 0xD800) * 0x400 + (low - 0xDC00)), r)
  return pair.getD (CodePoint.ofNat high, r)

def simpleEscape? (c : CodePoint) : Option CodePoint :=
  if c = '"' ∨ c = '\\' ∨ c = '/' then some c
  else if c = 'b' then some '\x08'
  else if c = 'f' then some '\x0c'
  else if c = 'n' then some '\n'
  else if c = 'r' then some '\r'
  else if c = 't' then some '\t'
  else none

/-- A string behind its opening quote; `fuel` bounds its length. -/
def readString : Nat → Text → Read Text
  | 0, _ => .error .malformed
  | _ + 1, [] => .error .malformed
  | fuel + 1, c :: r =>
    if c = '"' then .ok ([], r)
    else if c = '\\' then
      match r with
      | [] => .error .malformed
      | e :: r =>
        if e = 'u' then
          match unicodeEscape? r with
          | none => .error .malformed
          | some (x, r) => (readString fuel r).map fun p => (x :: p.1, p.2)
        else
          match simpleEscape? e with
          | none => .error .malformed
          | some x => (readString fuel r).map fun p => (x :: p.1, p.2)
    else if c.toNat < 0x20 then .error .malformed
    else (readString fuel r).map fun p => (c :: p.1, p.2)

def digitsAhead (t : Text) : List Char × Text :=
  ((t.takeWhile (·.isAsciiDigit)).filterMap fun c => match c with
    | .char c => some c
    | .lone _ => none, t.dropWhile (·.isAsciiDigit))

/-- A fraction behind an integer: a point and at least one digit. -/
def fraction (t : Text) : List Char × Text :=
  match t with
  | .char '.' :: r =>
    let (ds, rest) := digitsAhead r
    if ds.isEmpty then ([], t) else (ds, rest)
  | _ => ([], t)

/-- An exponent: `e` in either case, perhaps a sign, and at least one digit. -/
def exponent? (t : Text) : Option (Int × Text) :=
  match t with
  | c :: r =>
    if c = 'e' ∨ c = 'E' then
      let (negative, r) := match r with
        | .char '-' :: r => (true, r)
        | .char '+' :: r => (false, r)
        | _ => (false, r)
      let (ds, rest) := digitsAhead r
      if ds.isEmpty then none
      else some (if negative then -(Decimal.ofDigits ds : Int) else Decimal.ofDigits ds, rest)
    else none
  | [] => none

/-- A number without its sign. Integers of too many digits are refused if `bounded`. -/
def readMagnitude (bounded negative : Bool) (t : Text) : Read Json :=
  let (whole, r) := match t with
    | .char '0' :: r => (['0'], r)
    | _ => digitsAhead t
  if whole.isEmpty then .error .malformed
  else
    let (part, r) := fraction r
    match part, exponent? r with
    | [], none =>
      if bounded && Decimal.maxDigits < whole.length then .error (.tooManyDigits whole.length)
      else
        let n : Int := Decimal.ofDigits whole
        .ok (.int (if negative then -n else n), r)
    | _, e =>
      let (power, r) := e.getD (0, r)
      let ds := whole ++ part
      .ok (.float (Binary.ofDecimal negative (Decimal.ofDigits ds) ds.length
        (power - part.length)), r)

def readNumber (bounded : Bool) (t : Text) : Read Json :=
  match t with
  | .char '-' :: r =>
    match Text.after "Infinity" r with
    | some r => .ok (.float (.infinite true), r)
    | none => readMagnitude bounded true r
  | _ => readMagnitude bounded false t

def word? (t : Text) : Option (Json × Text) :=
  let words : List (Text × Json) := [("null", .null), ("true", .bool true), ("false", .bool false),
    ("NaN", .float .undefined), ("Infinity", .float (.infinite false))]
  words.findSome? fun w => (Text.after w.1 t).map fun r => (w.2, r)

/-- How many lists and objects may be open at once. -/
def maxDepth : Nat := 990

mutual

/-- A value at the very beginning; `room` more containers may open and `fuel` bounds the steps. -/
def readValue (bounded : Bool) (room : Nat) : Nat → Text → Except ReadError (Json × Text)
  | 0, _ => .error .malformed
  | fuel + 1, t =>
    match t with
    | .char '"' :: r => (readString fuel r).map fun p => (.str p.1, p.2)
    | .char '[' :: r =>
      if room = 0 then .error (.tooDeep .array)
      else
        match skipSpace r with
        | .char ']' :: r => .ok (.list [], r)
        | r => (readItems bounded (room - 1) fuel r).map fun p => (.list p.1, p.2)
    | .char '{' :: r =>
      if room = 0 then .error (.tooDeep .object)
      else
        match skipSpace r with
        | .char '}' :: r => .ok (.obj [], r)
        | r => (readFields bounded (room - 1) fuel r).map fun p => (.obj (Pairs.ofList p.1), p.2)
    | t =>
      match word? t with
      | some p => .ok p
      | none => readNumber bounded t

def readItems (bounded : Bool) (room : Nat) : Nat → Text → Except ReadError (List Json × Text)
  | 0, _ => .error .malformed
  | fuel + 1, t => do
    let (v, r) ← readValue bounded room fuel t
    match skipSpace r with
    | .char ']' :: r => return ([v], r)
    | .char ',' :: r =>
      let (vs, r) ← readItems bounded room fuel (skipSpace r)
      return (v :: vs, r)
    | _ => .error .malformed

def readFields (bounded : Bool) (room : Nat) :
    Nat → Text → Except ReadError (List (Text × Json) × Text)
  | 0, _ => .error .malformed
  | fuel + 1, t =>
    match t with
    | .char '"' :: r => do
      let (k, r) ← readString fuel r
      match skipSpace r with
      | .char ':' :: r =>
        let (v, r) ← readValue bounded room fuel (skipSpace r)
        match skipSpace r with
        | .char '}' :: r => return ([(k, v)], r)
        | .char ',' :: r =>
          let (fs, r) ← readFields bounded room fuel (skipSpace r)
          return ((k, v) :: fs, r)
        | _ => .error .malformed
      | _ => .error .malformed
    | _ => .error .malformed

end

/-- The value that a whole text writes. -/
def ofText (bounded : Bool) (t : Text) : Except ReadError Json := do
  let (v, r) ← readValue bounded maxDepth (2 * t.length + 2) (skipSpace t)
  if (skipSpace r).isEmpty then return v else .error .malformed

end RouteAtlas.Json
