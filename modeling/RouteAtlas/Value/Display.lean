import RouteAtlas.Number.Shortest
import RouteAtlas.Text.Quoted
import RouteAtlas.Text.Search
import RouteAtlas.Value.Basic

/-!
# Values in messages and as texts

`shown` writes a value so that its kind can be seen, `plain` writes it as a text: a text stands for
itself and a point in time is written in the standard form. A collection that stands inside itself
is written as points there. Integers with too many digits have no text.
-/

namespace RouteAtlas

namespace Date

def standard (d : Date) : Text :=
  Decimal.padded 4 d.year ++ "-" ++ Decimal.padded 2 d.month ++ "-" ++ Decimal.padded 2 d.day

end Date

namespace Moment

def offsetText (minutes : Int) : Text :=
  let n := minutes.natAbs
  let sign : Text := if minutes < 0 then "-" else "+"
  sign ++ Decimal.padded 2 (n / 60) ++ ":" ++ Decimal.padded 2 (n % 60)

/-- Date and time with `between` between them, the fraction only if there is one. -/
def standard (between : Char) (m : Moment) : Text :=
  let fraction : Text := if m.micro = 0 then [] else "." ++ Decimal.padded 6 m.micro
  let offset : Text := (m.offset.map offsetText).getD []
  m.date.standard ++ [CodePoint.char between] ++ Decimal.padded 2 m.hour ++ ":" ++
    Decimal.padded 2 m.minute ++ ":" ++ Decimal.padded 2 m.second ++ fraction ++ offset

/-- A span in days and seconds, of which only the days may be negative. -/
def shownSpan (minutes : Int) : Text :=
  let seconds := minutes * 60
  let days := seconds / 86400
  let rest := seconds % 86400
  let parts : List Text :=
    (if days = 0 then [] else ["days=" ++ Text.ofInt days]) ++
    (if rest = 0 then [] else ["seconds=" ++ Text.ofInt rest])
  let all : Text := if parts.isEmpty then "0" else Text.join ", " parts
  "datetime.timedelta(" ++ all ++ ")"

def shownOffset (minutes : Int) : Text :=
  if minutes = 0 then "datetime.timezone.utc"
  else "datetime.timezone(" ++ shownSpan minutes ++ ")"

/-- Seconds and fraction are left out while they are zero. -/
def shown (m : Moment) : Text :=
  let all := [m.date.year, m.date.month, m.date.day, m.hour, m.minute] ++
    (if m.micro = 0 then (if m.second = 0 then [] else [m.second]) else [m.second, m.micro])
  let zone : Text := (m.offset.map fun o => ", tzinfo=" ++ shownOffset o).getD []
  "datetime.datetime(" ++ Text.join ", " (all.map Text.ofNat) ++ zone ++ ")"

end Moment

inductive DisplayError where
  | tooManyDigits
  | tooDeep
  deriving DecidableEq

def DisplayError.message : DisplayError → Text
  | .tooManyDigits =>
    "Exceeds the limit (4300 digits) for integer string conversion; " ++
      "use sys.set_int_max_str_digits() to increase the limit"
  | .tooDeep => "maximum recursion depth exceeded while getting the repr of an object"

namespace Value

def shownScalar : Value → Except DisplayError Text
  | .null => .ok "None"
  | .bool b => .ok (if b then "True" else "False")
  | .int n => if Decimal.tooLong n.natAbs then .error .tooManyDigits else .ok (Text.ofInt n)
  | .float x => .ok x.text
  | .str t => .ok t.quoted
  | .bytes bs => .ok (Text.quotedBytes bs)
  | .date d =>
    .ok ("datetime.date(" ++ Text.join ", " ([d.year, d.month, d.day].map Text.ofNat) ++ ")")
  | .moment m => .ok m.shown
  | .collection _ => .ok []

end Value

namespace Collection

/-- A collection of parts that are written already. -/
def shown (parts : List Text) : Collection → Text
  | .list _ => "[" ++ Text.join ", " parts ++ "]"
  | .pair _ _ => "(" ++ Text.join ", " parts ++ ")"
  | .set _ => if parts.isEmpty then "set()" else "\x7b" ++ Text.join ", " parts ++ "\x7d"
  | .map _ => "\x7b" ++ Text.join ", " parts ++ "\x7d"

def kind : Collection → Text
  | .list _ => "list"
  | .pair _ _ => "tuple"
  | .set _ => "set"
  | .map _ => "dict"

end Collection

namespace Collections

/-- How deep collections may be nested in a text. -/
def maxDepth : Nat := 970

/-- A value at a depth at which `fuel` levels are left, inside the collections at the places
`around`. -/
def shownIn (cs : Collections) (around : List Nat) : Nat → Value → Except DisplayError Text
  | 0, _ => .error .tooDeep
  | fuel + 1, v =>
    match v with
    | .collection place =>
      match cs[place]? with
      | none => .ok []
      | some c =>
        if place ∈ around then .ok (c.shown ["..."])
        else do
          let part := shownIn cs (place :: around) fuel
          let parts ←
            match c with
            | .list vs => vs.mapM part
            | .pair a b => [a, b].mapM part
            | .set vs => vs.mapM part
            | .map es => es.mapM fun e => do return (← part e.1) ++ ": " ++ (← part e.2)
          return c.shown parts
    | v => v.shownScalar

def shown (cs : Collections) (v : Value) : Except DisplayError Text := cs.shownIn [] maxDepth v

def kind (cs : Collections) : Value → Text
  | .null => "NoneType"
  | .bool _ => "bool"
  | .int _ => "int"
  | .float _ => "float"
  | .str _ => "str"
  | .bytes _ => "bytes"
  | .date _ => "datetime.date"
  | .moment _ => "datetime.datetime"
  | .collection place => ((cs[place]?).map Collection.kind).getD []

def plain (cs : Collections) : Value → Except DisplayError Text
  | .str t => .ok t
  | .date d => .ok d.standard
  | .moment m => .ok (m.standard ' ')
  | v => cs.shown v

end Collections

end RouteAtlas
