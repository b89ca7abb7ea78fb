import RouteAtlas.Number.Binary
import RouteAtlas.Number.Integer
import RouteAtlas.Text.Case
import RouteAtlas.Text.Search
import RouteAtlas.Yaml.Error

/-!
# Numbers of YAML scalars

Low lines in a number do not count. Integers have a base by their beginning: `0b`, `0x`, or eight
after a leading zero; parts between colons are digits of base sixty. Digits of all scripts count as
digits, and blanks around a number or a part are skipped.
-/

namespace RouteAtlas.Yaml.Number

open Integer (asciiForm dropSpace sign)

def readInt (base : Nat) (t : Text) : Except ScalarError Int :=
  match Integer.ofText base t with
  | .ok n => .ok n
  | .error .malformed => .error (.integer base t)
  | .error (.tooManyDigits count) => .error (.tooManyDigits count)

/-- Digits of base sixty, most significant first. -/
def sixtieths {α : Type} (read : Text → Except ScalarError α) (t : Text) :
    Except ScalarError (List α) :=
  (t.cut ':').mapM read

/-- The text of a number without low lines and sign; it may not be empty. -/
def unsigned (t : Text) : Except ScalarError (Bool × Text) :=
  match t.filter fun c : CodePoint => c != '_' with
  | [] => .error .emptyNumber
  | c :: r =>
    if c = '-' then .ok (true, r) else if c = '+' then .ok (false, r) else .ok (false, c :: r)

def int (t : Text) : Except ScalarError Int := do
  let (negative, t) ← unsigned t
  let n ←
    match t with
    | [] => .error .emptyNumber
    | c :: r =>
      if c = '0' then
        match r with
        | [] => .ok 0
        | b :: r =>
          if b = 'b' then readInt 2 r
          else if b = 'x' then readInt 16 r
          else readInt 8 t
      else if t.contains ':' then do
        let ds ← sixtieths (readInt 10) t
        .ok (ds.foldl (fun n d => 60 * n + d) 0)
      else readInt 10 t
  return if negative then -n else n

def digits (cs : List Char) : List Char × List Char := cs.span Char.isDigit

/-- The power of ten behind `e`; without digits there is none. -/
def exponent (cs : List Char) : Int × List Char :=
  match cs with
  | e :: r =>
    if e = 'e' ∨ e = 'E' then
      let (negative, r) := sign r
      let (ds, rest) := digits r
      if ds.isEmpty then (0, cs)
      else (if negative then -(Decimal.ofDigits ds : Int) else Decimal.ofDigits ds, rest)
    else (0, cs)
  | [] => (0, cs)

/-- A number in decimal notation without its sign, with what is left. -/
def decimal? (negative : Bool) (cs : List Char) : Option (Binary × List Char) :=
  let (whole, r) := digits cs
  let (part, r) := match r with
    | '.' :: r => digits r
    | r => ([], r)
  let ds := whole ++ part
  if ds.isEmpty then none
  else
    let (power, r) := exponent r
    some (Binary.ofDecimal negative (Decimal.ofDigits ds) ds.length (power - part.length), r)

def word? (negative : Bool) (cs : List Char) : Option (Binary × List Char) :=
  let words : List (List Char × Binary) := [("infinity".toList, .infinite negative),
    ("inf".toList, .infinite negative), ("nan".toList, .undefined)]
  let low := cs.map Char.toLower
  (words.find? fun w => w.1.isPrefixOf low).map fun w => (w.2, cs.drop w.1.length)

def readFloat (t : Text) : Except ScalarError Binary :=
  let (negative, cs) := sign (dropSpace (asciiForm t))
  match word? negative cs <|> decimal? negative cs with
  | some (x, r) => if (dropSpace r).isEmpty then .ok x else .error (.float t)
  | none => .error (.float t)

/-- The sum of digits of base sixty, the least significant first. A place value that no float is
near to cannot be used. -/
def sumSixtieths (base : Nat) (sum : Binary) : List Binary → Except ScalarError Binary
  | [] => .ok sum
  | d :: ds =>
    match Binary.round false base 1 with
    | .finite _ _ _ => sumSixtieths (60 * base) (sum.add (d.scale base)) ds
    | _ => .error .hugeFloat

/-- The text of a number in small letters, without low lines and sign. -/
def unsignedFloat (t : Text) : Except ScalarError (Bool × Text) :=
  unsigned (Text.lower (t.filter fun c : CodePoint => c != '_'))

def isUndefinedPoint (t : Text) : Bool :=
  match unsignedFloat t with
  | .ok (_, t) => t == ".nan"
  | .error _ => false

def float (t : Text) : Except ScalarError Binary := do
  let (negative, t) ← unsignedFloat t
  if t = ".nan" then return .undefined
  let x ←
    if t = ".inf" then .ok (.infinite false)
    else if t.contains ':' then do
      let ds ← sixtieths readFloat t
      sumSixtieths 1 Binary.zero ds.reverse
    else readFloat t
  return if negative then x.neg else x

end RouteAtlas.Yaml.Number
