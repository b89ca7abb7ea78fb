import RouteAtlas.Number.Binary
import RouteAtlas.Number.Decimal

/-!
# Shortest decimal notation

The notation of a binary number has the fewest digits that read back as the number, and among those
the nearest to it. It is positional from `0.0001` up to sixteen digits, and has an exponent of at
least two digits otherwise.
-/

namespace RouteAtlas.Binary

def leadingExponent (num den : Nat) : Int :=
  if den ≤ num then ((Nat.toDigits 10 (num / den)).length : Int) - 1
  else negative 400 1 num
where
  negative : Nat → Nat → Nat → Int
  | 0, k, _ => -(k : Int)
  | fuel + 1, k, n => if den ≤ 10 * n then -(k : Int) else negative fuel (k + 1) (10 * n)

/-- Of the two neighbours of `m * 2 ^ q` on the grid of step `10 ^ k`, the nearer one that reads
back as that number; if both are equally near, the even one. Distances are compared in units of
`2 ^ (q - 2)`. -/
def onGrid (m : Nat) (q k : Int) : Option Nat :=
  let (u, v) := powerParts 2 (q - 2)
  let (x, y) := powerParts 10 k
  -- a grid point `c` is `c * x / y`, the number is `4 * m * u / v`
  let gridUnit := x * v
  let ownUnit := u * y
  let value := 4 * m * ownUnit
  let low := (4 * m - (if m = leastMantissa ∧ -1074 < q then 1 else 2)) * ownUnit
  let high := (4 * m + 2) * ownUnit
  let c := value / gridUnit
  let reads := fun c : Nat =>
    let p := c * gridUnit
    if m % 2 = 0 then low ≤ p && p ≤ high else low < p && p < high
  let down := value - c * gridUnit
  let up := (c + 1) * gridUnit - value
  let lower := down < up || (down = up && c % 2 = 0)
  if reads c && (!reads (c + 1) || lower) && 0 < c then some c
  else if reads (c + 1) then some (c + 1)
  else none

/-- The shortest digits and the power of ten they count. -/
def shortest (m : Nat) (q : Int) : Nat × Int :=
  let (num, den) := fraction m q
  let lead := leadingExponent num den
  search lead 17 1
where
  search (lead : Int) : Nat → Nat → Nat × Int
  | 0, n => (m, lead - n)
  | fuel + 1, n =>
    let k := lead - n + 1
    match onGrid m q k with
    | some c => (c, k)
    | none => search lead fuel (n + 1)

def dropZeros : List Char → List Char := fun ds => (ds.reverse.dropWhile (· == '0')).reverse

def writeDigits (digits : Nat) (k : Int) : Text :=
  let all := Nat.toDigits 10 digits
  let ds := dropZeros all
  let point : Int := all.length + k
  let zeros := fun n : Int => List.replicate n.toNat '0'
  let written : List Char :=
    if -4 < point ∧ point ≤ 16 then
      if point ≤ 0 then ['0', '.'] ++ zeros (-point) ++ ds
      else if (ds.length : Int) ≤ point then ds ++ zeros (point - ds.length) ++ ['.', '0']
      else ds.take point.toNat ++ ['.'] ++ ds.drop point.toNat
    else
      let e := point - 1
      let mantissa := match ds with
        | [] => ['0']
        | [d] => [d]
        | d :: r => d :: '.' :: r
      let exponent := Nat.toDigits 10 e.natAbs
      let exponent := if exponent.length < 2 then '0' :: exponent else exponent
      mantissa ++ ['e', if e < 0 then '-' else '+'] ++ exponent
  written.map .char

def text : Binary → Text
  | .finite s m q =>
    let magnitude : Text :=
      if m = 0 then "0.0"
      else
        let (digits, k) := shortest m q
        writeDigits digits k
    if s then .char '-' :: magnitude else magnitude
  | .infinite s => if s then "-inf" else "inf"
  | .undefined => "nan"

end RouteAtlas.Binary
