/-!
# Binary floating-point numbers

A finite number is `m * 2 ^ q` with a sign, kept exactly. Every operation is exact rational
arithmetic followed by one rounding to the nearest number of 53 bits, a tie to the even one.
-/

namespace RouteAtlas

inductive Binary where
  | finite (negative : Bool) (m : Nat) (q : Int)
  | infinite (negative : Bool)
  | undefined
  deriving DecidableEq

namespace Binary

def zero : Binary := .finite false 0 (-1074)

def leastMantissa : Nat := Nat.pow 2 52

/-- The quotient rounded to the nearest integer, a tie to the even one. -/
def roundQuotient (num den : Nat) : Nat :=
  let n := num / den
  let r := num % den
  if 2 * r < den then n
  else if 2 * r > den then n + 1
  else if n % 2 = 0 then n else n + 1

/-- The factors of a power with an integer exponent, above and below the fraction line. -/
def powerParts (base : Nat) (e : Int) : Nat × Nat :=
  if 0 ≤ e then (Nat.pow base e.toNat, 1) else (1, Nat.pow base (-e).toNat)

/-- The nearest number to `num / den`. -/
def round (negative : Bool) (num den : Nat) : Binary :=
  if num = 0 then .finite negative 0 (-1074)
  else
    let q₀ : Int := (num.log2 : Int) - den.log2 - 52
    let scaled := fun q : Int =>
      let (up, down) := powerParts 2 (-q)
      (num * up, den * down)
    let (a, b) := scaled q₀
    let q₁ := if a < leastMantissa * b then q₀ - 1 else q₀
    let q := max q₁ (-1074)
    let (a, b) := scaled q
    let m := roundQuotient a b
    let (m, q) := if m = 2 * leastMantissa then (leastMantissa, q + 1) else (m, q)
    if 971 < q then .infinite negative else .finite negative m q

/-- The nearest number to `digits * 10 ^ e`, where `count` bounds the number of digits. -/
def ofDecimal (negative : Bool) (digits count : Nat) (e : Int) : Binary :=
  if digits = 0 then .finite negative 0 (-1074)
  else if 400 < e then .infinite negative
  else if e + count < -400 then .finite negative 0 (-1074)
  else
    let (up, down) := powerParts 10 e
    round negative (digits * up) down

def fraction (m : Nat) (q : Int) : Nat × Nat :=
  let (up, down) := powerParts 2 q
  (m * up, down)

def neg : Binary → Binary
  | .finite s m q => .finite (!s) m q
  | .infinite s => .infinite (!s)
  | .undefined => .undefined

def signed (negative : Bool) (n : Nat) : Int := if negative then -(n : Int) else n

/-- The sum; opposite numbers give zero without a sign. -/
def add : Binary → Binary → Binary
  | .finite s m q, .finite s' m' q' =>
    let (a, b) := fraction m q
    let (c, d) := fraction m' q'
    let n := signed s (a * d) + signed s' (c * b)
    if n = 0 then .finite (s && s') 0 (-1074) else round (n < 0) n.natAbs (b * d)
  | .undefined, _ => .undefined
  | _, .undefined => .undefined
  | .infinite s, .infinite s' => if s = s' then .infinite s else .undefined
  | .infinite s, _ => .infinite s
  | _, .infinite s => .infinite s

/-- The product with a natural number, which is itself rounded first. -/
def scale (k : Nat) : Binary → Binary
  | .finite s m q =>
    match round false k 1 with
    | .finite _ m' q' =>
      let (a, b) := fraction m q
      let (c, d) := fraction m' q'
      round s (a * c) (b * d)
    | _ => if m = 0 then .undefined else .infinite s
  | x => x

def toInt? : Binary → Option Int
  | .finite s m q =>
    let (a, b) := fraction m q
    if a % b = 0 then some (if s then -(a / b : Nat) else (a / b : Nat)) else none
  | _ => none

def isZero : Binary → Bool
  | .finite _ m _ => m == 0
  | _ => false

end Binary

end RouteAtlas
