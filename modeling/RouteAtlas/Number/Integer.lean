import RouteAtlas.Number.Decimal
import RouteAtlas.Text.Class

/-!
# Reading integers

An integer may have a sign, a prefix that says its base again, blanks around it, and single low
lines between its digits. Digits of all scripts count as digits.
-/

namespace RouteAtlas

inductive IntegerError where
  | malformed
  | tooManyDigits (count : Nat)
  deriving DecidableEq

namespace Integer

/-- Digits of all scripts as ASCII digits and blanks as spaces; what else is not ASCII is no part of
a number. -/
def asciiForm (t : Text) : List Char :=
  t.map fun c =>
    match c with
    | .char x =>
      if x.toNat < 0x7F then x
      else if c.isBlank then ' '
      else (c.digit?.map Nat.digitChar).getD '?'
    | .lone _ => '?'

def isSpace (c : Char) : Bool := c == ' ' || (0x9 ≤ c.toNat && c.toNat ≤ 0xD)

def dropSpace (cs : List Char) : List Char := cs.dropWhile isSpace

def sign (cs : List Char) : Bool × List Char :=
  match cs with
  | '-' :: r => (true, r)
  | '+' :: r => (false, r)
  | cs => (false, cs)

def digitOf? (base : Nat) (c : Char) : Option Nat :=
  let n := c.toNat
  let d :=
    if c.isDigit then n - 0x30
    else if c.isLower then n - 0x57
    else if c.isUpper then n - 0x37
    else base
  if d < base then some d else none

/-- A prefix that says the base again; a low line may stand behind it. -/
def dropBase (base : Nat) (cs : List Char) : List Char :=
  match cs with
  | '0' :: c :: r =>
    let c := c.toLower
    if (base = 2 ∧ c = 'b') ∨ (base = 8 ∧ c = 'o') ∨ (base = 16 ∧ c = 'x') then
      match r with
      | '_' :: r => r
      | r => r
    else cs
  | cs => cs

/-- The digits at the beginning and what is left; `none` if a low line does not stand between two
of them. -/
def digits (base : Nat) : List Char → Option (List Nat × List Char)
  | [] => some ([], [])
  | c :: r =>
    match digitOf? base c with
    | none => if c = '_' then none else some ([], c :: r)
    | some d =>
      let rest := match r with
        | '_' :: e :: r => if (digitOf? base e).isSome then digits base (e :: r) else none
        | r => digits base r
      rest.map fun p => (d :: p.1, p.2)

/-- The integer that a text writes in a base. Only for base ten the number of digits is bounded. -/
def ofText (base : Nat) (t : Text) : Except IntegerError Int :=
  let (negative, cs) := sign (dropSpace (asciiForm t))
  match digits base (dropBase base cs) with
  | none => .error .malformed
  | some (ds, rest) =>
    if base = 10 ∧ Decimal.maxDigits < ds.length then .error (.tooManyDigits ds.length)
    else if ds.isEmpty || !(dropSpace rest).isEmpty then .error .malformed
    else
      let n : Int := (ds.foldl (fun n d => base * n + d) 0 : Nat)
      .ok (if negative then -n else n)

end Integer

end RouteAtlas
