import RouteAtlas.Text.Utf8

/-!
# Bytes written in base sixty-four

Characters outside of the alphabet are skipped. The text ends at a padding that fills the last group
of four.
-/

namespace RouteAtlas.Yaml.Base64

def digit? (c : Char) : Option Nat :=
  if c.isUpper then some (c.toNat - 0x41)
  else if c.isLower then some (c.toNat - 0x61 + 26)
  else if c.isDigit then some (c.toNat - 0x30 + 52)
  else if c = '+' then some 62
  else if c = '/' then some 63
  else none

/-- Decodes with `count` digits of a group read, whose bits not yet written are `left`, and `pads`
padding marks behind them. -/
def decodeFrom (count left pads : Nat) : List Char → Option Bytes
  | [] => if count = 0 then some [] else none
  | c :: r =>
    if c = '=' then
      if 2 ≤ count then
        if 4 ≤ count + pads + 1 then some [] else decodeFrom count left (pads + 1) r
      else decodeFrom count left pads r
    else
      match digit? c with
      | none => decodeFrom count left pads r
      | some d =>
        match count with
        | 0 => decodeFrom 1 d 0 r
        | 1 => (decodeFrom 2 (d % 16) 0 r).map (UInt8.ofNat (left * 4 + d / 16) :: ·)
        | 2 => (decodeFrom 3 (d % 4) 0 r).map (UInt8.ofNat (left * 16 + d / 4) :: ·)
        | _ => (decodeFrom 0 0 0 r).map (UInt8.ofNat (left * 64 + d) :: ·)

/-- The bytes that an ASCII text writes. -/
def decode? (t : Text) : Option Bytes := do
  let cs ← t.chars?
  if cs.all fun c => c.toNat < 0x80 then decodeFrom 0 0 0 cs else none

end RouteAtlas.Yaml.Base64
