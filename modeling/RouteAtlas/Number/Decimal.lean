import RouteAtlas.Text.CodePoint

/-!
# Decimal notation of integers
-/

namespace RouteAtlas

def Text.ofNat (n : Nat) : Text := (Nat.toDigits 10 n).map .char

def Text.ofInt : Int → Text
  | .ofNat n => Text.ofNat n
  | .negSucc n => .char '-' :: Text.ofNat (n + 1)

namespace Decimal

def digitValue (c : Char) : Nat := c.toNat - 48

/-- The number that ASCII digits write, most significant first. -/
def ofDigits (cs : List Char) : Nat := cs.foldl (fun n c => 10 * n + digitValue c) 0

def padded (width n : Nat) : Text :=
  let ds := Text.ofNat n
  List.replicate (width - ds.length) (.char '0') ++ ds

/-- The most digits that an integer may have in decimal notation, in and out. -/
def maxDigits : Nat := 4300

def tooLong (n : Nat) : Bool := Nat.pow 10 maxDigits ≤ n

end Decimal

end RouteAtlas
