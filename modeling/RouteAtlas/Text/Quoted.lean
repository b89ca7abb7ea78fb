import RouteAtlas.Text.Utf8
import RouteAtlas.Text.Visible

/-!
# Quoted texts in messages

A text in quotes is shown between apostrophes, or between double quotes if it holds an apostrophe
and no double quote. What is not visible is shown by its number.
-/

namespace RouteAtlas.Text

def quoteFor (t : Text) : Char :=
  if t.contains '\'' && !t.contains '"' then '"' else '\''

def shownChar (quote : Char) (c : CodePoint) : Text :=
  let n := c.toNat
  if c = quote ∨ c = '\\' then [.char '\\', c]
  else if c = '\n' then "\\n"
  else if c = '\r' then "\\r"
  else if c = '\t' then "\\t"
  else if c.isVisible then [c]
  else if n < 0x100 then "\\x" ++ Utf8.hexText 2 n
  else if n < 0x10000 then "\\u" ++ Utf8.hexText 4 n
  else "\\U" ++ Utf8.hexText 8 n

def quoted (t : Text) : Text :=
  let q := quoteFor t
  .char q :: t.flatMap (shownChar q) ++ [.char q]

/-- Bytes are shown as their ASCII characters. -/
def quotedBytes (bs : Bytes) : Text :=
  let t : Text := bs.map fun b => .char (Char.ofNat b.toNat)
  let q := quoteFor t
  let shown := fun c : CodePoint =>
    if 0x7F ≤ c.toNat then "\\x" ++ Utf8.hexText 2 c.toNat else shownChar q c
  .char 'b' :: .char q :: t.flatMap shown ++ [.char q]

end RouteAtlas.Text
