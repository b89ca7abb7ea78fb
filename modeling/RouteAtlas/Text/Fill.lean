import RouteAtlas.Text.Search

/-!
# Setting words in lines

Words go on a line, a space between them, while they fit. A word that does not fit begins a new
line; one that fits on no line stands alone on its line, or is broken where lines are full.
-/

namespace RouteAtlas.Text

def withWord (line w : Text) : Text := if line.isEmpty then w else line ++ " " ++ w

/-- Words as lines of at most `width` characters behind a line that is begun and takes `first`;
words stay whole. -/
def packed (first width : Nat) (line : Text) : List Text → List Text
  | [] => if line.isEmpty then [] else [line]
  | w :: ws =>
    if line.isEmpty || (withWord line w).length ≤ first then packed first width (withWord line w) ws
    else line :: packed width width w ws

/-- Characters set behind a line: the lines that are full, and the last one. -/
def broken (width : Nat) (line : Text) : Text → List Text × Text
  | [] => ([], line)
  | c :: r =>
    if line.length < width then broken width (line ++ [c]) r
    else
      let (full, last) := broken width [c] r
      (line :: full, last)

/-- Words as lines of at most `width` characters behind a line that is begun; a word longer than
that is broken. -/
def wrapped (width : Nat) (line : Text) : List Text → List Text
  | [] => if line.isEmpty then [] else [line]
  | w :: ws =>
    if (withWord line w).length ≤ width then wrapped width (withWord line w) ws
    else if w.length ≤ width then line :: wrapped width w ws
    else if line.length = width then
      let (full, last) := broken width [] w
      line :: full ++ wrapped width last ws
    else
      let (full, last) := broken width (withWord line []) w
      full ++ wrapped width last ws

end RouteAtlas.Text
