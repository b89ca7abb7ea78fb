import RouteAtlas.Text.Case
import RouteAtlas.Text.Search

/-!
# Owner tags

A controller file is recognised by the ending of its name. The tag of its routes is made of the
words of the rest of the name.
-/

namespace RouteAtlas

structure Naming where
  fileSuffixes : List Text := ["Controller.js", "Controller.mjs", "Controller.cjs",
    "Controller.ts", "Controller.py", "_controller.py"]
  handlerSuffix : Text := "Controller"
  deriving DecidableEq

namespace Naming

def matchesFile (n : Naming) (file : Text) : Bool := n.fileSuffixes.any file.endsWith

end Naming

namespace Owner

def tagSuffix : Text := " Controller"

def fallback : Text := "api"

def spaced (t : Text) : Text :=
  t.flatMap fun c => if c.isCapital then [.char ' ', c] else [c]

def isWordBreak (c : CodePoint) : Bool := c.isBlank || c == '_' || c == '-'

/-- The runs of characters that satisfy `p` no character of. -/
def wordsBetween (p : CodePoint → Bool) : Text → List Text
  | [] => [[]]
  | c :: r =>
    if p c then [] :: wordsBetween p r
    else match wordsBetween p r with
      | [] => [[c]]
      | w :: ws => (c :: w) :: ws

/-- The words of a name, cut at blanks, low lines, hyphens and before capitals. -/
def words (name : Text) : List Text :=
  (wordsBetween isWordBreak (spaced name)).filter (!·.isEmpty)

def titleWords (name : Text) : Text := Text.join " " ((words name).map Text.capitalized)

def atEnd (t : Text) : Bool := t.isEmpty || t == "\n"

/-- A final suffix in any case, with or without a low line or hyphen before it. -/
def suffixEnd? (suffix : Text) (t : Text) : Option Text :=
  let bare := fun t => (Text.afterAgreeing suffix t).filter atEnd
  match t with
  | [] => bare []
  | c :: r => (if c = '_' ∨ c = '-' then bare r else none) <|> bare (c :: r)

/-- The name without its final suffix. A line break at the very end counts as behind the end, and
is a second end of its own. -/
def dropSuffix (suffix : Text) : Text → Text
  | [] => []
  | c :: r =>
    match suffixEnd? suffix (c :: r) with
    | some rest =>
      if rest.length = r.length + 1 then c :: dropSuffix suffix r
      else if rest.isEmpty then []
      else if (Text.afterAgreeing suffix rest).isSome && !suffix.isEmpty then []
      else rest
    | none => c :: dropSuffix suffix r

/-- The file name without the first ending that it has, else up to its first point. An empty ending
leaves nothing. -/
def stem (n : Naming) (file : Text) : Text :=
  match n.fileSuffixes.find? file.endsWith with
  | some s => if s.isEmpty then [] else file.take (file.length - s.length)
  | none => file.upTo '.'

def tagOfFile (n : Naming) (file : Text) : Text :=
  titleWords (dropSuffix n.handlerSuffix (stem n file)) ++ tagSuffix

end Owner

end RouteAtlas
