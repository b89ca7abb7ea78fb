import RouteAtlas.Text.Search
import RouteAtlas.Text.Utf8

/-!
# File paths

A path is a list of names below an anchor: nothing, one slash or two. Empty names and single points
are dropped when a path is read, double points are kept. Not every text can name a file.
-/

namespace RouteAtlas.Files

inductive Anchor where
  | relative
  | slash
  | doubleSlash
  deriving DecidableEq

inductive NameError where
  | nul
  | encoding (e : Utf8.EncodeError)
  deriving DecidableEq

namespace NameError

def message : NameError → Text
  | .nul => "embedded null byte"
  | .encoding e => e.message

def ofText? (t : Text) : Option NameError :=
  match Utf8.encodeName t with
  | .error e => some (.encoding e)
  | .ok _ => if t.contains '\x00' then some .nul else none

end NameError

structure Path where
  anchor : Anchor
  names : List Text
  deriving DecidableEq

namespace Path

def anchorOf (t : Text) : Anchor :=
  if !t.startsWith "/" then .relative
  else if t.startsWith "//" && !t.startsWith "///" then .doubleSlash
  else .slash

def namesOf (t : Text) : List Text := (t.cut '/').filter fun n => !n.isEmpty && n != "."

def ofText (t : Text) : Path := ⟨anchorOf t, namesOf t⟩

def anchorText : Anchor → Text
  | .relative => []
  | .slash => "/"
  | .doubleSlash => "//"

def toText (p : Path) : Text :=
  if p.anchor = .relative ∧ p.names = [] then "."
  else anchorText p.anchor ++ Text.join "/" p.names

def isAbsolute (p : Path) : Bool := p.anchor != .relative

/-- The second path seen from the first; an absolute one stands for itself. -/
def join (p q : Path) : Path :=
  if q.isAbsolute then q else ⟨p.anchor, p.names ++ q.names⟩

def parent (p : Path) : Path := ⟨p.anchor, p.names.dropLast⟩

def name (p : Path) : Text := p.names.getLast?.getD []

/-- What a name has from its last point on; a point at either end does not count. -/
def extension (p : Path) : Text :=
  let n := p.name
  let tail := n.afterLast '.'
  if tail.length + 1 < n.length && !tail.isEmpty then .char '.' :: tail else []

def relativeTo? (p dir : Path) : Option Path :=
  if p.anchor = dir.anchor ∧ dir.names.isPrefixOf p.names then
    some ⟨.relative, p.names.drop dir.names.length⟩
  else none

end Path

end RouteAtlas.Files
