import RouteAtlas.Owner.Naming
import RouteAtlas.Text.Class

/-!
# The owner of a route

The owner is sought by the handler's name among the scanned controllers, by that name with the
handler suffix, by the path, and by the words of the name, in this order.
-/

namespace RouteAtlas

/-- Handler names with their tags, each name once, in the order of discovery. -/
abbrev ControllerMap := List (Text × Text)

namespace Owner

/-- A segment of a path that is no placeholder and not empty. -/
def isLiteral (segment : Text) : Bool :=
  match segment with
  | [] => false
  | c :: _ => c != ':' && c != '{' && c != '<'

/-- A `v` in either case with decimal digits behind it; a line break may follow. -/
def isVersion : Text → Bool
  | [] => false
  | c :: r => c.agrees 'v' && r.head?.any CodePoint.isDigit && atEnd (r.dropWhile CodePoint.isDigit)

def isMeaningful (segment : Text) : Bool := segment.lower != "api" && !isVersion segment

/-- The first meaningful literal segment, else the first literal one. -/
def pathSegment? (path : Text) : Option Text :=
  let segments := (path.cut '/').filter isLiteral
  (segments.filter isMeaningful).head? <|> segments.head?

def withCapital : Text → Text
  | [] => []
  | c :: r => c.upper ++ r

def proper (tag : Option Text) : Option Text := tag.filter (!·.isEmpty)

def byName? (map : ControllerMap) (name : Text) : Option Text :=
  if name.isEmpty then none else proper (map.lookup name)

def bySuffixedName? (n : Naming) (map : ControllerMap) (name : Text) : Option Text :=
  if name.isEmpty then none else proper (map.lookup (name ++ n.handlerSuffix))

def byPath? (path : Text) : Option Text :=
  (pathSegment? path).map fun s => withCapital s ++ tagSuffix

def byWords? (n : Naming) (name : Text) : Option Text :=
  (proper (some (titleWords (dropSuffix n.handlerSuffix name)))).map (· ++ tagSuffix)

/-- The tag of the route at `path` whose handler has the given name. -/
def resolve (n : Naming) (map : ControllerMap) (name path : Text) : Text :=
  (byName? map name <|> bySuffixedName? n map name <|> byPath? path <|> byWords? n name).getD
    fallback

end Owner

end RouteAtlas
