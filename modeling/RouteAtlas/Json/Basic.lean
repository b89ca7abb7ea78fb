import RouteAtlas.Number.Binary
import RouteAtlas.Text.CodePoint

/-!
# Document values

A value with a `shared` mark is one object that may stand in several places of a document; all
places with the same mark hold equal values.
-/

namespace RouteAtlas

inductive Json where
  | null
  | bool (b : Bool)
  | int (n : Int)
  | float (x : Binary)
  | str (t : Text)
  | list (items : List Json)
  | obj (fields : List (Text × Json))
  | shared (mark : Nat) (value : Json)

namespace Json

instance : Inhabited Json := ⟨.null⟩

/-- The value under its marks. -/
def bare : Json → Json
  | .shared _ v => bare v
  | v => v

def field? (v : Json) (name : Text) : Option Json :=
  match v with
  | .obj fields => fields.lookup name
  | _ => none

end Json

end RouteAtlas
