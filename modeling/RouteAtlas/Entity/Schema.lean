import RouteAtlas.Text.Case
import RouteAtlas.Text.Search

/-!
# Entity schemas

An entity has named fields with type tags. A tag is read without its arguments and its qualifier.
-/

namespace RouteAtlas

inductive DataType where
  | string
  | uuid
  | integer
  | int64
  | float
  | double
  | number
  | boolean
  | date
  | dateTime
  | object
  | array
  deriving DecidableEq

namespace DataType

def names : List (Text × DataType) := [
  ("string", .string), ("text", .string), ("char", .string), ("enum", .string), ("uuid", .uuid),
  ("integer", .integer), ("int", .integer), ("bigint", .int64), ("smallint", .integer),
  ("float", .float), ("double", .double), ("decimal", .number), ("number", .number),
  ("boolean", .boolean), ("bool", .boolean), ("date", .date), ("dateonly", .date),
  ("datetime", .dateTime), ("timestamp", .dateTime), ("json", .object), ("jsonb", .object),
  ("array", .array)]

/-- The name in a tag: before the arguments, behind the last point, in lower case. -/
def nameOfTag (tag : Text) : Text := (tag.trim.lower.upTo '(').afterLast '.'

/-- Tags of unknown types are strings. -/
def ofTag (tag : Text) : DataType := (names.lookup (nameOfTag tag)).getD .string

end DataType

structure Entity where
  name : Text
  fields : List (Text × Text)
  deriving DecidableEq

namespace Entity

/-- What is sought in a path: the name in lower case without a final `model` and then a final
`s`. -/
def stem (name : Text) : Text :=
  let drop := fun (s t : Text) => if t.endsWith s then t.take (t.length - s.length) else t
  drop "s" (drop "model" name.lower)

def owns (path name : Text) : Bool := !(stem name).isEmpty && Text.occursIn (stem name) path.lower

/-- The first entity of a catalog that the path names. -/
def matching (path : Text) (catalog : List Entity) : Option Entity :=
  catalog.find? fun e => owns path e.name

end Entity

end RouteAtlas
