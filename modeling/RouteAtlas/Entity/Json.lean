import RouteAtlas.Entity.Schema
import RouteAtlas.Json.Basic

/-!
# Schemas of entities as document values

The unknown item type of arrays is one object, which all arrays of a document share.
-/

namespace RouteAtlas

namespace DataType

/-- The mark of the item type that arrays share. -/
def itemMark : Nat := 0

def plainJson (name : Text) : Json := .obj [("type", .str name)]

def formatJson (name format : Text) : Json := .obj [("type", .str name), ("format", .str format)]

def toJson : DataType → Json
  | .string => plainJson "string"
  | .uuid => formatJson "string" "uuid"
  | .integer => plainJson "integer"
  | .int64 => formatJson "integer" "int64"
  | .float => formatJson "number" "float"
  | .double => formatJson "number" "double"
  | .number => plainJson "number"
  | .boolean => plainJson "boolean"
  | .date => formatJson "string" "date"
  | .dateTime => formatJson "string" "date-time"
  | .object => plainJson "object"
  | .array => .obj [("type", .str "array"), ("items", .shared itemMark (.obj []))]

end DataType

namespace Entity

def toJson (e : Entity) : Json :=
  .obj [("type", .str "object"),
    ("properties", .obj (e.fields.map fun f => (f.1, (DataType.ofTag f.2).toJson)))]

end Entity

end RouteAtlas
