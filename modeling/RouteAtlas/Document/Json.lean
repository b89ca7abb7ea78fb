import RouteAtlas.Document.Basic
import RouteAtlas.Entity.Json

/-!
# Documents as document values

The marks tell which objects are shared: the response schema, the response example and the request
example of a route stand in all operations that come from it.
-/

namespace RouteAtlas

def Example.toJson : Example → Json
  | .number n => .int n
  | .yes => .bool true
  | .text t => .str t

def Example.objectJson (fields : List (Text × Example)) : Json :=
  .obj (fields.map fun f => (f.1, f.2.toJson))

def stringProperties (names : List Text) : Json :=
  .obj (names.map fun n => (n, DataType.string.toJson))

def ResponseSchema.toJson : ResponseSchema → Json
  | .inferred fields =>
    .obj [("type", .str "object"), ("properties", stringProperties fields)]
  | .entity e => e.toJson
  | .unknown => .obj [("type", .str "object")]

namespace Operation

/-- The marks of what the operations of a route share; none is that of the item type of arrays. -/
def schemaMark (o : Operation) : Nat := 3 * o.route + 1

def exampleMark (o : Operation) : Nat := 3 * o.route + 2

def requestMark (o : Operation) : Nat := 3 * o.route + 3

def content (schema sample : Json) : Json :=
  .obj [("application/json", .obj [("schema", schema), ("example", sample)])]

/-- The request fields inside of the wrapper. -/
def requestJson (wrapper : Text) (o : Operation) : Json :=
  let inner : Json := .obj [("type", .str "object"),
    ("properties", stringProperties (o.request.map (·.1)))]
  let schema : Json := .obj [("type", .str "object"), ("properties", .obj [(wrapper, inner)])]
  let sample : Json := .obj [(wrapper, .shared o.requestMark (Example.objectJson o.request))]
  .obj [("required", .bool false), ("content", content schema sample)]

def responseJson (o : Operation) : Json :=
  .obj [("200", .obj [("description", .str "OK"),
    ("content", content (.shared o.schemaMark o.response.toJson)
      (.shared o.exampleMark (Example.objectJson o.responseExample)))])]

/-- Without request fields there is no request body. -/
def toJson (wrapper : Text) (o : Operation) : Json :=
  let head : List (Text × Json) := [("tags", .list [.str o.tag]), ("summary", .str o.summary),
    ("security", .list [.obj [("BearerAuth", .list [])]])]
  let request : List (Text × Json) :=
    if o.request.isEmpty then [] else [("requestBody", o.requestJson wrapper)]
  let validators : List (Text × Json) :=
    if o.validators.isEmpty then []
    else [("x-validators", .list (o.validators.map fun v => .str v.name))]
  let response : List (Text × Json) := [("responses", o.responseJson)]
  .obj (head ++ request ++ response ++ validators)

end Operation

namespace Document

def Info.toJson (i : Info) : Json :=
  .obj [("title", .str i.title), ("version", .str i.version), ("description", .str i.description)]

/-- The URL of the server: an empty one counts as the root. -/
def serverUrl (s : DocumentSettings) : Text := (s.baseUrl.filter (!·.isEmpty)).getD "/"

def componentsJson (entities : List Entity) : Json :=
  .obj [
    ("securitySchemes", .obj [("BearerAuth", .obj [("type", .str "http"), ("scheme", .str "bearer"),
      ("bearerFormat", .str "JWT")])]),
    ("schemas", .obj (entities.map fun e => (e.name, e.toJson)))]

def pathsJson (wrapper : Text) (paths : Paths) : Json :=
  .obj (paths.map fun p => (p.1, .obj (p.2.map fun o => (o.1, o.2.toJson wrapper))))

def toJson (d : Document) : Json :=
  .obj [
    ("openapi", .str "3.0.0"),
    ("info", Info.toJson d.settings.info),
    ("servers", .list [.obj [("url", .str (serverUrl d.settings))]]),
    ("tags", .list (d.tags.map fun t =>
      .obj [("name", .str t.name), ("description", .str t.description)])),
    ("components", componentsJson d.entities),
    ("paths", pathsJson d.settings.grammar.wrapper d.paths)]

end Document

end RouteAtlas
