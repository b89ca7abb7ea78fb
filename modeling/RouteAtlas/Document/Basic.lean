import RouteAtlas.Entity.Schema
import RouteAtlas.Example
import RouteAtlas.Handler.Analysis
import RouteAtlas.Settings

/-!
# API documents

A document has an operation for every path and method. The operations of one route share the
schema and the examples that were found for it.
-/

namespace RouteAtlas

/-- What is known of a response: inferred fields, an entity, or nothing. -/
inductive ResponseSchema where
  | inferred (fields : List Text)
  | entity (e : Entity)
  | unknown
  deriving DecidableEq

def ResponseSchema.properties : ResponseSchema → List Text
  | .inferred fields => fields
  | .entity e => e.fields.map (·.1)
  | .unknown => []

/-- An operation; `route` counts the routes before the one that it comes from. -/
structure Operation where
  route : Nat
  tag : Text
  summary : Text
  request : List (Text × Example)
  response : ResponseSchema
  responseExample : List (Text × Example)
  validators : List Validator
  deriving DecidableEq

/-- Operations under their methods in lower case, in order. -/
abbrev PathItem := List (Text × Operation)

abbrev Paths := List (Text × PathItem)

structure DocumentTag where
  name : Text
  deriving DecidableEq

def DocumentTag.description (t : DocumentTag) : Text := "Endpoints for " ++ t.name

structure Document where
  settings : DocumentSettings
  tags : List DocumentTag
  entities : List Entity
  paths : Paths
  deriving DecidableEq

end RouteAtlas
