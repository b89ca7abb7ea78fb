import RouteAtlas.Handler.Basic
import RouteAtlas.Handler.Fields

/-!
# Analysis of a handler chain

Fields come from the handler itself, validation libraries from every handler of its chain: a library
is detected by marks in a source text.
-/

namespace RouteAtlas

inductive Validator where
  | joi
  | yup
  | expressValidator
  | pydantic
  | marshmallow
  deriving DecidableEq

namespace Validator

def all : List Validator := [.joi, .yup, .expressValidator, .pydantic, .marshmallow]

def name : Validator → Text
  | .joi => "joi"
  | .yup => "yup"
  | .expressValidator => "express-validator"
  | .pydantic => "pydantic"
  | .marshmallow => "marshmallow"

/-- A call of `load` on a schema, made on the spot or not. -/
def schemaLoad (t : Text) : Bool :=
  match Text.after "Schema" t with
  | none => false
  | some t =>
    let made := (Text.after "(" t).bind fun t => Text.after ")" t.trimLeft
    ((Text.after ".load" (made.getD t)).bind fun t => Text.after "(" t.trimLeft).isSome

def marks (source : Text) : Validator → Bool
  | .joi => Text.occursIn "Joi." source || Text.occursIn "joi." source
  | .yup => Text.occursIn "yup." source || Text.occursIn "Yup." source
  | .expressValidator =>
    Text.occursIn "express-validator" source || Text.occursIn "check(" source ||
      Text.occursIn "body(" source
  | .pydantic => Text.occursIn "pydantic" source || Text.occursIn "BaseModel" source
  | .marshmallow => Text.occursIn "marshmallow" source || Text.finds schemaLoad source

/-- Those found in one source after those found before, each once. -/
def add (found : List Validator) (source : Text) : List Validator :=
  found ++ all.filter fun v => v ∉ found && v.marks source

def detect (sources : List Text) : List Validator := sources.foldl add []

/-- The validators of a chain in which sources may be missing. -/
def ofSources (sources : List (Option Text)) : List Validator := detect (sources.filterMap id)

end Validator

structure Analysis where
  request : List Text
  response : List Text
  validators : List Validator
  deriving DecidableEq

def Handler.analyze (g : Grammar) (handler : Handler) (chain : List Handler) :
    Except HandlerError Analysis := do
  let source ← handler.source
  let sources ← chain.mapM Handler.source
  return ⟨Source.requestFields g source, Source.responseFields g source, Validator.detect sources⟩

end RouteAtlas
