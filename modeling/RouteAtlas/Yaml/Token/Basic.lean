import RouteAtlas.Yaml.Error

/-!
# Tokens of YAML text

Where block collections begin and end by indentation, a token stands for it. A failed scan is the
last token, so that a reader of tokens meets it only when it comes that far.
-/

namespace RouteAtlas.Yaml

inductive Directive where
  | version (major minor : Nat)
  | tagHandle (handle stem : Text)
  | reserved
  deriving DecidableEq

inductive Token where
  | directive (d : Directive)
  | documentStart
  | documentEnd
  | blockSequence
  | blockMapping
  | blockEnd
  | flowSequence
  | flowSequenceEnd
  | flowMapping
  | flowMappingEnd
  | blockEntry
  | flowEntry
  | key
  | value
  | alias (name : Text)
  | anchor (name : Text)
  | tag (handle : Option Text) (suffix : Text)
  | scalar (plain : Bool) (text : Text)
  | streamEnd
  | failure (e : LoadError)
  deriving DecidableEq

end RouteAtlas.Yaml
