import RouteAtlas.Text.CodePoint

/-!
# Log records

Operations that log carry the records written so far, oldest first.
-/

namespace RouteAtlas

inductive Level where
  | debug
  | info
  | warning
  deriving DecidableEq

namespace Level

def name : Level → Text
  | .debug => "DEBUG"
  | .info => "INFO"
  | .warning => "WARNING"

/-- Whether a record is shown when `least` is the lowest level shown. -/
def reaches : Level → Level → Bool
  | .debug, .debug => true
  | .debug, _ => false
  | .info, .warning => false
  | .info, _ => true
  | .warning, _ => true

end Level

inductive Origin where
  | routes
  | controllers
  | catalog
  | assembler
  deriving DecidableEq

def Origin.name : Origin → Text
  | .routes => "routedoc.routes"
  | .controllers => "routedoc.controllers"
  | .catalog => "routedoc.catalog"
  | .assembler => "routedoc.assembler"

structure Record where
  level : Level
  origin : Origin
  message : Text
  deriving DecidableEq

abbrev Log := List Record

end RouteAtlas
