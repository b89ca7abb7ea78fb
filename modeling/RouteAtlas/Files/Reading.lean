import RouteAtlas.Files.Tree

/-!
# Text files

Text files are UTF-8; every way to end a line is read as a line feed.
-/

namespace RouteAtlas.Files

inductive ReadError where
  | access (e : AccessError)
  | encoding (e : Utf8.DecodeError)
  deriving DecidableEq

def ReadError.message : ReadError → Text
  | .access e => e.message
  | .encoding e => e.message

namespace System

def readText (s : System) (p : Path) : Except ReadError Text := do
  let bs ← (s.readBytes p).mapError .access
  let t ← (Utf8.decode bs).mapError .encoding
  return t.unifyBreaks

/-- The text of a file without what is no UTF-8. -/
def readTextLenient (s : System) (p : Path) : Except AccessError Text :=
  (s.readBytes p).map fun bs => (Utf8.decodeLenient bs).unifyBreaks

end System

end RouteAtlas.Files
