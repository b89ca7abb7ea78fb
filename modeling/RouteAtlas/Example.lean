import RouteAtlas.Text.Case
import RouteAtlas.Text.Search
import RouteAtlas.Text.Word

/-!
# Example values

The example of a field depends on its name alone, but for points in time, which are all given by
one timestamp. The first rule that fits decides.
-/

namespace RouteAtlas

inductive Example where
  | number (n : Nat)
  | yes
  | text (t : Text)
  deriving DecidableEq

namespace Example

def defaultTimestamp : Text := "2024-01-01T00:00:00.000Z"

def temporalNames : List Text := ["date", "createdAt", "updatedAt", "deletedAt", "lastLoginAt",
  "expiresAt", "tokenExpiry", "resetTokenExpiry"]

/-- Whether one of the words occurs, case ignored. -/
def mentions (words : List Text) (name : Text) : Bool :=
  words.any fun w => Text.finds (fun t => (Text.afterAgreeing w t).isSome) name

/-- Whether the name ends in the word, case ignored; a final line break does not count. -/
def endsIn (word : Text) (name : Text) : Bool :=
  Text.finds (fun t => (Text.afterAgreeing word t).any fun r : Text => r.isEmpty || r == "\n") name

/-- Whether a temporal name stands there as a word of its own; `inWord` says whether a word
character comes before. -/
def temporalFrom (inWord : Bool) : Text → Bool
  | [] => false
  | c :: r =>
    (!inWord && temporalNames.any fun w =>
      (Text.afterAgreeing w (c :: r)).any fun rest => !rest.head?.any CodePoint.isWord) ||
    temporalFrom c.isWord r

def isTemporal (name : Text) : Bool := temporalFrom false name

def ofName (timestamp name : Text) : Example :=
  if endsIn "id" name then .number 1
  else if mentions ["count", "age", "price", "amount", "total"] name then .number 123
  else if Text.occursIn "email" name.lower then .text "user@example.com"
  else if mentions ["token", "access", "refresh"] name then .text "eyJhbGciOi..."
  else if isTemporal name then .text timestamp
  else if mentions ["is", "has", "enabled", "active"] name then .yes
  else .text ("string_" ++ name)

/-- The fields with their examples, each once at its first place, without the wrapper. -/
def ofFields (wrapper timestamp : Text) (names : List Text) : List (Text × Example) :=
  (Text.distinct (names.filter fun n => n.lower != wrapper.lower)).map fun n =>
    (n, ofName timestamp n)

end Example

end RouteAtlas
