import RouteAtlas.Number.Shortest
import RouteAtlas.Yaml.Outline
import RouteAtlas.Yaml.Written

/-!
# YAML text of document values

Collections are written as blocks, two columns a level; a sequence under a key is not indented, and
empty collections are written in brackets. Keys that are long, empty or of several lines are marked.
-/

namespace RouteAtlas.Yaml

open Written

def floatText : Binary → Text
  | .undefined => ".nan"
  | .infinite negative => if negative then "-.inf" else ".inf"
  | x =>
    let t := x.text
    if t.contains '.' then t
    else t.flatMap fun c : CodePoint => if c = 'e' then ".0e" else [c]

def scalarText (indent column : Nat) : Json → Text
  | .null => "null"
  | .bool b => if b then "true" else "false"
  | .int n => Text.ofInt n
  | .float x => floatText x
  | .str t => Written.ofText true indent column t
  | _ => []

def isSimpleKey (k : Text) : Bool := !k.isEmpty && k.length < 123 && !k.any isScalarBreak

def anchorLabel (n : Nat) : Text := "id" ++ Decimal.padded 3 n

def anchorText : Option Nat → Text
  | none => []
  | some n => " &" ++ anchorLabel n

/-- What follows a key or the mark of an item. -/
inductive Lead where
  | item
  | simpleKey
  | markedKey
  deriving DecidableEq

/-- What stands between the anchor of a collection and its first entry, which stands in column
`inner`: a blank if the collection begins on the line, else a new line. -/
def opening (lead : Lead) (anchor : Option Nat) (inner : Nat) : Text :=
  if lead = .simpleKey ∨ anchor.isSome then newLine inner else " "

/-- The indentation of a sequence: under a key it is that of the key, unless it begins on the line
of the mark. -/
def itemIndent (lead : Lead) (anchor : Option Nat) (indent : Nat) : Nat :=
  if lead = .simpleKey ∨ (lead = .markedKey ∧ anchor.isSome) then indent else indent + 2

/-- A key up to its colon: how it leads to its value, the text, and the column behind it. -/
def keyText (indent : Nat) (k : Text) : Lead × Text × Nat :=
  if isSimpleKey k then
    let key := Written.ofText false indent indent k ++ ":"
    (.simpleKey, key, indent + key.length)
  else
    (.markedKey, "? " ++ Written.ofText true (indent + 2) (indent + 2) k ++ newLine indent ++ ":",
      indent + 1)

mutual

/-- A value behind its lead, which ends before a column; `indent` is that of the line. -/
def valueText (lead : Lead) (indent column : Nat) : Outline → Text
  | .scalar v => " " ++ scalarText (indent + 2) (column + 1) v
  | .alias n => " *" ++ anchorLabel n
  | .list anchor [] => anchorText anchor ++ " []"
  | .list anchor (o :: os) =>
    let inner := itemIndent lead anchor indent
    anchorText anchor ++ opening lead anchor inner ++ "-" ++ valueText .item inner (inner + 1) o ++
      itemsText inner os
  | .map anchor [] => anchorText anchor ++ " \x7b\x7d"
  | .map anchor ((k, o) :: es) =>
    let inner := indent + 2
    let (lead', key, column') := keyText inner k
    anchorText anchor ++ opening lead anchor inner ++ key ++ valueText lead' inner column' o ++
      entriesText inner es

def itemsText (indent : Nat) : List Outline → Text
  | [] => []
  | o :: os => newLine indent ++ "-" ++ valueText .item indent (indent + 1) o ++ itemsText indent os

def entriesText (indent : Nat) : List (Text × Outline) → Text
  | [] => []
  | (k, o) :: es =>
    let (lead, key, column) := keyText indent k
    newLine indent ++ key ++ valueText lead indent column o ++ entriesText indent es

end

/-- Whether a scalar is written plain; the end of such a document has to be marked. -/
def isPlain : Json → Bool
  | .str t => ScalarStyle.ofText t = .plain
  | _ => true

def documentText : Outline → Text
  | .scalar v => scalarText 2 0 v ++ (if isPlain v then "\n...\n" else "\n" : Text)
  | .alias n => "*" ++ anchorLabel n ++ "\n"
  | .list _ [] => "[]\n"
  | .list _ (o :: os) => "-" ++ valueText .item 0 1 o ++ itemsText 0 os ++ "\n"
  | .map _ [] => "\x7b\x7d\n"
  | .map _ ((k, o) :: es) =>
    let (lead, key, column) := keyText 0 k
    key ++ valueText lead 0 column o ++ entriesText 0 es ++ "\n"

def toText (v : Json) : Text := documentText (Outline.ofJson v)

end RouteAtlas.Yaml
