import RouteAtlas.Yaml.Token.Property

/-!
# From YAML text to tokens

A scalar, alias or flow collection may turn out to be a key when a colon follows it on its line. The
place of such a token is remembered, and the marks of a key are put before it when the colon comes.
Indentation opens and closes block collections outside of flow collections.
-/

namespace RouteAtlas.Yaml

/-- A token that may be a key: how many tokens came before it, where it stands, and whether it must
be a key, as the first token of a line of a block mapping must. -/
structure KeyPlace where
  tokens : Nat
  required : Bool
  index : Nat
  line : Nat
  column : Nat

/-- The state of a scan; tokens are kept newest first. -/
structure Scan where
  cursor : Cursor
  tokens : List Token
  count : Nat
  flow : Nat
  indent : Int
  indents : List Int
  keyAllowed : Bool
  keys : List (Nat × KeyPlace)

namespace Scan

def start (t : Text) : Scan := ⟨Cursor.start t, [], 0, 0, -1, [], true, []⟩

def push (s : Scan) (t : Token) : Scan := { s with tokens := t :: s.tokens, count := s.count + 1 }

def insertAt (s : Scan) (n : Nat) (t : Token) : Scan :=
  let newer := s.count - n
  { s with
    tokens := s.tokens.take newer ++ t :: s.tokens.drop newer
    count := s.count + 1 }

def pushAt (s : Scan) (c : Cursor) (t : Token) : Scan := { s.push t with cursor := c }

/-- Skips blanks, comments and line breaks; outside of flow collections a key may stand on a new
line. -/
def skipGaps : Nat → Scan → Scan
  | 0, s => s
  | fuel + 1, s =>
    let c := s.cursor.skipSpaces
    let c := if c.has 0 (· == '#') then c.skipWhile (!isBreak ·) else c
    if c.has 0 isBreak then
      skipGaps fuel { s with cursor := c.lineBreak.2, keyAllowed := s.keyAllowed || s.flow == 0 }
    else { s with cursor := c }

def toNextToken (s : Scan) : Scan :=
  let s := if s.cursor.index == 0 && s.cursor.has 0 (· == '\uFEFF') then
    { s with cursor := s.cursor.next } else s
  skipGaps (s.cursor.left + 1) s

def isStale (s : Scan) (k : KeyPlace) : Bool :=
  k.line != s.cursor.line || 1024 < s.cursor.index - k.index

/-- Forgets stale places; a required key may not be forgotten. -/
def dropStaleKeys (s : Scan) : Except LoadError Scan :=
  if s.keys.any fun p => s.isStale p.2 && p.2.required then .error .malformed
  else .ok { s with keys := s.keys.filter fun p => !s.isStale p.2 }

def keyPlace? (s : Scan) : Option KeyPlace := s.keys.lookup s.flow

def dropKey (s : Scan) : Except LoadError Scan :=
  if s.keyPlace?.any KeyPlace.required then .error .malformed
  else .ok { s with keys := s.keys.filter fun p => p.1 != s.flow }

/-- Remembers that the next token may be a key. -/
def saveKey (s : Scan) : Except LoadError Scan :=
  if s.keyAllowed then do
    let c := s.cursor
    let required := s.flow == 0 && s.indent == (c.column : Int)
    let s ← s.dropKey
    return { s with keys := (s.flow, ⟨s.count, required, c.index, c.line, c.column⟩) :: s.keys }
  else .ok s

/-- Closes the block collections that are indented deeper than a column. -/
def unwindFrom (column : Int) : List Int → Scan → Scan
  | [], s => s
  | i :: is, s =>
    if column < s.indent then
      unwindFrom column is { s.push .blockEnd with indent := i, indents := is }
    else s

def unwind (s : Scan) (column : Int) : Scan :=
  if s.flow == 0 then unwindFrom column s.indents s else s

/-- Whether a column is deeper than the current indentation, which it then becomes. -/
def deepen (s : Scan) (column : Int) : Option Scan :=
  if s.indent < column then some { s with indent := column, indents := s.indent :: s.indents }
  else none

/-- Opens a block collection if the current column is a deeper indentation. -/
def openBlock (s : Scan) (t : Token) : Scan :=
  match s.deepen s.cursor.column with
  | some s => s.push t
  | none => s

/-- Ends what is open at the end of a document or before a directive. -/
def closeAll (s : Scan) : Except LoadError Scan := do
  let s ← (s.unwind (-1)).dropKey
  return { s with keyAllowed := false }

def separator (s : Scan) (t : Token) : Except LoadError Scan := do
  let s ← s.closeAll
  return s.pushAt (s.cursor.advance 3) t

def flowStart (s : Scan) (t : Token) : Except LoadError Scan := do
  let s ← s.saveKey
  return { s.pushAt s.cursor.next t with flow := s.flow + 1, keyAllowed := true }

def flowEnd (s : Scan) (t : Token) : Except LoadError Scan := do
  let s ← s.dropKey
  match s.flow with
  | 0 => .error .malformed
  | n + 1 => return { s.pushAt s.cursor.next t with flow := n, keyAllowed := false }

def flowEntry (s : Scan) : Except LoadError Scan := do
  let s ← s.dropKey
  return { s.pushAt s.cursor.next .flowEntry with keyAllowed := true }

def blockEntry (s : Scan) : Except LoadError Scan := do
  if s.flow == 0 && !s.keyAllowed then .error .malformed
  let s := if s.flow == 0 then s.openBlock .blockSequence else s
  let s ← s.dropKey
  return { s.pushAt s.cursor.next .blockEntry with keyAllowed := true }

def explicitKey (s : Scan) : Except LoadError Scan := do
  if s.flow == 0 && !s.keyAllowed then .error .malformed
  let s := if s.flow == 0 then s.openBlock .blockMapping else s
  let s ← s.dropKey
  return { s.pushAt s.cursor.next .key with keyAllowed := s.flow == 0 }

/-- A colon: the remembered token becomes a key, or the value of an explicit key begins. -/
def value (s : Scan) : Except LoadError Scan :=
  match s.keyPlace? with
  | some k =>
    let s := { s with keys := s.keys.filter fun p => p.1 != s.flow }
    let s := s.insertAt k.tokens .key
    let s := if s.flow == 0 then
        match s.deepen k.column with
        | some s => s.insertAt k.tokens .blockMapping
        | none => s
      else s
    .ok { s.pushAt s.cursor.next .value with keyAllowed := false }
  | none => do
    if s.flow == 0 && !s.keyAllowed then .error .malformed
    let s := if s.flow == 0 then s.openBlock .blockMapping else s
    let s ← s.dropKey
    return { s.pushAt s.cursor.next .value with keyAllowed := s.flow == 0 }

def keyable (s : Scan) (scan : Cursor → Except LoadError (Token × Cursor)) :
    Except LoadError Scan := do
  let s ← s.saveKey
  let (t, c) ← scan s.cursor
  return { s.pushAt c t with keyAllowed := false }

def block (s : Scan) (folded : Bool) : Except LoadError Scan := do
  let s ← s.dropKey
  let (t, c) ← blockScalar folded s.indent s.cursor
  return { s.pushAt c (.scalar false t) with keyAllowed := true }

def plain (s : Scan) : Except LoadError Scan := do
  let s ← s.saveKey
  let (t, broken, c) := plainScalar (s.flow != 0) (s.indent + 1) s.cursor
  return { s.pushAt c (.scalar true t) with keyAllowed := broken }

/-- Whether a plain scalar may begin with a character, given whether a gap follows it. -/
def mayStartPlain (flow gapNext : Bool) (x : CodePoint) : Bool :=
  let marks : Text := "-?:,[]\x7b\x7d#&*!|>'\"%@\x60"
  !(isTabOrSpace x || isBreak x || marks.contains x) ||
    (!gapNext && (x == '-' || (!flow && (x == '?' || x == ':'))))

def token (s : Scan) (x : CodePoint) : Except LoadError Scan :=
  let c := s.cursor
  let gapNext := c.gapAt 1
  let inFlow := s.flow != 0
  if x == '%' && c.column == 0 then do
    let s ← s.closeAll
    let (t, c) ← directiveToken s.cursor
    return s.pushAt c t
  else if x == '-' && c.column == 0 && c.atSeparator then s.separator .documentStart
  else if x == '.' && c.column == 0 && c.atSeparator then s.separator .documentEnd
  else if x == '[' then s.flowStart .flowSequence
  else if x == '{' then s.flowStart .flowMapping
  else if x == ']' then s.flowEnd .flowSequenceEnd
  else if x == '}' then s.flowEnd .flowMappingEnd
  else if x == ',' then s.flowEntry
  else if x == '-' && gapNext then s.blockEntry
  else if x == '?' && (inFlow || gapNext) then s.explicitKey
  else if x == ':' && (inFlow || gapNext) then s.value
  else if x == '*' then s.keyable fun c => (anchorName c).map fun p => (.alias p.1, p.2)
  else if x == '&' then s.keyable fun c => (anchorName c).map fun p => (.anchor p.1, p.2)
  else if x == '!' then s.keyable tagToken
  else if x == '|' && !inFlow then s.block false
  else if x == '>' && !inFlow then s.block true
  else if x == '\'' then
    s.keyable fun c => (quotedScalar false c).map fun p => (.scalar false p.1, p.2)
  else if x == '"' then
    s.keyable fun c => (quotedScalar true c).map fun p => (.scalar false p.1, p.2)
  else if mayStartPlain inFlow gapNext x then s.plain
  else .error .malformed

def step (s : Scan) : Except LoadError Scan := do
  let s ← s.toNextToken.dropStaleKeys
  let s := s.unwind s.cursor.column
  match s.cursor.rest with
  | [] =>
    let s ← s.closeAll
    return s.push .streamEnd
  | x :: _ => s.token x

/-- How many tokens come before the first one that may still become a key. -/
def settled (s : Scan) : Nat :=
  s.keys.foldl (fun n p => if s.isStale p.2 then n else min n p.2.tokens) s.count

/-- The tokens up to a failure. It is met at the first token that may still be a key, since what
such a token is cannot be told without what follows. -/
def failed (s : Scan) (e : LoadError) : List Token :=
  .failure e :: s.tokens.drop (s.count - s.settled)

def run : Nat → Scan → List Token
  | 0, s => s.tokens
  | fuel + 1, s =>
    match s.step with
    | .error e => s.failed e
    | .ok s =>
      match s.tokens with
      | .streamEnd :: _ => s.tokens
      | _ => run fuel s

end Scan

/-- The tokens of a text; the last one says whether the text was read to its end. -/
def Token.ofText (t : Text) : List Token :=
  if t.all isPrintable then ((Scan.start t).run (t.length + 2)).reverse
  else [.failure .malformed]

end RouteAtlas.Yaml
