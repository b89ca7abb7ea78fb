import RouteAtlas.Text.Class

/-!
# A place in YAML text

What is left of the text, with the number of characters read, the line and the column. The size of
the whole text bounds every scan from a place in it.
-/

namespace RouteAtlas.Yaml

def isPrintable (c : CodePoint) : Bool :=
  within c.toNat [(0x9, 0xA), (0xD, 0xD), (0x20, 0x7E), (0x85, 0x85), (0xA0, 0xD7FF),
    (0xE000, 0xFFFD), (0x10000, 0x10FFFF)]

def isBreak (c : CodePoint) : Bool :=
  c == '\r' || c == '\n' || c == '\u0085' || c == '\u2028' || c == '\u2029'

def isTabOrSpace (c : CodePoint) : Bool := c == ' ' || c == '\t'

structure Cursor where
  rest : Text
  index : Nat
  line : Nat
  column : Nat
  size : Nat

namespace Cursor

def start (t : Text) : Cursor := ⟨t, 0, 0, 0, t.length⟩

def left (c : Cursor) : Nat := c.size - c.index

def peek (c : Cursor) (n : Nat) : Option CodePoint := c.rest[n]?

def has (c : Cursor) (n : Nat) (p : CodePoint → Bool) : Bool := (c.peek n).any p

def isEnd (c : Cursor) : Bool := c.rest.isEmpty

/-- Whether a character or the end of a line or of the text is `n` places ahead. -/
def endsAt (c : Cursor) (n : Nat) (p : CodePoint → Bool) : Bool :=
  (c.peek n).all fun x => p x || isBreak x

def atLineEnd (c : Cursor) : Bool := c.endsAt 0 fun _ => false

/-- A blank or the end of a line or of the text is `n` places ahead. -/
def gapAt (c : Cursor) (n : Nat) : Bool := c.endsAt n isTabOrSpace

/-- The place behind one more character. A byte order mark takes no column. -/
def next (c : Cursor) : Cursor :=
  match c.rest with
  | [] => c
  | x :: r =>
    if isBreak x && !(x == '\r' && r.head? == some (.char '\n')) then
      { c with rest := r, index := c.index + 1, line := c.line + 1, column := 0 }
    else if x == '\uFEFF' then { c with rest := r, index := c.index + 1 }
    else { c with rest := r, index := c.index + 1, column := c.column + 1 }

def advance : Nat → Cursor → Cursor
  | 0, c => c
  | n + 1, c => advance n c.next

/-- The longest run of characters that satisfy `p`, and the place behind it. -/
def span (c : Cursor) (p : CodePoint → Bool) : Text × Cursor :=
  let run := c.rest.takeWhile p
  (run, c.advance run.length)

def skipWhile (c : Cursor) (p : CodePoint → Bool) : Cursor := (c.span p).2

def skipSpaces (c : Cursor) : Cursor := c.skipWhile (· == ' ')

/-- A line break, if there is one, as it counts in a scalar: most become a line feed. -/
def lineBreak (c : Cursor) : Text × Cursor :=
  match c.rest with
  | .char '\r' :: .char '\n' :: _ => ("\n", c.next.next)
  | x :: _ =>
    if x == '\r' || x == '\n' || x == '\u0085' then ("\n", c.next)
    else if isBreak x then ([x], c.next)
    else ([], c)
  | [] => ([], c)

/-- Whether three characters that separate documents stand here, with a gap behind them. -/
def atSeparator (c : Cursor) : Bool :=
  (c.rest.take 3 == [.char '-', .char '-', .char '-'] ||
    c.rest.take 3 == [.char '.', .char '.', .char '.']) && c.gapAt 3

end Cursor

end RouteAtlas.Yaml
