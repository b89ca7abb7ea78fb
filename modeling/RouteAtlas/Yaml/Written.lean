import RouteAtlas.Yaml.Cursor
import RouteAtlas.Yaml.Tag
import RouteAtlas.Text.Utf8

/-!
# Texts as YAML scalars

A text is written plain if it reads back as a text, in single quotes if it holds no special
characters, and in double quotes otherwise. Lines are folded at blanks behind column eighty.
-/

namespace RouteAtlas.Yaml

/-- Line breaks within scalars; a carriage return is escaped and is none of them. -/
def isScalarBreak (c : CodePoint) : Bool :=
  c == '\n' || c == '\u0085' || c == '\u2028' || c == '\u2029'

def isGapMark (c : CodePoint) : Bool := isTabOrSpace c || isBreak c || c.toNat == 0

/-- Characters that may stand unescaped. -/
def isOrdinary (c : CodePoint) : Bool :=
  within c.toNat [(0xA, 0xA), (0x20, 0x7E), (0x85, 0x85), (0xA0, 0xD7FF), (0xE000, 0xFEFE),
    (0xFF00, 0xFFFD), (0x10000, 0x10FFFE)]

inductive ScalarStyle where
  | plain
  | single
  | double
  deriving DecidableEq

namespace ScalarStyle

def adjacent (p q : CodePoint → Bool) : Text → Bool
  | a :: b :: r => (p a && q b) || adjacent p q (b :: r)
  | _ => false

def isSpace (c : CodePoint) : Bool := c == ' '

def gapAhead (t : Text) : Bool := t.head?.all isGapMark

/-- Marks behind the first character: a colon before a gap, a number sign behind one. -/
def innerMark (afterGap : Bool) : Text → Bool
  | [] => false
  | c :: r =>
    (c == ':' && gapAhead r) || (c == '#' && afterGap) || innerMark (isGapMark c) r

/-- Characters that mean something else where a plain scalar would begin. -/
def leadingMarks : Text := "#,[]\x7b\x7d&*!|>'\"%@\x60"

/-- Whether a text would be read as something else than a plain scalar of a block. -/
def hasMarks (t : Text) : Bool :=
  match t with
  | [] => false
  | c :: r =>
    t.startsWith "---" || t.startsWith "..." || leadingMarks.contains c ||
      ((c == '?' || c == ':' || c == '-') && gapAhead r) || innerMark (isGapMark c) r

def isSpaceOrBreak (c : CodePoint) : Bool := isSpace c || isScalarBreak c

def ofText (t : Text) : ScalarStyle :=
  if adjacent isSpace isScalarBreak t || !t.all isOrdinary || adjacent isScalarBreak isSpace t then
    .double
  else if t.head?.any isSpaceOrBreak || t.getLast?.any isSpaceOrBreak || t.any isScalarBreak ||
      hasMarks t || Tag.ofForm t != .str then
    .single
  else .plain

end ScalarStyle

/-- A stretch of a text: spaces, breaks, or a word of anything else. -/
inductive Stretch where
  | spaces (count : Nat)
  | breaks (t : Text)
  | word (t : Text)
  deriving DecidableEq

namespace Stretch

def add (c : CodePoint) (ss : List Stretch) : List Stretch :=
  if c = ' ' then
    match ss with
    | .spaces n :: r => .spaces (n + 1) :: r
    | _ => .spaces 1 :: ss
  else if isScalarBreak c then
    match ss with
    | .breaks t :: r => .breaks (c :: t) :: r
    | _ => .breaks [c] :: ss
  else
    match ss with
    | .word t :: r => .word (c :: t) :: r
    | _ => .word [c] :: ss

/-- The longest stretches of a text. -/
def ofText : Text → List Stretch
  | [] => []
  | c :: r => add c (ofText r)

def text : Stretch → Text
  | .spaces n => List.replicate n (.char ' ')
  | .breaks t => t
  | .word t => t

end Stretch

namespace Written

/-- The column behind which lines are folded. -/
def width : Nat := 80

def spaces (n : Nat) : Text := List.replicate n (.char ' ')

def newLine (indent : Nat) : Text := .char '\n' :: spaces indent

/-- Plain text from a column on; where `fold` says so, single spaces behind the width become line
ends. -/
def plain (fold : Bool) (indent column : Nat) : List Stretch → Text
  | [] => []
  | .spaces n :: r =>
    if n = 1 ∧ width < column ∧ fold then newLine indent ++ plain fold indent indent r
    else spaces n ++ plain fold indent (column + n) r
  | s :: r => s.text ++ plain fold indent (column + s.text.length) r

def doubledQuotes (t : Text) : Text :=
  t.flatMap fun c : CodePoint => if c = '\'' then [c, c] else [c]

/-- Text between single quotes from a column on, with the closing quote. A line feed is written as
an empty line; spaces at either end stay. -/
def single (fold : Bool) (indent column : Nat) (isFirst : Bool) : List Stretch → Text
  | [] => "'"
  | .spaces n :: r =>
    if n = 1 ∧ width < column ∧ fold ∧ !isFirst ∧ !r.isEmpty then
      newLine indent ++ single fold indent indent false r
    else spaces n ++ single fold indent (column + n) false r
  | .breaks t :: r =>
    let extra : Text := if t.head? = some (.char '\n') then "\n" else []
    extra ++ t ++ spaces indent ++ single fold indent indent false r
  | .word t :: r =>
    let t := doubledQuotes t
    t ++ single fold indent (column + t.length) false r

def upperHex (digits n : Nat) : Text :=
  (Utf8.hexText digits n).map fun c =>
    match c with
    | .char x => .char x.toUpper
    | c => c

def shortEscape? (c : CodePoint) : Option Char :=
  match c.toNat with
  | 0x00 => some '0'
  | 0x07 => some 'a'
  | 0x08 => some 'b'
  | 0x09 => some 't'
  | 0x0A => some 'n'
  | 0x0B => some 'v'
  | 0x0C => some 'f'
  | 0x0D => some 'r'
  | 0x1B => some 'e'
  | 0x22 => some '"'
  | 0x5C => some '\\'
  | 0x85 => some 'N'
  | 0x2028 => some 'L'
  | 0x2029 => some 'P'
  | _ => none

def escape? (c : CodePoint) : Option Text :=
  let n := c.toNat
  match shortEscape? c with
  | some x => some [.char '\\', .char x]
  | none =>
    if within n [(0x20, 0x7E), (0xA0, 0xD7FF), (0xE000, 0xFEFE), (0xFF00, 0xFFFD)] then none
    else if n ≤ 0xFF then some ("\\x" ++ upperHex 2 n)
    else if n ≤ 0xFFFF then some ("\\u" ++ upperHex 4 n)
    else some ("\\U" ++ upperHex 8 n)

/-- The end of a folded line and the beginning of the next, where a leading space is escaped. -/
def continued (indent : Nat) (next : Option CodePoint) : Text × Nat :=
  let mark : Text := if next = some (.char ' ') then "\\" else []
  ("\\" ++ newLine indent ++ mark, indent + mark.length)

/-- Text between double quotes from a column on, with the closing quote. A line may be folded before
a space and next to an escape; `fresh` says that an escape has just been written. -/
def double (fold : Bool) (indent column : Nat) (isFirst fresh : Bool) : Text → Text
  | [] => "\""
  | c :: r =>
    let inside := fold && !isFirst && !r.isEmpty
    match escape? c with
    | some e =>
      let column := column + e.length
      if inside && width + 1 < column then
        let (gap, column) := continued indent r.head?
        e ++ gap ++ double fold indent column false true r
      else e ++ double fold indent column false true r
    | none =>
      if inside && (c == ' ' || fresh) && width < column then
        let (gap, column) := continued indent (some c)
        gap ++ c :: double fold indent (column + 1) false false r
      else c :: double fold indent (column + 1) false false r

/-- A text from a column on, in its style. Lines that continue it are indented. -/
def ofText (fold : Bool) (indent column : Nat) (t : Text) : Text :=
  match ScalarStyle.ofText t with
  | .plain => plain fold indent column (Stretch.ofText t)
  | .single => "'" ++ single fold indent (column + 1) true (Stretch.ofText t)
  | .double => "\"" ++ double fold indent (column + 1) true false t

end Written

end RouteAtlas.Yaml
