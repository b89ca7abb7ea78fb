import RouteAtlas.Json.Reader
import RouteAtlas.Yaml.Cursor
import RouteAtlas.Yaml.Error

/-!
# Scalars of YAML text

Plain, quoted and block scalars, each with the folding of lines that belongs to it. Every scan is
bounded by the number of characters left.
-/

namespace RouteAtlas.Yaml

abbrev Scanned := Except LoadError (Text × Cursor)

/-- The breaks and blanks between two lines of a quoted scalar: the breaks are kept. -/
def quotedBreaks : Nat → Cursor → Except LoadError (Text × Cursor)
  | 0, c => .ok ([], c)
  | fuel + 1, c =>
    if c.atSeparator then .error .malformed
    else
      let c := c.skipWhile isTabOrSpace
      if c.has 0 isBreak then do
        let (b, c) := c.lineBreak
        let (bs, c) ← quotedBreaks fuel c
        return (b ++ bs, c)
      else .ok ([], c)

/-- What stands between two words of a quoted scalar: blanks are kept within a line, one line feed
becomes a space, and of several the first is dropped. -/
def quotedSpaces (fuel : Nat) (c : Cursor) : Except LoadError (Text × Cursor) :=
  let (blanks, c) := c.span isTabOrSpace
  if c.isEnd then .error .malformed
  else if c.has 0 isBreak then do
    let (b, c) := c.lineBreak
    let (bs, c) ← quotedBreaks fuel c
    if b != "\n" then return (b ++ bs, c)
    else if bs.isEmpty then return (" ", c)
    else return (bs, c)
  else .ok (blanks, c)

def shortEscape? (c : CodePoint) : Option CodePoint :=
  match c with
  | .char '0' => some '\x00'
  | .char 'a' => some '\x07'
  | .char 'b' => some '\x08'
  | .char 't' => some '\t'
  | .char '\t' => some '\t'
  | .char 'n' => some '\n'
  | .char 'v' => some '\x0b'
  | .char 'f' => some '\x0c'
  | .char 'r' => some '\r'
  | .char 'e' => some '\x1b'
  | .char ' ' => some ' '
  | .char '"' => some '"'
  | .char '\\' => some '\\'
  | .char '/' => some '/'
  | .char 'N' => some '\u0085'
  | .char '_' => some '\u00a0'
  | .char 'L' => some '\u2028'
  | .char 'P' => some '\u2029'
  | _ => none

/-- How many digits an escape by number has. -/
def longEscape? (c : CodePoint) : Option Nat :=
  match c with
  | .char 'x' => some 2
  | .char 'u' => some 4
  | .char 'U' => some 8
  | _ => none

/-- A code point by its number in hexadecimal digits, exactly `count` of them. -/
def escapedNumber (count : Nat) (c : Cursor) : Except LoadError (CodePoint × Cursor) :=
  let ds := (c.rest.take count).filterMap Json.hexValue?
  if ds.length < count then .error .malformed
  else
    let n := ds.foldl (fun n d => 16 * n + d) 0
    if 0x80000000 ≤ n then .error (.scalar .hugeCodePoint)
    else if 0x110000 ≤ n then .error (.scalar .codePoint)
    else .ok (CodePoint.ofNat n, c.advance count)

/-- The characters of a word in quotes up to a blank, a break or the closing quote. -/
def quotedWord (double : Bool) : Nat → Cursor → Except LoadError (Text × Cursor)
  | 0, c => .ok ([], c)
  | fuel + 1, c =>
    match c.rest with
    | [] => .ok ([], c)
    | x :: r =>
      if isTabOrSpace x || isBreak x then .ok ([], c)
      else if x == '\'' && !double then
        if r.head? == some (.char '\'') then
          (quotedWord double fuel c.next.next).map fun p => (.char '\'' :: p.1, p.2)
        else .ok ([], c)
      else if x == '"' && double then .ok ([], c)
      else if x == '\\' && double then
        match r with
        | [] => .error .malformed
        | e :: _ =>
          match shortEscape? e, longEscape? e with
          | some y, _ => (quotedWord double fuel c.next.next).map fun p => (y :: p.1, p.2)
          | none, some count => do
            let (y, c) ← escapedNumber count c.next.next
            (quotedWord double fuel c).map fun p => (y :: p.1, p.2)
          | none, none =>
            if isBreak e then do
              let (_, c) := c.next.lineBreak
              let (bs, c) ← quotedBreaks fuel c
              (quotedWord double fuel c).map fun p => (bs ++ p.1, p.2)
            else .error .malformed
      else (quotedWord double fuel c.next).map fun p => (x :: p.1, p.2)

def quotedRest (double : Bool) : Nat → Cursor → Except LoadError (Text × Cursor)
  | 0, _ => .error .malformed
  | fuel + 1, c => do
    let (word, c) ← quotedWord double fuel c
    if c.has 0 (· == (if double then '"' else '\'')) then return (word, c.next)
    else
      let (gap, c) ← quotedSpaces fuel c
      let (more, c) ← quotedRest double fuel c
      return (word ++ gap ++ more, c)

def quotedScalar (double : Bool) (c : Cursor) : Scanned :=
  quotedRest double (c.left + 1) c.next

/-- The breaks between two lines of a plain scalar; `none` where a document is separated. -/
def plainBreaks : Nat → Cursor → Option Text × Cursor
  | 0, c => (some [], c)
  | fuel + 1, c =>
    if c.has 0 (· == ' ') then plainBreaks fuel c.next
    else if c.has 0 isBreak then
      let (b, c) := c.lineBreak
      if c.atSeparator then (none, c)
      else
        let (bs, c) := plainBreaks fuel c
        (bs.map (b ++ ·), c)
    else (some [], c)

/-- What stands between two words of a plain scalar, and whether a line ended there. -/
def plainSpaces (fuel : Nat) (c : Cursor) : Text × Bool × Cursor :=
  let (blanks, c) := c.span (· == ' ')
  if c.has 0 isBreak then
    let (b, c) := c.lineBreak
    if c.atSeparator then ([], true, c)
    else
      match plainBreaks fuel c with
      | (none, c) => ([], true, c)
      | (some bs, c) =>
        if b != "\n" then (b ++ bs, true, c)
        else if bs.isEmpty then (" ", true, c)
        else (bs, true, c)
  else (blanks, false, c)

def isFlowMark (c : CodePoint) : Bool :=
  c == ',' || c == '[' || c == ']' || c == '{' || c == '}'

/-- The characters of a plain word: up to a gap, a colon with a gap behind it and, inside of flow
collections, a mark of these. -/
def plainWord (flow : Bool) : Nat → Cursor → Text × Cursor
  | 0, c => ([], c)
  | fuel + 1, c =>
    match c.rest with
    | [] => ([], c)
    | x :: _ =>
      if isTabOrSpace x || isBreak x then ([], c)
      else if x == ':' && c.endsAt 1 (fun y => isTabOrSpace y || (flow && isFlowMark y)) then
        ([], c)
      else if flow && (isFlowMark x || x == '?') then ([], c)
      else
        let (w, c) := plainWord flow fuel c.next
        (x :: w, c)

/-- A plain scalar with `gap` before its next word, and whether it ended behind a line break. Lines
of it must be indented to `indent` outside of flow collections. -/
def plainRest (flow : Bool) (indent : Int) (gap : Text) (broken : Bool) :
    Nat → Cursor → Text × Bool × Cursor
  | 0, c => ([], broken, c)
  | fuel + 1, c =>
    if c.has 0 (· == '#') then ([], broken, c)
    else
      let (word, c) := plainWord flow fuel c
      if word.isEmpty then ([], broken, c)
      else
        let (gap', broken, c) := plainSpaces fuel c
        if gap'.isEmpty || c.has 0 (· == '#') || (!flow && (c.column : Int) < indent) then
          (gap ++ word, broken, c)
        else
          let (more, broken, c) := plainRest flow indent gap' broken fuel c
          (gap ++ word ++ more, broken, c)

def plainScalar (flow : Bool) (indent : Int) (c : Cursor) : Text × Bool × Cursor :=
  plainRest flow indent [] false (c.left + 1) c

/-- What becomes of the breaks at the end of a block scalar. -/
inductive Chomping where
  | strip
  | clip
  | keep
  deriving DecidableEq

/-- The header of a block scalar: an indentation and a chomping mark in either order. -/
def blockHeader (c : Cursor) : Except LoadError (Chomping × Option Nat × Cursor) := do
  let chomp := fun c : Cursor =>
    if c.has 0 (· == '+') then some (Chomping.keep, c.next)
    else if c.has 0 (· == '-') then some (Chomping.strip, c.next)
    else none
  let digit := fun c : Cursor =>
    match c.peek 0 with
    | some x => if x.isAsciiDigit then some (x.toNat - 48, c.next) else none
    | none => none
  let (chomping, increment, c) ←
    match chomp c with
    | some (k, c) =>
      match digit c with
      | some (0, _) => .error .malformed
      | some (n, c) => .ok (k, some n, c)
      | none => .ok (k, none, c)
    | none =>
      match digit c with
      | some (0, _) => .error .malformed
      | some (n, c) =>
        match chomp c with
        | some (k, c) => .ok (k, some n, c)
        | none => .ok (.clip, some n, c)
      | none => .ok (Chomping.clip, none, c)
  if c.endsAt 0 (· == ' ') then return (chomping, increment, c) else .error .malformed

/-- The rest of a line that may only hold a comment. -/
def ignoredLine (c : Cursor) : Except LoadError Cursor :=
  let c := c.skipSpaces
  let c := if c.has 0 (· == '#') then c.skipWhile (!isBreak ·) else c
  if c.atLineEnd then .ok c.lineBreak.2 else .error .malformed

/-- The empty lines before a block scalar, and the widest column that their spaces reach. -/
def leadingLines : Nat → Nat → Cursor → Text × Nat × Cursor
  | 0, widest, c => ([], widest, c)
  | fuel + 1, widest, c =>
    if c.has 0 (· == ' ') then
      let c := c.next
      leadingLines fuel (max widest c.column) c
    else if c.has 0 isBreak then
      let (b, c) := c.lineBreak
      let (bs, widest, c) := leadingLines fuel widest c
      (b ++ bs, widest, c)
    else ([], widest, c)

def indentTo (indent : Nat) : Nat → Cursor → Cursor
  | 0, c => c
  | fuel + 1, c =>
    if c.column < indent && c.has 0 (· == ' ') then indentTo indent fuel c.next else c

def blockBreaks (indent : Nat) : Nat → Cursor → Text × Cursor
  | 0, c => ([], c)
  | fuel + 1, c =>
    let c := indentTo indent fuel c
    if c.has 0 isBreak then
      let (b, c) := c.lineBreak
      let (bs, c) := blockBreaks indent fuel c
      (b ++ bs, c)
    else ([], c)

/-- The lines of a block scalar from a place at its indentation on, with the last break and the
empty lines behind it. In a folded scalar a line feed between two lines that begin with no blank
becomes a space, or nothing before empty lines. -/
def blockLines (folded : Bool) (indent : Nat) : Nat → Cursor → Text × Text × Text × Cursor
  | 0, c => ([], [], [], c)
  | fuel + 1, c =>
    let tight := !c.has 0 isTabOrSpace
    let (line, c) := c.span (!isBreak ·)
    let (b, c) := c.lineBreak
    let (bs, c) := blockBreaks indent fuel c
    if c.column = indent && !c.isEnd then
      let fold := folded && b == "\n" && tight && !c.has 0 isTabOrSpace
      let between : Text := if fold then (if bs.isEmpty then " " else bs) else b ++ bs
      let (more, last, tail, c) := blockLines folded indent fuel c
      (line ++ between ++ more, last, tail, c)
    else (line, b, bs, c)

/-- A block scalar whose parent is indented to `parent`. -/
def blockScalar (folded : Bool) (parent : Int) (c : Cursor) : Scanned := do
  let (chomping, increment, c) ← blockHeader c.next
  let c ← ignoredLine c
  let fuel := c.left + 1
  let least := (max (parent + 1) 1).toNat
  let (breaks, indent, c) :=
    match increment with
    | none =>
      let (bs, widest, c) := leadingLines fuel 0 c
      (bs, max least widest, c)
    | some n =>
      let (bs, c) := blockBreaks (least + n - 1) fuel c
      (bs, least + n - 1, c)
  let (body, last, tail, c) :=
    if c.column = indent && !c.isEnd then
      let (body, last, tail, c) := blockLines folded indent fuel c
      (breaks ++ body, last, tail, c)
    else ([], [], breaks, c)
  return (body ++ (if chomping = .strip then [] else last) ++
    (if chomping = .keep then tail else []), c)

end RouteAtlas.Yaml
