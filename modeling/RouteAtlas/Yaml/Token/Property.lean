import RouteAtlas.Yaml.Token.Basic
import RouteAtlas.Yaml.Token.Scalar

/-!
# Anchors, tags and directives of YAML text
-/

namespace RouteAtlas.Yaml

def isLabel (c : CodePoint) : Bool := c.isLatin || c.isAsciiDigit || c == '-' || c == '_'

def isUri (c : CodePoint) : Bool :=
  c.isLatin || c.isAsciiDigit || ("-;/?:@&=+$,_.!~*'()[]" : Text).contains c

def anchorName (c : Cursor) : Except LoadError (Text × Cursor) :=
  let (name, c) := c.next.span isLabel
  let mayFollow := fun x : CodePoint => isTabOrSpace x || ("?:,]\x7d%@\x60" : Text).contains x
  if name.isEmpty || !c.endsAt 0 mayFollow then .error .malformed else .ok (name, c)

/-- The bytes of percent escapes standing together. -/
def escapedBytes : Nat → Cursor → Except LoadError (Bytes × Cursor)
  | 0, c => .ok ([], c)
  | fuel + 1, c =>
    if c.has 0 (· == '%') then
      match (c.rest.drop 1).take 2 with
      | [a, b] =>
        match Json.hexValue? a, Json.hexValue? b with
        | some a, some b =>
          (escapedBytes fuel (c.advance 3)).map fun p => (UInt8.ofNat (16 * a + b) :: p.1, p.2)
        | _, _ => .error .malformed
      | _ => .error .malformed
    else .ok ([], c)

/-- The characters of a tag, escapes read as UTF-8. -/
def uri : Nat → Cursor → Except LoadError (Text × Cursor)
  | 0, c => .ok ([], c)
  | fuel + 1, c =>
    if c.has 0 (· == '%') then do
      let (bs, c) ← escapedBytes (c.left + 1) c
      match Utf8.decode bs with
      | .error _ => .error .malformed
      | .ok t => (uri fuel c).map fun p => (t ++ p.1, p.2)
    else
      let (run, c) := c.span isUri
      if run.isEmpty then .ok ([], c) else (uri fuel c).map fun p => (run ++ p.1, p.2)

def someUri (c : Cursor) : Except LoadError (Text × Cursor) :=
  if c.has 0 fun x => isUri x || x == '%' then uri (c.left + 1) c else .error .malformed

/-- A handle: an exclamation mark alone before a space, or two with a label between them. -/
def tagHandle (c : Cursor) : Except LoadError (Text × Cursor) :=
  if !c.has 0 (· == '!') then .error .malformed
  else if c.has 1 (· == ' ') then .ok ("!", c.next)
  else
    let (name, d) := c.next.span isLabel
    if d.has 0 (· == '!') then .ok ("!" ++ name ++ "!", d.next) else .error .malformed

/-- A tag: verbatim between angle brackets, alone, or a handle with a suffix. -/
def tagToken (c : Cursor) : Except LoadError (Token × Cursor) := do
  let (token, c) ←
    if c.has 1 (· == '<') then
      let (suffix, c) ← someUri (c.advance 2)
      if c.has 0 (· == '>') then pure (Token.tag none suffix, c.next) else .error .malformed
    else if c.gapAt 1 then pure (Token.tag none "!", c.next)
    else
      let word := (c.rest.drop 1).takeWhile fun x : CodePoint => x != ' ' && !isBreak x
      let (handle, c) ←
        if word.contains (CodePoint.char '!') then tagHandle c else pure ("!", c.next)
      let (suffix, c) ← someUri c
      pure (Token.tag (some handle) suffix, c)
  if c.endsAt 0 (· == ' ') then return (token, c) else .error .malformed

def versionNumber (c : Cursor) : Except LoadError (Nat × Cursor) :=
  let (ds, c) := c.span CodePoint.isAsciiDigit
  if ds.isEmpty then .error .malformed
  else if Decimal.maxDigits < ds.length then .error (.scalar (.tooManyDigits ds.length))
  else .ok (ds.foldl (fun n d => 10 * n + (d.toNat - 48)) 0, c)

/-- A directive line from its percent sign to the beginning of the next line. -/
def directiveToken (c : Cursor) : Except LoadError (Token × Cursor) := do
  let (name, c) := c.next.span isLabel
  if name.isEmpty || !c.endsAt 0 (· == ' ') then .error .malformed
  let (directive, c) ←
    if name = "YAML" then
      let (major, c) ← versionNumber c.skipSpaces
      if !c.has 0 (· == '.') then .error .malformed
      let (minor, c) ← versionNumber c.next
      if !c.endsAt 0 (· == ' ') then .error .malformed
      pure (Directive.version major minor, c)
    else if name = "TAG" then
      let (handle, c) ← tagHandle c.skipSpaces
      if !c.has 0 (· == ' ') then .error .malformed
      let (stem, c) ← someUri c.skipSpaces
      if !c.endsAt 0 (· == ' ') then .error .malformed
      pure (Directive.tagHandle handle stem, c)
    else pure (Directive.reserved, c.skipWhile (!isBreak ·))
  let c ← ignoredLine c
  return (.directive directive, c)

end RouteAtlas.Yaml
