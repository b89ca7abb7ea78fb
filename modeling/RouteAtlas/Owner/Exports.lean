import RouteAtlas.Owner.Naming
import RouteAtlas.Text.Word

/-!
# Handlers exported by a controller file

A handler is declared under a name that ends in the handler suffix, or listed between the braces of
an export. Names are found in the order of the declaration forms, and each is kept once.
-/

namespace RouteAtlas.Owner

def someBlanks? : Text → Option Text
  | [] => none
  | c :: r => if c.isBlank then some (Text.trimLeft r) else none

/-- Reads words, each with blanks behind it. -/
def phrase? : List Text → Text → Option Text
  | [], t => some t
  | w :: ws, t => do
    let t ← Text.after w t
    let t ← someBlanks? t
    phrase? ws t

/-- A name that ends in the suffix, and what is left after one of the marks behind it. -/
def named? (suffix : Text) (marks : List CodePoint) (t : Text) : Option (Text × Text) := do
  let (fromSuffix, r) ← Text.afterSomeRun CodePoint.isWord (fun fromSuffix => do
    let behind ← Text.after suffix fromSuffix
    match behind.trimLeft with
    | [] => none
    | c :: r => if c ∈ marks then some (fromSuffix, r) else none) t
  let run := t.takeWhile CodePoint.isWord
  let givenBack := (fromSuffix.takeWhile CodePoint.isWord).length
  return (run.take (run.length - givenBack) ++ suffix, r)

def declared? (suffix : Text) (marks : List CodePoint) (words : List Text) (t : Text) :
    Option (Text × Text) := do
  let t ← phrase? words t
  named? suffix marks t

/-- The declaration words with or without an export before them. -/
def declaredAnyhow? (suffix : Text) (t : Text) : Option (Text × Text) :=
  let forms : List (List Text) :=
    [["const"], ["async", "const"], ["function"], ["async", "function"]]
  let plain := fun t => forms.findSome? fun ws => declared? suffix ['=', '('] ws t
  ((phrase? ["export"] t).bind plain) <|> plain t

/-- A definition that only blanks precede on its lines. -/
def defined? (suffix : Text) (before : Option CodePoint) (t : Text) : Option (Text × Text) := do
  guard (before.all fun c : CodePoint => c == '\n')
  let t := t.trimLeft
  declared? suffix ['('] ["async", "def"] t <|> declared? suffix ['('] ["def"] t

/-- The declaration forms in the order in which they are sought. -/
def forms (suffix : Text) : List (Text.Pattern Text) := [
  fun _ => declared? suffix ['='] ["export", "const"],
  fun _ => declared? suffix ['='] ["export", "async", "const"],
  fun _ => declared? suffix ['('] ["export", "async", "function"],
  fun _ => declared? suffix ['('] ["export", "function"],
  fun _ => declaredAnyhow? suffix,
  defined? suffix]

/-- What stands between the braces of an export list; there is something. -/
def exportList : Text.Pattern Text := fun _ t => do
  let t ← Text.after "export" t
  let t ← Text.after "\x7b" t.trimLeft
  let body := t.upTo '}'
  guard (!body.isEmpty)
  let t ← Text.after "\x7d" (t.drop body.length)
  return (body, t)

def aliasAhead (t : Text) : Bool := ((Text.after "as" t).bind someBlanks?).isSome

def withoutAlias : Text → Text
  | [] => []
  | c :: r => if c.isBlank && aliasAhead (Text.trimLeft r) then [] else c :: withoutAlias r

/-- The name that an item of an export list has before its alias, if the item shows the suffix. -/
def listed? (suffix : Text) (item : Text) : Option Text :=
  let item := item.trim
  if Text.occursIn suffix item then
    let own := (withoutAlias item).trim
    if own.isIdentifier then some own else none
  else none

/-- The exported handlers in first-seen order. -/
def handlerNames (n : Naming) (text : Text) : List Text :=
  let declared := (forms n.handlerSuffix).flatMap fun p => (Text.occurrences p text).map (·.1)
  let listed := (Text.occurrences exportList text).flatMap fun o =>
    (o.1.cut ',').filterMap (listed? n.handlerSuffix)
  Text.distinct (declared ++ listed)

end RouteAtlas.Owner
