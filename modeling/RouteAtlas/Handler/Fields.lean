import RouteAtlas.Handler.Pieces
import RouteAtlas.Text.Case
import RouteAtlas.Text.Word

/-!
# Fields that handlers read and send

The source of a handler is matched against a few idioms. Request fields come from destructuring of
the wrapper, destructuring of the carrier and access chains on the carrier; response fields are the
keys of the object literal that a success call or a raw call is given. Text that fits no idiom
contributes nothing.
-/

namespace RouteAtlas

/-- The source idioms: the wrapper field, the expression that carries the request, and the names of
the calls that send a response. -/
structure Grammar where
  wrapper : Text := "reqData"
  carrier : Text := "req.body"
  successCall : Text := "sendSuccess"
  rawCall : Text := "res.json"
  deriving DecidableEq

namespace Source

/-- The name that an entry of a destructuring pattern binds from. -/
def boundName? (entry : Text) : Option Text :=
  let entry := entry.trim
  if entry.isEmpty || entry.startsWith "..." then none
  else
    let key := ((entry.upTo '=').upTo ':').trim
    if key.isIdentifier then some key else none

def boundNames (body : Text) : List Text := (pieces body).filterMap boundName?

def isObjectLiteral (argument : Text) : Bool :=
  argument.trim.head? == some (.char '{') && argument.trim.getLast? == some (.char '}')

/-- A key up to its colon, with `close` behind the key. -/
def keyBefore? (close : Text) : Text → Option Text
  | [] => none
  | c :: r => do
    guard c.isNameStart
    let more := fun d : CodePoint => d.isName || d == '-'
    let r' ← Text.after close (r.dropWhile more)
    let _ ← Text.after ":" r'.trimLeft
    return c :: r.takeWhile more

/-- The key of an entry of an object literal: before a colon, quoted or not, or an identifier. -/
def literalKey? (entry : Text) : Option Text :=
  let entry := entry.trim
  if entry.isEmpty || entry.startsWith "..." then none
  else
    let keyed := match entry with
      | .char '"' :: r => keyBefore? "\"" r
      | .char '\'' :: r => keyBefore? "'" r
      | _ => keyBefore? [] entry
    keyed <|> if entry.isIdentifier then some entry else none

/-- The keys of an object literal; the first and the last character are taken for its braces. -/
def literalKeys (literal : Text) : List Text :=
  Text.distinct ((pieces (literal.trim.drop 1).dropLast).filterMap literalKey?)

def notBrace (c : CodePoint) : Bool := c != '{' && c != '}'

/-- Binding of the names in braces from `subject`, which no name character may follow. `eats` says
how words are read. -/
def destructuring (eats : Text → Text → Option Text) (subject : Text) : Text.Pattern Text :=
  fun _ t => do
    let t ← eats "const" t <|> eats "let" t <|> eats "var" t
    let t ← Text.after "\x7b" t.trimLeft
    let body := t.takeWhile notBrace
    let t ← Text.after "\x7d" (t.dropWhile notBrace)
    let t ← Text.after "=" t.trimLeft
    let t ← Text.afterBlanks (fun t => do
      let t ← eats subject t
      if t.nameAhead then none else some t) t
    return (body, t)

/-- One step of an access chain: a point, with or without a question mark before it, and a name. -/
def accessStep? (t : Text) : Option (Text × Text) := do
  let t ← Text.after "?." t <|> Text.after "." t
  match t with
  | [] => none
  | c :: r =>
    if c.isNameStart then some (c :: r.takeWhile (·.isName), r.dropWhile (·.isName)) else none

/-- The last name of the longest access chain, with what is left; `fuel` bounds its length. -/
def accessChain? : Nat → Text → Option (Text × Text)
  | 0, _ => none
  | fuel + 1, t => do
    let (name, rest) ← accessStep? t
    return (accessChain? fuel rest).getD (name, rest)

/-- Access through `subject`, which no name character and no point may precede. -/
def access (subject : Text) : Text.Pattern Text := fun before t => do
  guard (before.all fun c : CodePoint => !c.isName && c != '.')
  let t ← Text.after subject t
  accessChain? t.length t

/-- A call of `callee`, which no name character may precede, up to its parenthesis. -/
def call (callee : Text) : Text.Pattern Unit := fun before t => do
  guard (before.all fun c : CodePoint => !c.isName)
  let t ← Text.after callee t
  let t ← Text.after "(" t.trimLeft
  return ((), t)

/-- Names bound from the wrapper after the first pattern on the carrier that binds the wrapper. -/
def wrappedNames (g : Grammar) (source : Text) : List Text :=
  let wrapper := g.wrapper.lower
  let outer := (Text.occurrences (destructuring Text.after g.carrier) source).find? fun o =>
    ((boundNames o.1).map Text.lower).contains wrapper
  match outer with
  | none => []
  | some (_, rest) =>
    match (Text.occurrences (destructuring Text.afterAgreeing g.wrapper) rest).head? with
    | none => []
    | some (body, _) => boundNames body

/-- The distinct names that are not empty and not the wrapper in any case. -/
def withoutWrapper (g : Grammar) (names : List Text) : List Text :=
  Text.distinct (names.filter fun n => !n.isEmpty && n.lower != g.wrapper.lower)

def requestFields (g : Grammar) (source : Text) : List Text :=
  let bound := (Text.occurrences (destructuring Text.after g.carrier) source).flatMap
    fun o => boundNames o.1
  let accessed := (Text.occurrences (access g.carrier) source).map (·.1)
  withoutWrapper g (wrappedNames g source ++ bound ++ accessed)

/-- The argument at `index` of a call, if it looks like an object literal. -/
def literalArgument? (index : Nat) (call : Unit × Text) : Option Text :=
  (arguments call.2)[index]?.filter isObjectLiteral

/-- The literal that the response is read from: the second argument of the first success call that
has one there, else the first argument of the first raw call that has one there. -/
def responseLiteral? (g : Grammar) (source : Text) : Option Text :=
  (Text.occurrences (call g.successCall) source).findSome? (literalArgument? 1) <|>
  (Text.occurrences (call g.rawCall) source).findSome? (literalArgument? 0)

def responseFields (g : Grammar) (source : Text) : List Text :=
  match responseLiteral? g source with
  | some literal => literalKeys literal
  | none => []

end Source

end RouteAtlas
