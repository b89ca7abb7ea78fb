import RouteAtlas.Text.Search

/-!
# Cutting source text at its outer commas

A scan of source text knows whether it stands inside a string literal and how many more brackets
were opened than closed. Commas inside of brackets or literals do not cut. Nothing is assumed of
the text: brackets need not match and literals need not end.
-/

namespace RouteAtlas.Source

/-- Whether a scan is in code, in a literal, or behind the backslash of a literal. -/
inductive Mode where
  | code
  | quoted (quote : CodePoint)
  | escaped (quote : CodePoint)
  deriving DecidableEq

structure Place where
  mode : Mode
  depth : Int
  deriving DecidableEq

def isQuote (c : CodePoint) : Bool := c == '"' || c == '\'' || c == '\x60'

def isOpener (c : CodePoint) : Bool := c == '(' || c == '[' || c == '{'

def isCloser (c : CodePoint) : Bool := c == ')' || c == ']' || c == '}'

namespace Place

def start : Place := ⟨.code, 0⟩

def step (p : Place) (c : CodePoint) : Place :=
  match p.mode with
  | .escaped q => ⟨.quoted q, p.depth⟩
  | .quoted q =>
    if c = '\\' then ⟨.escaped q, p.depth⟩
    else if c = q then ⟨.code, p.depth⟩
    else p
  | .code =>
    if isQuote c then ⟨.quoted c, p.depth⟩
    else if isOpener c then ⟨.code, p.depth + 1⟩
    else if isCloser c then ⟨.code, p.depth - 1⟩
    else p

def run (p : Place) (t : Text) : Place := t.foldl step p

@[simp] theorem run_nil (p : Place) : p.run [] = p := rfl

@[simp] theorem run_cons (p : Place) (c : CodePoint) (t : Text) :
    p.run (c :: t) = (p.step c).run t := rfl

theorem run_append (p : Place) (s t : Text) : p.run (s ++ t) = (p.run s).run t := by
  simp [run]

def isOuter (p : Place) : Bool := p.mode == .code && p.depth == 0

end Place

/-- All pieces between outer commas, one more than there are outer commas. -/
def cutOuter (p : Place) : Text → List Text
  | [] => [[]]
  | c :: r =>
    if c = ',' ∧ p.isOuter then [] :: cutOuter p r
    else match cutOuter (p.step c) r with
      | [] => [[c]]
      | q :: qs => (c :: q) :: qs

theorem cutOuter_ne_nil (p : Place) (t : Text) : cutOuter p t ≠ [] := by
  cases t with
  | nil => simp [cutOuter]
  | cons c r =>
    simp only [cutOuter]
    split
    · simp
    · split <;> simp

/-- A last piece of white space only is no piece. -/
def dropBlankLast : List Text → List Text
  | [] => []
  | [p] => if p.isBlank then [] else [p]
  | p :: q :: ps => p :: dropBlankLast (q :: ps)

/-- The pieces between outer commas; a blank last piece is left out. -/
def pieces (t : Text) : List Text := dropBlankLast (cutOuter .start t)

/-- The text up to the bracket that closes the outermost one, if there is such a bracket. -/
def enclosed (p : Place) : Text → Option Text
  | [] => none
  | c :: r =>
    if p.mode = .code ∧ isCloser c ∧ p.depth = 1 then some []
    else (enclosed (p.step c) r).map (c :: ·)

/-- The arguments of a call, given the text behind its opening parenthesis; none if the call does
not end. -/
def arguments (t : Text) : List Text :=
  match enclosed ⟨.code, 1⟩ t with
  | some inside => pieces inside
  | none => []

end RouteAtlas.Source
