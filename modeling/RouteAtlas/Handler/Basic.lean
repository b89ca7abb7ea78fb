import RouteAtlas.Text.Quoted

/-!
# Route handlers

A handler is known by its name and its source text and is never run. A handler may be applied to
some of its arguments, and it may wrap another one. A wrapper that wraps itself, at once or through
others, has no source to be found unless it declares one.
-/

namespace RouteAtlas

inductive Handler where
  | absent
  | declared (name source : Option Text)
  | applied (inner : Handler)
  | wrapper (inner : Handler) (name source : Option Text)
  | wrapsItself (name source : Option Text)

inductive HandlerError where
  | notCallable
  | wrapperLoop
  | cannotRun (name : Option Text)
  deriving DecidableEq

namespace HandlerError

def message : HandlerError → Text
  | .notCallable => "the first argument must be callable"
  | .wrapperLoop => "wrapper loop when unwrapping <wrapper>"
  | .cannotRun name => "Declared handler '" ++ name.getD "None" ++ "' cannot be executed"

end HandlerError

namespace Handler

/-- Application to some arguments; nothing cannot be applied. -/
def apply : Handler → Except HandlerError Handler
  | .absent => .error .notCallable
  | h => .ok (.applied h)

def base : Handler → Handler
  | .applied h => base h
  | h => h

def ownName : Handler → Option Text
  | .declared name _ => name
  | .wrapper _ name _ => name
  | .wrapsItself name _ => name
  | .absent | .applied _ => none

def ownSource : Handler → Option Text
  | .declared _ source => source
  | .wrapper _ _ source => source
  | .wrapsItself _ source => source
  | .absent | .applied _ => none

/-- The name it was defined under; anonymous functions have none. -/
def name (h : Handler) : Text :=
  match h.base.ownName with
  | some n => if n = "<lambda>" then [] else n
  | none => []

def maxWrappers : Nat := 999

/-- How many wrappers stand around each other; no number if following them never comes to an end. -/
def wrappers? : Handler → Option Nat
  | .wrapper inner _ _ => (wrappers? inner).map (· + 1)
  | .wrapsItself _ _ => none
  | .absent | .declared _ _ | .applied _ => some 0

/-- Whether following wrappers runs in a loop; too many of them count as one. -/
def loops (h : Handler) : Bool := !h.wrappers?.any (· ≤ maxWrappers)

/-- The declared source; without one it is empty, unless the search for it runs in a loop. -/
def source (h : Handler) : Except HandlerError Text :=
  match h.base.ownSource with
  | some s => .ok s
  | none => if h.base.loops then .error .wrapperLoop else .ok []

/-- No handler can be run. -/
def invoke : Handler → HandlerError
  | .absent => .notCallable
  | .declared name _ => .cannotRun name
  | .applied h => invoke h
  | .wrapper inner _ _ => invoke inner
  | .wrapsItself name _ => .cannotRun name

/-- Only declared handlers are shown in messages. -/
def shown? : Handler → Option Text
  | .declared name _ =>
    let name : Text := (name.map Text.quoted).getD "None"
    some ("DeclaredHandler(" ++ name ++ ")")
  | _ => none

end Handler

end RouteAtlas
