import RouteAtlas.Files.Tree
import RouteAtlas.Log

/-!
# Sessions

A session is the file tree that operations work on and the log that they leave. An action may fail;
what it has written and logged before stays.
-/

namespace RouteAtlas

structure Session where
  files : Files.System
  log : Log

abbrev Action (ε α : Type) := ExceptT ε (StateM Session) α

namespace Action

variable {ε ε' α : Type}

def outcome (a : Action ε α) (s : Session) : Except ε α × Session := StateT.run (ExceptT.run a) s

def mapError (f : ε → ε') (a : Action ε α) : Action ε' α :=
  ExceptT.mk ((ExceptT.run a).map (·.mapError f))

/-- An action that cannot fail: its outcome, error or not, is its value. -/
def attempt (a : Action ε α) : Action ε' (Except ε α) := ExceptT.mk ((ExceptT.run a).map .ok)

def ofExcept (x : Except ε α) : Action ε α := ExceptT.mk (pure x)

@[simp] theorem outcome_pure (a : α) (s : Session) : (pure a : Action ε α).outcome s = (.ok a, s) :=
  rfl

@[simp] theorem outcome_throw (e : ε) (s : Session) :
    (throw e : Action ε α).outcome s = (.error e, s) := rfl

theorem outcome_bind {β : Type} (a : Action ε α) (f : α → Action ε β) (s : Session) :
    (a >>= f).outcome s = match a.outcome s with
      | (.ok x, s) => (f x).outcome s
      | (.error e, s) => (.error e, s) := by
  unfold outcome ExceptT.run StateT.run
  simp only [bind, ExceptT.bind, ExceptT.mk, StateT.bind, ExceptT.bindCont]
  cases h : a s with
  | mk x t => cases x <;> rfl

@[simp] theorem outcome_ofExcept (x : Except ε α) (s : Session) : (ofExcept x).outcome s = (x, s) :=
  rfl

@[simp] theorem outcome_attempt (a : Action ε α) (s : Session) :
    (attempt a : Action ε' (Except ε α)).outcome s = (.ok (a.outcome s).1, (a.outcome s).2) := rfl

@[simp] theorem outcome_mapError (f : ε → ε') (a : Action ε α) (s : Session) :
    (mapError f a).outcome s = ((a.outcome s).1.mapError f, (a.outcome s).2) := rfl

def files : Action ε Files.System := return (← get).files

def change (f : Files.System → Except ε Files.System) : Action ε Unit := do
  match f (← files) with
  | .ok fs => modify fun s => { s with files := fs }
  | .error e => throw e

/-- Makes a directory and those above it that are absent; what has been made stays. -/
def makeDirs (p : Files.Path) : Action Files.AccessError Unit := do
  let (fs, e) := (← files).madeDirs p
  modify fun s => { s with files := fs }
  match e with
  | none => return
  | some e => throw e

def note (level : Level) (origin : Origin) (message : Text) : Action ε Unit :=
  modify fun s => { s with log := s.log ++ [⟨level, origin, message⟩] }

end Action

end RouteAtlas
