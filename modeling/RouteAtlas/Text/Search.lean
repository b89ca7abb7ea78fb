import RouteAtlas.Text.Class

/-!
# Trimming, cutting and searching texts

A pattern reads the beginning of a text and gives what it found with what is left. Runs of
characters are tried longest first, so a pattern may give back characters that it has run over.
-/

namespace RouteAtlas.Text

def isBlank (t : Text) : Bool := t.all CodePoint.isBlank

def trimLeft (t : Text) : Text := t.dropWhile CodePoint.isBlank

def trimRight (t : Text) : Text := (t.reverse.dropWhile CodePoint.isBlank).reverse

def trim (t : Text) : Text := trimRight (trimLeft t)

/-- The pieces between the separators, one more than there are separators. -/
def cut (sep : CodePoint) : Text → List Text
  | [] => [[]]
  | c :: r =>
    if c = sep then [] :: cut sep r
    else match cut sep r with
      | [] => [[c]]
      | p :: ps => (c :: p) :: ps

theorem cut_ne_nil (sep : CodePoint) (t : Text) : cut sep t ≠ [] := by
  cases t with
  | nil => simp [cut]
  | cons c r =>
    by_cases h : c = sep
    · simp [cut, h]
    · simp only [cut, h, if_false]
      cases cut sep r <;> simp

def upTo (sep : CodePoint) (t : Text) : Text := t.takeWhile (· != sep)

/-- The part after the last separator, or all. -/
def afterLast (sep : CodePoint) (t : Text) : Text := (t.reverse.takeWhile (· != sep)).reverse

def join (sep : Text) (ts : List Text) : Text := sep.intercalate ts

def startsWith (t w : Text) : Bool := w.isPrefixOf t

def endsWith (t w : Text) : Bool := w.isSuffixOf t

def after (w t : Text) : Option Text := if w.isPrefixOf t then some (t.drop w.length) else none

@[simp] theorem after_append (w t : Text) : after w (w ++ t) = some t := by
  simp [after]

theorem eq_append_of_after {w t r : Text} (h : after w t = some r) : t = w ++ r := by
  unfold after at h
  split at h
  · rename_i hp
    obtain ⟨s, rfl⟩ := List.isPrefixOf_iff_prefix.1 hp
    simpa using h
  · cases h

def occursIn (w : Text) : Text → Bool
  | [] => w.isEmpty
  | c :: r => w.isPrefixOf (c :: r) || occursIn w r

/-- Goes on after the longest run of `p` from which `k` can go on. -/
def afterRun {α : Type} (p : CodePoint → Bool) (k : Text → Option α) : Text → Option α
  | [] => k []
  | c :: r => if p c then afterRun p k r <|> k (c :: r) else k (c :: r)

/-- As `afterRun`, for a run of at least one character. -/
def afterSomeRun {α : Type} (p : CodePoint → Bool) (k : Text → Option α) : Text → Option α
  | [] => none
  | c :: r => if p c then afterRun p k r else none

def afterBlanks {α : Type} (k : Text → Option α) : Text → Option α := afterRun CodePoint.isBlank k

/-- A pattern sees the character before the place where it is tried. -/
abbrev Pattern (α : Type) := Option CodePoint → Text → Option (α × Text)

/-- The occurrences of a pattern from left to right, each with what is left after it; the next is
sought from the end of the one before. While `skip` is positive the scan is inside an occurrence. -/
def occurrencesFrom {α : Type} (p : Pattern α) (before : Option CodePoint) (skip : Nat) :
    Text → List (α × Text)
  | [] => []
  | c :: r =>
    match skip with
    | n + 1 => occurrencesFrom p (some c) n r
    | 0 =>
      match p before (c :: r) with
      | some (a, rest) => (a, rest) :: occurrencesFrom p (some c) (r.length - rest.length) r
      | none => occurrencesFrom p (some c) 0 r

def occurrences {α : Type} (p : Pattern α) (t : Text) : List (α × Text) :=
  occurrencesFrom p none 0 t

/-- Whether a pattern that needs no character before it is found anywhere. -/
def finds (p : Text → Bool) : Text → Bool
  | [] => p []
  | c :: r => p (c :: r) || finds p r

end RouteAtlas.Text
