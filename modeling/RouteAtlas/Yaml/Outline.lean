import RouteAtlas.Json.Basic

/-!
# Outlines of documents

An object that stands in several places is written at the first one under an anchor and as an alias
at the others. Anchors are numbered in the order in which objects are met for the second time.
Scalars have no anchors.
-/

namespace RouteAtlas.Yaml

inductive Outline where
  | scalar (v : Json)
  | alias (number : Nat)
  | list (anchor : Option Nat) (items : List Outline)
  | map (anchor : Option Nat) (entries : List (Text × Outline))

namespace Outline

instance : Inhabited Outline := ⟨.scalar .null⟩

/-- The objects met so far, and those of them met again, in order. -/
structure Census where
  met : List Nat
  again : List Nat

def isCollection : Json → Bool
  | .list _ => true
  | .obj _ => true
  | .shared _ v => isCollection v
  | _ => false

mutual

/-- Meets the objects of a value; what has been met is not entered again. -/
def survey (s : Census) : Json → Census
  | .list vs => surveyItems s vs
  | .obj fs => surveyFields s fs
  | .shared mark v =>
    if !isCollection v then s
    else if mark ∈ s.met then
      if mark ∈ s.again then s else { s with again := s.again ++ [mark] }
    else survey { s with met := mark :: s.met } v
  | _ => s

def surveyItems (s : Census) : List Json → Census
  | [] => s
  | v :: vs => surveyItems (survey s v) vs

def surveyFields (s : Census) : List (Text × Json) → Census
  | [] => s
  | (_, v) :: fs => surveyFields (survey s v) fs

end

/-- The number of an anchor, from one on. -/
def number? (again : List Nat) (mark : Nat) : Option Nat :=
  if mark ∈ again then some ((again.takeWhile (· != mark)).length + 1) else none

mutual

/-- The outline of a value, and the objects written when it is complete. -/
def draw (again written : List Nat) (anchor : Option Nat) : Json → Outline × List Nat
  | .list vs =>
    let (items, written) := drawItems again written vs
    (.list anchor items, written)
  | .obj fs =>
    let (entries, written) := drawFields again written fs
    (.map anchor entries, written)
  | .shared mark v =>
    match number? again mark with
    | none => draw again written anchor v
    | some n =>
      if mark ∈ written then (.alias n, written) else draw again (mark :: written) (some n) v
  | v => (.scalar v, written)

def drawItems (again written : List Nat) : List Json → List Outline × List Nat
  | [] => ([], written)
  | v :: vs =>
    let (o, written) := draw again written none v
    let (os, written) := drawItems again written vs
    (o :: os, written)

def drawFields (again written : List Nat) : List (Text × Json) → List (Text × Outline) × List Nat
  | [] => ([], written)
  | (k, v) :: fs =>
    let (o, written) := draw again written none v
    let (os, written) := drawFields again written fs
    ((k, o) :: os, written)

end

def ofJson (v : Json) : Outline := (draw (survey ⟨[], []⟩ v).again [] none v).1

end Outline

end RouteAtlas.Yaml
