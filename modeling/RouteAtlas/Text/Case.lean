import RouteAtlas.Text.CaseTable
import RouteAtlas.Text.Class

/-!
# Upper and lower case

Full case mappings: a character may become several, and a capital sigma becomes the final form at
the end of a word. Comparison without regard to case goes character by character.
-/

namespace RouteAtlas

namespace CodePoint

def mapped (runs : List CaseRun) (c : CodePoint) : CodePoint :=
  match CaseRun.move? c.toNat runs with
  | some n => ofNat n
  | none => c

/-- The lower case of a character outside of a word: more than one character only for the dotted
capital i. -/
def lower (c : CodePoint) : Text :=
  if c.toNat = 0x130 then [.char 'i', .char '\u0307'] else [c.mapped CaseTable.lower]

def upper (c : CodePoint) : Text :=
  match CaseTable.upperLong.lookup c.toNat with
  | some ns => ns.map ofNat
  | none => [c.mapped CaseTable.upper]

/-- Two characters agree when case is ignored if they have the same key. -/
def caseKey (c : CodePoint) : Nat :=
  let n := if c.toNat = 0x130 then 0x69 else (c.mapped CaseTable.lower).toNat
  (CaseTable.variants.lookup n).getD n

def agrees (a b : CodePoint) : Bool := a.caseKey == b.caseKey

def isIgnorable (c : CodePoint) : Bool := within c.toNat CaseTable.ignorable

def isCased (c : CodePoint) : Bool := within c.toNat CaseTable.cased

end CodePoint

namespace Text

/-- Whether the next character that is not looked through is cased. -/
def casedAhead : Text → Bool
  | [] => false
  | c :: r => if c.isIgnorable then casedAhead r else c.isCased

/-- Lower case of a part of a text; `inWord` says whether a cased character comes before it. -/
def lowerFrom (inWord : Bool) : Text → Text
  | [] => []
  | c :: r =>
    let next := if c.isIgnorable then inWord else c.isCased
    if c.toNat = 0x3A3 then
      .char (if inWord && !casedAhead r then 'ς' else 'σ') :: lowerFrom next r
    else c.lower ++ lowerFrom next r

def lower (t : Text) : Text := lowerFrom false t

def upper (t : Text) : Text := t.flatMap CodePoint.upper

/-- First character in upper case, the others in lower case. -/
def capitalized : Text → Text
  | [] => []
  | c :: r => c.upper ++ lower r

/-- What is left after a beginning that agrees with `w` when case is ignored. -/
def afterAgreeing : Text → Text → Option Text
  | [], s => some s
  | _ :: _, [] => none
  | a :: w, b :: s => if a.agrees b then afterAgreeing w s else none

end Text

end RouteAtlas
