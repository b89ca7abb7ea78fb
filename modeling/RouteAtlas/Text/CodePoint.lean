/-!
# Texts as sequences of code points

A text is a list of code points. A code point is a character or a surrogate that stands
without its partner; texts with such a surrogate arise from escapes and have no UTF-8 form.
-/

namespace RouteAtlas

/-- A Unicode code point: a character, or the surrogate `0xD800 + n`. -/
inductive CodePoint where
  | char (c : Char)
  | lone (n : Fin 0x800)
  deriving DecidableEq

abbrev Text := List CodePoint

namespace CodePoint

instance : Inhabited CodePoint := ⟨.char ' '⟩

instance : Coe Char CodePoint := ⟨.char⟩

def toNat : CodePoint → Nat
  | .char c => c.toNat
  | .lone n => 0xD800 + n.val

/-- The code point of a number; numbers above the last one give the replacement character. -/
def ofNat (n : Nat) : CodePoint :=
  if n.isValidChar then .char (Char.ofNat n)
  else if h : 0xD800 ≤ n ∧ n < 0xE000 then .lone ⟨n - 0xD800, by omega⟩
  else .char '\uFFFD'

def le (a b : CodePoint) : Bool := a.toNat ≤ b.toNat

def isLone : CodePoint → Bool
  | .char _ => false
  | .lone _ => true

@[simp] theorem isLone_char (c : Char) : isLone (.char c) = false := rfl

@[simp] theorem toNat_char (c : Char) : toNat (.char c) = c.toNat := rfl

theorem toNat_lone (n : Fin 0x800) : 0xD800 ≤ toNat (.lone n) ∧ toNat (.lone n) < 0xE000 := by
  simp only [toNat]
  omega

end CodePoint

namespace Text

def ofString (s : String) : Text := s.toList.map .char

instance : Coe String Text := ⟨ofString⟩

@[simp] theorem ofString_append (s t : String) : ofString (s ++ t) = ofString s ++ ofString t := by
  simp [ofString]

/-- Lexicographic order by code point number; a text comes after its proper beginnings. -/
def le : Text → Text → Bool
  | [], _ => true
  | _ :: _, [] => false
  | a :: s, b :: t => a.toNat < b.toNat || (a == b && le s t)

/-- Sorted by code point, equal texts kept. -/
def sorted (ts : List Text) : List Text := ts.mergeSort le

/-- The first occurrence of every text, in order. -/
def distinct (ts : List Text) : List Text :=
  ts.foldl (fun seen t => if t ∈ seen then seen else seen ++ [t]) []

/-- The characters of a text; `none` if a surrogate stands alone in it. -/
def chars? : Text → Option (List Char)
  | [] => some []
  | .char c :: r => (chars? r).map (c :: ·)
  | .lone _ :: _ => none

@[simp] theorem chars?_map_char (cs : List Char) : chars? (cs.map .char) = some cs := by
  induction cs with
  | nil => rfl
  | cons c cs ih => simp [chars?, ih]

theorem eq_map_char_of_chars? {t : Text} {cs : List Char} (h : chars? t = some cs) :
    t = cs.map .char := by
  induction t generalizing cs with
  | nil => simp_all [chars?]
  | cons c t ih =>
    cases c with
    | lone n => simp [chars?] at h
    | char c =>
      obtain ⟨ds, hd, rfl⟩ := Option.map_eq_some_iff.1 h
      simp [ih hd]

end Text

end RouteAtlas
