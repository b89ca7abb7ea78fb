import Mathlib.Data.List.TakeWhile
import RouteAtlas.Proofs.Number.Decimal
import RouteAtlas.Proofs.Yaml.Plain
import RouteAtlas.Yaml.Load
import RouteAtlas.Yaml.Printer

/-!
# Scalars by their form

Integers, truth values and nothing are written plain, and a text only if it is read as a text.
-/

namespace RouteAtlas

namespace Integer

theorem asciiForm_digits {cs : List Char} (h : ∀ c ∈ cs, c.isDigit) :
    asciiForm (cs.map .char) = cs := by
  rw [asciiForm, List.map_map]
  refine (List.map_congr_left fun c hc => ?_).trans (List.map_id cs)
  have hd := Char.isDigit_iff_toNat.1 (h c hc)
  have h9 : '9'.toNat = 0x39 := rfl
  have hn : c.toNat < 0x7F := by omega
  simp [hn]

theorem digitOf?_digit {c : Char} (h : c.isDigit) :
    digitOf? 10 c = some (Decimal.digitValue c) := by
  have hd := Char.isDigit_iff_toNat.1 h
  have h0 : '0'.toNat = 0x30 := rfl
  have h9 : '9'.toNat = 0x39 := rfl
  have hn : c.toNat - 48 < 10 := by omega
  simp [digitOf?, h, Decimal.digitValue, hn]

theorem ne_of_isDigit {c d : Char} (h : c.isDigit) (hd : d.isDigit = false) : c ≠ d := by
  rintro rfl
  simp [h] at hd

theorem digits_digits {cs : List Char} (h : ∀ c ∈ cs, c.isDigit) :
    digits 10 cs = some (cs.map Decimal.digitValue, []) := by
  induction cs with
  | nil => rfl
  | cons c r ih =>
    have ih := ih fun d hd => h d (by simp [hd])
    have hc := digitOf?_digit (h c (by simp))
    rw [digits]
    · simp [hc, ih]
    · rintro e r' rfl
      exact absurd (h '_' (by simp)) (by decide)

theorem ofText_ofNat {n : Nat} (h : Decimal.tooLong n = false) :
    ofText 10 (Text.ofNat n) = .ok n := by
  have hd : ∀ c ∈ Nat.toDigits 10 n, c.isDigit := fun c hc => Decimal.isDigit_of_mem_toDigits hc
  obtain ⟨c, r, hc⟩ := List.exists_cons_of_ne_nil (Nat.toDigits_ne_nil (n := n) (b := 10))
  have hc' : c.isDigit := hd c (by simp [hc])
  have hsp : dropSpace (Nat.toDigits 10 n) = Nat.toDigits 10 n := by
    have hd' := Char.isDigit_iff_toNat.1 hc'
    have h0 : '0'.toNat = 0x30 := rfl
    have hs : c ≠ ' ' := ne_of_isDigit hc' (by decide)
    have hn : isSpace c = false := by
      simp [isSpace, hs]
      omega
    simp [dropSpace, hc, hn]
  have hsi : sign (Nat.toDigits 10 n) = (false, Nat.toDigits 10 n) := by
    rw [hc, sign]
    · rintro r' ⟨⟩
      exact absurd hc' (by decide)
    · rintro r' ⟨⟩
      exact absurd hc' (by decide)
  have hb : dropBase 10 (Nat.toDigits 10 n) = Nat.toDigits 10 n := by
    unfold dropBase
    split
    · simp
    · rfl
  have hl := Decimal.length_toDigits_le h
  have hf : (Nat.toDigits 10 n).foldl (fun n c => 10 * n + Decimal.digitValue c) 0 = n :=
    Decimal.ofDigits_toDigits n
  rw [ofText, Text.ofNat, asciiForm_digits hd]
  have hne : ((Nat.toDigits 10 n).map Decimal.digitValue).isEmpty = false := by simp [hc]
  have hnil : dropSpace [] = [] := rfl
  simp only [hsp, hsi, hb, digits_digits hd, List.length_map, Nat.not_lt.2 hl, and_false, if_false,
    hne, hnil, List.isEmpty_nil, Bool.not_true, Bool.or_false, Bool.false_eq_true, List.foldl_map,
    hf]

end Integer

namespace Yaml

namespace Number

theorem filter_digits {cs : List Char} (h : ∀ c ∈ cs, c.isDigit) :
    (cs.map CodePoint.char).filter (fun c : CodePoint => c != '_') = cs.map .char := by
  refine List.filter_eq_self.2 fun c hc => ?_
  obtain ⟨x, hx, rfl⟩ := List.mem_map.1 hc
  have hne : x ≠ '_' := Integer.ne_of_isDigit (h x hx) (by decide)
  simpa using hne

theorem int_of_unsigned {t : Text} {negative : Bool} {k : Nat}
    (hu : unsigned t = .ok (negative, Text.ofNat k)) (h0 : k ≠ 0)
    (hk : Decimal.tooLong k = false) : int t = .ok (if negative then -(k : Int) else k) := by
  obtain ⟨c, cs, hc, hd, hc0⟩ := Decimal.exists_toDigits_cons h0
  have ht : Text.ofNat k = .char c :: cs.map .char := by simp [Text.ofNat, hc]
  have hcolon : ':' ≠ c ∧ ':' ∉ cs := by
    have hm : ':' ∉ Nat.toDigits 10 k := fun hm =>
      absurd (Decimal.isDigit_of_mem_toDigits hm) (by decide)
    simpa [hc] using hm
  have hr := Integer.ofText_ofNat hk
  rw [ht] at hr
  rw [int, hu, ht]
  simp [bind, Except.bind, pure, Except.pure, hc0, hcolon, readInt, hr]

theorem int_ofInt {n : Int} (h : Decimal.tooLong n.natAbs = false) :
    int (Text.ofInt n) = .ok n := by
  cases n with
  | ofNat k =>
    by_cases h0 : k = 0
    · subst h0
      decide
    · obtain ⟨c, cs, hc, hd, -⟩ := Decimal.exists_toDigits_cons h0
      have hm : c ≠ '-' := Integer.ne_of_isDigit hd (by decide)
      have hp : c ≠ '+' := Integer.ne_of_isDigit hd (by decide)
      have hu : unsigned (Text.ofInt (.ofNat k)) = .ok (false, Text.ofNat k) := by
        have hf := filter_digits fun c => Decimal.isDigit_of_mem_toDigits (n := k)
        rw [unsigned, Text.ofInt, Text.ofNat, hf, hc]
        simp [hm, hp]
      exact int_of_unsigned hu h0 h
  | negSucc k =>
    have hu : unsigned (Text.ofInt (.negSucc k)) = .ok (true, Text.ofNat (k + 1)) := by
      have hf := filter_digits fun c => Decimal.isDigit_of_mem_toDigits (n := k + 1)
      have hm : (CodePoint.char '-' != CodePoint.char '_') = true := by decide
      rw [unsigned, Text.ofInt, Text.ofNat, List.filter_cons, if_pos hm, hf]
      simp
    exact int_of_unsigned hu (Nat.succ_ne_zero k) h

end Number

def form : Json → Text
  | .null => "null"
  | .bool b => if b then "true" else "false"
  | .int n => Text.ofInt n
  | .str t => t
  | _ => []

def formTag : Json → Tag
  | .null => .null
  | .bool _ => .bool
  | .int _ => .int
  | _ => .str

section Integers

/-- Digits, perhaps behind a minus sign, and all of them at the beginning. -/
theorem exists_ofInt_digits (n : Int) : ∃ sign ds, Text.ofInt n = (sign ++ ds).map .char ∧
    (sign = [] ∨ sign = ['-']) ∧ ds ≠ [] ∧ (∀ c ∈ ds, c.isDigit) ∧
      (ds.head? ≠ some '0' ∨ ds = ['0']) := by
  cases n with
  | ofNat k =>
    refine ⟨[], Nat.toDigits 10 k, rfl, .inl rfl, Nat.toDigits_ne_nil,
      fun c hc => Decimal.isDigit_of_mem_toDigits hc, ?_⟩
    by_cases h0 : k = 0
    · exact .inr (by rw [h0]; rfl)
    · obtain ⟨c, cs, hc, -, hc0⟩ := Decimal.exists_toDigits_cons h0
      exact .inl (by simpa [hc] using hc0)
  | negSucc k =>
    obtain ⟨c, cs, hc, -, hc0⟩ := Decimal.exists_toDigits_cons (Nat.succ_ne_zero k)
    exact ⟨['-'], Nat.toDigits 10 (k + 1), rfl, .inr rfl, Nat.toDigits_ne_nil,
      fun c hc => Decimal.isDigit_of_mem_toDigits hc, .inl (by simpa [hc] using hc0)⟩

theorem number?_digits {p : Char → Bool} {c : Char} {r : List Char} (h : ∀ d ∈ c :: r, d.isDigit)
    (hc : p c) : Tag.number? p (c :: r) = some [] := by
  have hd : r.dropWhile Tag.isDigitOrLine = [] := by
    rw [List.dropWhile_eq_nil_iff]
    intro d hd
    simp [Tag.isDigitOrLine, h d (by simp [hd])]
  simp [Tag.number?, h c (by simp), hc, hd]

theorem dropSign_digits {sign ds : List Char} (hs : sign = [] ∨ sign = ['-'])
    (hd : ∀ c ∈ ds, c.isDigit) : Tag.dropSign (sign ++ ds) = ds := by
  rcases hs with rfl | rfl
  · unfold Tag.dropSign
    split
    · rename_i r heq
      have heq : ds = '+' :: r := heq
      exact absurd (hd '+' (by simp [heq])) (by decide)
    · rename_i r heq
      have heq : ds = '-' :: r := heq
      exact absurd (hd '-' (by simp [heq])) (by decide)
    · rfl
  · rfl

theorem isFloat_digits {sign ds : List Char} (hs : sign = [] ∨ sign = ['-']) (hne : ds ≠ [])
    (hd : ∀ c ∈ ds, c.isDigit) : Tag.isFloat (sign ++ ds) = false := by
  obtain ⟨c, r, rfl⟩ := List.exists_cons_of_ne_nil hne
  have hn := number?_digits (p := fun _ => true) hd rfl
  have hc : c ≠ '.' := Integer.ne_of_isDigit (hd c (by simp)) (by decide)
  unfold Tag.isFloat
  rw [dropSign_digits hs hd]
  simp only [hn]
  rcases hs with rfl | rfl
  · simp [Tag.someSixtieths?, Tag.sixtieth?, hc]
  · simp [Tag.someSixtieths?, Tag.sixtieth?, hc]

theorem isInt_digits {sign ds : List Char} (hs : sign = [] ∨ sign = ['-']) (hne : ds ≠ [])
    (hd : ∀ c ∈ ds, c.isDigit) (h0 : ds.head? ≠ some '0' ∨ ds = ['0']) :
    Tag.isInt (sign ++ ds) = true := by
  unfold Tag.isInt
  rw [dropSign_digits hs hd]
  rcases h0 with h0 | rfl
  · obtain ⟨c, r, rfl⟩ := List.exists_cons_of_ne_nil hne
    have hn := number?_digits (p := fun c => c != '0') hd (by simpa using h0)
    simp [hn]
  · rfl

theorem ofForm_ofInt (n : Int) : Tag.ofForm (Text.ofInt n) = .int := by
  obtain ⟨sign, ds, ht, hs, hne, hd, h0⟩ := exists_ofInt_digits n
  have hmem : ∀ c ∈ sign ++ ds, c.isDigit ∨ c = '-' := by
    rcases hs with rfl | rfl <;> simpa using fun c hc => .inl (hd c hc)
  have hbreak : (Text.ofInt n).getLast? ≠ some (.char '\n') := by
    intro h
    obtain ⟨c, hc, hc'⟩ := List.mem_map.1 (ht ▸ List.mem_of_getLast? h)
    cases hc'
    exact absurd (hmem _ hc) (by decide)
  have hdrop : Tag.dropFinalBreak (Text.ofInt n) = Text.ofInt n := by
    rw [Tag.dropFinalBreak, if_neg hbreak]
  have hwords : (Tag.truths.any fun w => (Tag.spellings w.1).contains (Text.ofInt n)) = false := by
    have hall : (Tag.truths.all fun w => (Tag.spellings w.1).all fun s =>
        s.any fun c => !(c == '-' || c.isAsciiDigit)) = true := by decide +kernel
    rw [List.any_eq_false]
    intro w hw hc
    have hs := List.all_eq_true.1 (List.all_eq_true.1 hall w hw) _ (List.contains_iff_mem.1 hc)
    obtain ⟨c, hc, hc'⟩ := List.any_eq_true.1 hs
    obtain ⟨x, hx, rfl⟩ := List.mem_map.1 (ht ▸ hc)
    rcases hmem x hx with h | rfl
    · simp [CodePoint.isAsciiDigit_char, h] at hc'
    · simp at hc'
  rw [Tag.ofForm, if_neg, hdrop]
  · dsimp only
    have hc : (Text.ofInt n).chars? = some (sign ++ ds) := by rw [ht, Text.chars?_map_char]
    simp only [hc, hwords, Bool.false_eq_true, if_false, isFloat_digits hs hne hd,
      isInt_digits hs hne hd h0, if_true]
  · intro h
    exact hbreak (by rw [h]; rfl)

end Integers

theorem ofForm_null : Tag.ofForm "null" = .null := by decide +kernel

theorem ofForm_bool (b : Bool) : Tag.ofForm (form (.bool b)) = .bool := by
  cases b <;> decide +kernel

end Yaml

end RouteAtlas
