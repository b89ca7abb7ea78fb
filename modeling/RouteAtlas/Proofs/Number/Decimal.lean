import Mathlib.Data.Nat.Digits.Defs
import Mathlib.Tactic.Common
import RouteAtlas.Number.Decimal
import RouteAtlas.Text.Class

/-!
# Decimal digits of numbers

The digits of a number are ASCII digits, begin with zero only if they are those of zero, and write
the number they come from.
-/

namespace RouteAtlas

theorem CodePoint.isAsciiDigit_char (c : Char) : isAsciiDigit (.char c) = c.isDigit := by
  rw [Bool.eq_iff_iff, Char.isDigit_iff_toNat]
  have h0 : '0'.toNat = 0x30 := rfl
  have h9 : '9'.toNat = 0x39 := rfl
  rw [h0, h9, isAsciiDigit, within, toNat_char]
  split
  · simp only [Bool.false_eq_true, false_iff]
    omega
  · simp only [within, Bool.or_false, decide_eq_true_eq]
    omega

namespace Decimal

theorem isDigit_of_mem_toDigits {n : Nat} {c : Char} (h : c ∈ Nat.toDigits 10 n) : c.isDigit :=
  Nat.isDigit_of_mem_toDigits (by omega) (by omega) h

theorem ofDigits_toDigits (n : Nat) : ofDigits (Nat.toDigits 10 n) = n := by
  have h : ofDigits (Nat.toDigits 10 n) = Nat.ofDigitChars 10 (Nat.toDigits 10 n) 0 := by
    rw [Nat.ofDigitChars_eq_foldl]
    rfl
  rw [h, Nat.ofDigitChars_ten_toDigits]

theorem ofDigits_zeros (k : Nat) (cs : List Char) :
    ofDigits (List.replicate k '0' ++ cs) = ofDigits cs := by
  have hz : (List.replicate k '0').foldl (fun n c => 10 * n + digitValue c) 0 = 0 := by
    induction k with
    | zero => rfl
    | succ k ih =>
      rw [List.replicate_succ, List.foldl_cons]
      exact ih
  rw [ofDigits, List.foldl_append, hz, ofDigits]

theorem length_toDigits_le {n : Nat} (h : tooLong n = false) :
    (Nat.toDigits 10 n).length ≤ maxDigits := by
  -- Stated for any bound, so that the power is not computed.
  have hb (k : Nat) (hk : 0 < k) (hn : ¬ Nat.pow 10 k ≤ n) : (Nat.toDigits 10 n).length ≤ k :=
    (Nat.length_toDigits_le_iff (by omega) hk).2 (Nat.lt_of_not_le hn)
  exact hb maxDigits (Nat.succ_pos _) (of_decide_eq_false h)

theorem tooLong_eq_false {n k : Nat} (h : n < 10 ^ k) (hk : k ≤ maxDigits) :
    tooLong n = false := by
  have hb (m : Nat) (hm : k ≤ m) : ¬ Nat.pow 10 m ≤ n :=
    Nat.not_le.2 (Nat.lt_of_lt_of_le h (Nat.pow_le_pow_right (by omega) hm))
  exact decide_eq_false (hb maxDigits hk)

/-- Only zero has a digit zero at the beginning. -/
theorem exists_toDigits_cons {n : Nat} (hn : n ≠ 0) :
    ∃ c cs, Nat.toDigits 10 n = c :: cs ∧ c.isDigit ∧ c ≠ '0' := by
  induction n using Nat.strongRecOn with
  | ind n ih =>
    rw [Nat.toDigits_eq_if (by omega)]
    split
    · rename_i h
      refine ⟨n.digitChar, [], rfl, by simpa [Nat.isDigit_digitChar] using h, ?_⟩
      intro he
      have hv : n.digitChar.toNat = 48 := by rw [he]; rfl
      rw [Nat.toNat_digitChar_of_lt_ten h] at hv
      omega
    · rename_i h
      obtain ⟨c, cs, hc, hd, h0⟩ := ih (n / 10) (by omega) (by omega)
      exact ⟨c, cs ++ [(n % 10).digitChar], by rw [hc]; rfl, hd, h0⟩

theorem exists_ofInt_cons (n : Int) :
    ∃ c t, Text.ofInt n = .char c :: t ∧ (c.isDigit ∨ c = '-') := by
  cases n with
  | negSucc n => exact ⟨'-', _, rfl, .inr rfl⟩
  | ofNat n =>
    by_cases hn : n = 0
    · exact ⟨'0', [], by rw [hn]; rfl, .inl rfl⟩
    · obtain ⟨c, cs, hc, hd, -⟩ := exists_toDigits_cons hn
      exact ⟨c, cs.map .char, by simp [Text.ofInt, Text.ofNat, hc], .inl hd⟩

end Decimal

end RouteAtlas
