import Mathlib.Data.List.Basic
import Mathlib.Tactic.Common
import RouteAtlas.Text.Word

/-!
# Names and white space

No character is both white space and part of a name.
-/

namespace RouteAtlas

theorem exists_mem_of_within {n : Nat} {rs : List (Nat × Nat)} (h : within n rs) :
    ∃ r ∈ rs, r.1 ≤ n ∧ n ≤ r.2 := by
  induction rs with
  | nil => simp [within] at h
  | cons r rs ih =>
    obtain ⟨a, b⟩ := r
    simp only [within] at h
    split at h
    · simp at h
    · rename_i ha
      rcases Bool.or_eq_true_iff.1 h with hb | hb
      · exact ⟨(a, b), by simp, Nat.not_lt.1 ha, by simpa using hb⟩
      · obtain ⟨s, hs, hn⟩ := ih hb
        exact ⟨s, by simp [hs], hn⟩

/-- The numbers in ranges have a property if all numbers that the ranges list have it. -/
theorem of_within {p : Nat → Bool} {rs : List (Nat × Nat)}
    (h : rs.all fun r => (List.range (r.2 + 1 - r.1)).all fun i => p (r.1 + i)) {n : Nat}
    (hn : within n rs) : p n := by
  obtain ⟨r, hr, ha, hb⟩ := exists_mem_of_within hn
  have hi : n - r.1 < r.2 + 1 - r.1 := by omega
  have := List.all_eq_true.1 (List.all_eq_true.1 h r hr) (n - r.1) (List.mem_range.2 hi)
  rwa [Nat.add_sub_cancel' ha] at this

namespace CodePoint

variable {c : CodePoint}

theorem ne_of_class {p : CodePoint → Bool} {d : CodePoint} (hc : p c) (hd : p d = false) :
    c ≠ d := by
  rintro rfl
  simp [hc] at hd

theorem isName_of_isBlank (h : c.isBlank) : c.isName = false := by
  have hw : (!within c.toNat wordRanges) = true :=
    of_within (p := fun n => !within n wordRanges) (by decide +kernel) h
  have hd : c ≠ .char '$' := ne_of_class h (by decide)
  simpa [isName, isWord, hd] using hw

theorem isBlank_of_isName (h : c.isName) : c.isBlank = false := by
  by_contra hb
  simp [isName_of_isBlank (by simpa using hb)] at h

theorem isName_of_isNameStart (h : c.isNameStart) : c.isName := by
  simp only [isNameStart, Bool.or_eq_true, beq_iff_eq] at h
  rcases h with (h | rfl) | rfl
  · have hw : c.isWord := of_within (p := fun n => within n wordRanges) (by decide +kernel) h
    simp [isName, hw]
  · decide
  · decide

theorem isBlank_of_isNameStart (h : c.isNameStart) : c.isBlank = false :=
  isBlank_of_isName (isName_of_isNameStart h)

theorem isNameStart_of_isBlank (h : c.isBlank) : c.isNameStart = false := by
  rw [← Bool.not_eq_true]
  intro hn
  simp [isBlank_of_isNameStart hn] at h

end CodePoint

namespace Text

theorem exists_cons_of_isIdentifier {t : Text} (h : isIdentifier t) :
    ∃ c r, t = c :: r ∧ c.isNameStart ∧ ∀ d ∈ r, d.isName := by
  cases t with
  | nil => simp [isIdentifier] at h
  | cons c r =>
    simp only [isIdentifier, Bool.and_eq_true, List.all_eq_true] at h
    exact ⟨c, r, rfl, h.1, h.2⟩

theorem forall_isName_of_isIdentifier {t : Text} (h : isIdentifier t) : ∀ c ∈ t, c.isName := by
  obtain ⟨c, r, rfl, hc, hr⟩ := exists_cons_of_isIdentifier h
  intro d hd
  rcases List.mem_cons.1 hd with rfl | hd
  · exact CodePoint.isName_of_isNameStart hc
  · exact hr d hd

end Text

end RouteAtlas
