import Mathlib.Data.List.Induction
import Mathlib.Tactic.Common
import RouteAtlas.Text.CodePoint

/-!
# Distinct and sorted texts

Of a list of texts the first occurrences are kept, in order; sorting goes by code points.
-/

namespace RouteAtlas

namespace CodePoint

theorem toNat_char_ne_toNat_lone (c : Char) (n : Fin 0x800) :
    toNat (.char c) ≠ toNat (.lone n) := by
  have hc : c.toNat < 0xD800 ∨ 0xDFFF < c.toNat ∧ c.toNat < 0x110000 := c.valid
  have hn := toNat_lone n
  rw [toNat_char]
  omega

theorem eq_of_toNat_eq {c d : CodePoint} (h : c.toNat = d.toNat) : c = d := by
  cases c with
  | char c =>
    cases d with
    | char d => simpa [Char.toNat_inj] using h
    | lone n => exact absurd h (toNat_char_ne_toNat_lone c n)
  | lone m =>
    cases d with
    | char d => exact absurd h.symm (toNat_char_ne_toNat_lone d m)
    | lone n =>
      simp only [toNat] at h
      simp only [CodePoint.lone.injEq]
      omega

end CodePoint

namespace Text

@[simp] theorem distinct_nil : distinct [] = [] := rfl

theorem distinct_append_singleton (ts : List Text) (t : Text) :
    distinct (ts ++ [t]) = if t ∈ distinct ts then distinct ts else distinct ts ++ [t] := by
  unfold distinct
  rw [List.foldl_append]
  rfl

@[simp] theorem mem_distinct {ts : List Text} {t : Text} : t ∈ distinct ts ↔ t ∈ ts := by
  induction ts using List.reverseRecOn with
  | nil => simp
  | append_singleton ts s ih =>
    rw [distinct_append_singleton]
    split
    · rename_i h
      simp only [ih, List.mem_append, List.mem_singleton]
      constructor
      · exact Or.inl
      · rintro (ht | rfl)
        · exact ht
        · exact ih.1 h
    · simp [ih]

theorem nodup_distinct (ts : List Text) : (distinct ts).Nodup := by
  induction ts using List.reverseRecOn with
  | nil => simp
  | append_singleton ts t ih =>
    rw [distinct_append_singleton]
    split
    · exact ih
    · rename_i h
      refine List.nodup_append.2 ⟨ih, by simp, fun s hs r hr => ?_⟩
      rintro rfl
      exact h (List.mem_singleton.1 hr ▸ hs)

/-- Texts that have been met are not met again when a list follows that is distinct itself. -/
theorem distinct_append_distinct (ss ts : List Text) :
    distinct (ss ++ distinct ts) = distinct (ss ++ ts) := by
  induction ts using List.reverseRecOn with
  | nil => rfl
  | append_singleton ts t ih =>
    rw [distinct_append_singleton, ← List.append_assoc, distinct_append_singleton]
    by_cases h : t ∈ distinct ts
    · have ht : t ∈ distinct (ss ++ ts) := by simpa using Or.inr (mem_distinct.1 h)
      rw [if_pos h, if_pos ht, ih]
    · rw [if_neg h, ← List.append_assoc, distinct_append_singleton, ih]

/-- Texts met before a list only count by which they are. -/
theorem distinct_append_congr {rs ss : List Text} (h : distinct rs = distinct ss)
    (ts : List Text) : distinct (rs ++ ts) = distinct (ss ++ ts) := by
  unfold distinct at h ⊢
  rw [List.foldl_append, List.foldl_append, h]

theorem distinct_flatMap_distinct {α : Type} (f : α → List Text) (xs : List α) :
    distinct (xs.flatMap fun x => distinct (f x)) = distinct (xs.flatMap f) := by
  induction xs using List.reverseRecOn with
  | nil => rfl
  | append_singleton xs x ih =>
    simp only [List.flatMap_append, List.flatMap_singleton]
    rw [distinct_append_distinct, distinct_append_congr ih]

theorem le_total (s t : Text) : (le s t || le t s) = true := by
  induction s generalizing t with
  | nil => simp [le]
  | cons a s ih =>
    cases t with
    | nil => simp [le]
    | cons b t =>
      have h := ih t
      simp only [le, Bool.or_eq_true, decide_eq_true_eq, Bool.and_eq_true, beq_iff_eq] at h ⊢
      rcases Nat.lt_trichotomy a.toNat b.toNat with hl | he | hl
      · exact .inl (.inl hl)
      · have hab := CodePoint.eq_of_toNat_eq he
        subst hab
        simpa using h
      · exact .inr (.inl hl)

theorem le_trans (r s t : Text) (hrs : le r s) (hst : le s t) : le r t := by
  induction r generalizing s t with
  | nil => simp [le]
  | cons a r ih =>
    cases s with
    | nil => simp [le] at hrs
    | cons b s =>
      cases t with
      | nil => simp [le] at hst
      | cons c t =>
        simp only [le, Bool.or_eq_true, decide_eq_true_eq, Bool.and_eq_true, beq_iff_eq] at *
        rcases hrs with hab | ⟨rfl, hrs⟩
        · rcases hst with hbc | ⟨rfl, -⟩
          · exact .inl (by omega)
          · exact .inl hab
        · rcases hst with hbc | ⟨rfl, hst⟩
          · exact .inl hbc
          · exact .inr ⟨rfl, ih s t hrs hst⟩

theorem le_antisymm {s t : Text} (hst : le s t) (hts : le t s) : s = t := by
  induction s generalizing t with
  | nil =>
    cases t with
    | nil => rfl
    | cons b t => simp [le] at hts
  | cons a s ih =>
    cases t with
    | nil => simp [le] at hst
    | cons b t =>
      simp only [le, Bool.or_eq_true, decide_eq_true_eq, Bool.and_eq_true, beq_iff_eq] at hst hts
      rcases hst with hab | ⟨rfl, hst⟩
      · rcases hts with hba | ⟨rfl, -⟩ <;> omega
      · rcases hts with hba | ⟨-, hts⟩
        · omega
        · rw [ih hst hts]

theorem pairwise_sorted (ts : List Text) : (sorted ts).Pairwise fun s t => le s t :=
  List.pairwise_mergeSort le_trans le_total ts

theorem nodup_sorted {ts : List Text} (h : ts.Nodup) : (sorted ts).Nodup :=
  (List.mergeSort_perm ts le).nodup_iff.2 h

theorem sorted_distinct_congr {ss ts : List Text} (h : ∀ t, t ∈ ss ↔ t ∈ ts) :
    sorted (distinct ss) = sorted (distinct ts) := by
  have hp : (distinct ss).Perm (distinct ts) :=
    (List.perm_ext_iff_of_nodup (nodup_distinct ss) (nodup_distinct ts)).2 (by simpa using h)
  have hs : (sorted (distinct ss)).Perm (sorted (distinct ts)) :=
    ((List.mergeSort_perm _ le).trans hp).trans (List.mergeSort_perm _ le).symm
  exact hs.eq_of_pairwise (fun _ _ _ _ => le_antisymm) (pairwise_sorted _) (pairwise_sorted _)

end Text

end RouteAtlas
