import Mathlib.Tactic.Common
import RouteAtlas.Files.Tree
import RouteAtlas.Proofs.Text.Search

/-!
# Paths that can be used

A path that names a file and is not too long can be looked up, and so can the directories above.
-/

namespace RouteAtlas

theorem Text.exists_join_append (sep : Text) (xs ys : List Text) :
    ∃ t, join sep (xs ++ ys) = join sep xs ++ t := by
  induction xs with
  | nil => exact ⟨join sep ys, by simp [join]⟩
  | cons x xs ih =>
    cases xs with
    | nil =>
      cases ys with
      | nil => exact ⟨[], by simp⟩
      | cons y ys => exact ⟨sep ++ join sep (y :: ys), by simp [join]⟩
    | cons z zs =>
      obtain ⟨t, ht⟩ := ih
      refine ⟨t, ?_⟩
      rw [List.cons_append, List.cons_append, join_cons_cons, ← List.cons_append, ht,
        join_cons_cons]
      simp

namespace Files

theorem byteLength_append_le {s t : Text} (h : (s ++ t).mapM Utf8.nameBytes? ≠ none) :
    byteLength s ≤ byteLength (s ++ t) := by
  obtain ⟨bs, hb⟩ := Option.ne_none_iff_exists'.1 h
  have hb' := hb
  rw [List.mapM_append] at hb
  obtain ⟨cs, hc, hb⟩ := Option.bind_eq_some_iff.1 hb
  obtain ⟨ds, hd, hb⟩ := Option.bind_eq_some_iff.1 hb
  obtain rfl : cs ++ ds = bs := Option.some.inj hb
  simp [byteLength, Utf8.encodeName, hb', hc]

theorem ofText?_eq_none_iff {t : Text} : NameError.ofText? t = none ↔
    t.mapM Utf8.nameBytes? ≠ none ∧ CodePoint.char '\x00' ∉ t := by
  unfold NameError.ofText? Utf8.encodeName
  cases t.mapM Utf8.nameBytes? <;> simp

def Path.Usable (p : Path) : Prop :=
  NameError.ofText? p.toText = none ∧ byteLength p.toText ≤ maxPath

theorem Path.exists_toText_append (p : Path) (names : List Text)
    (h : ¬(p.anchor = .relative ∧ p.names = [])) :
    ∃ t, (Path.mk p.anchor (p.names ++ names)).toText = p.toText ++ t := by
  obtain ⟨t, ht⟩ := Text.exists_join_append "/" p.names names
  have h' : ¬(p.anchor = .relative ∧ p.names ++ names = []) := by simp_all
  exact ⟨t, by simp only [toText, h, h', if_false, ht, List.append_assoc]⟩

theorem Path.Usable.of_append {p : Path} {names : List Text}
    (h : (Path.mk p.anchor (p.names ++ names)).Usable) : p.Usable := by
  by_cases hp : p.anchor = .relative ∧ p.names = []
  · unfold Usable toText
    rw [if_pos hp]
    decide
  · obtain ⟨t, ht⟩ := p.exists_toText_append names hp
    obtain ⟨he, hl⟩ := h
    rw [ht] at he hl
    obtain ⟨hm, hn⟩ := ofText?_eq_none_iff.1 he
    refine ⟨ofText?_eq_none_iff.2 ⟨?_, ?_⟩, Nat.le_trans (byteLength_append_le hm) hl⟩
    · intro hs
      rw [List.mapM_append, hs] at hm
      exact hm rfl
    · exact fun hs => hn (List.mem_append_left _ hs)

end Files

end RouteAtlas
