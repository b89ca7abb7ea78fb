import Mathlib.Data.List.Chain
import RouteAtlas.Proofs.Text.Search
import RouteAtlas.Route.Table

/-!
# Paths by their segments

A path in normal form is read off the pieces between slashes that are not empty. Going down into a
mount adds the segments of what is mounted.
-/

namespace RouteAtlas.Route

def segments (t : Text) : List Text := (t.cut '/').filter (!·.isEmpty)

/-- The path with the given segments; without any it is the root. -/
def absolute (ss : List Text) : Text := "/" ++ Text.join "/" ss

def slashed (ss : List Text) : Text := ss.flatMap fun s => .char '/' :: s

theorem segments_append_slash (s t : Text) :
    segments (s ++ .char '/' :: t) = segments s ++ segments t := by
  simp [segments, Text.cut_append_cons]

theorem segments_slash (t : Text) : segments (.char '/' :: t) = segments t := by
  simp [segments, Text.cut]

theorem segments_of_segment {s : Text} (hs : s ≠ []) (h : .char '/' ∉ s) : segments s = [s] := by
  simp [segments, Text.cut_of_not_mem h, hs]

/-- What a list of segments of some text is made of. -/
def AreSegments (ss : List Text) : Prop := ∀ s ∈ ss, s ≠ [] ∧ CodePoint.char '/' ∉ s

theorem areSegments_segments (t : Text) : AreSegments (segments t) := by
  intro s hs
  obtain ⟨hc, he⟩ := List.mem_filter.1 hs
  exact ⟨by simpa using he, Text.not_mem_of_mem_cut hc⟩

theorem AreSegments.append {ss ts : List Text} (hs : AreSegments ss) (ht : AreSegments ts) :
    AreSegments (ss ++ ts) :=
  fun s h => (List.mem_append.1 h).elim (hs s) (ht s)

theorem absolute_cons (s : Text) (ss : List Text) : absolute (s :: ss) = slashed (s :: ss) := by
  induction ss generalizing s with
  | nil => simp [absolute, slashed, Text.join, Text.ofString]
  | cons r rs ih =>
    have h : absolute (s :: r :: rs) = .char '/' :: s ++ absolute (r :: rs) := by
      simp [absolute, Text.join, List.intercalate_cons_cons, Text.ofString]
    rw [h, ih r]
    rfl

theorem segments_absolute {ss : List Text} (h : AreSegments ss) : segments (absolute ss) = ss := by
  induction ss with
  | nil => rfl
  | cons s ss ih =>
    have hs := h s (by simp)
    have ht : AreSegments ss := fun t ht => h t (by simp [ht])
    cases ss with
    | nil =>
      simp [absolute_cons, slashed, segments_slash, segments_of_segment hs.1 hs.2]
    | cons t ts =>
      have hc : absolute (s :: t :: ts) = .char '/' :: (s ++ absolute (t :: ts)) := by
        simp [absolute_cons, slashed]
      obtain ⟨u, hu⟩ : ∃ u, absolute (t :: ts) = .char '/' :: u := ⟨_, rfl⟩
      have hr : segments u = t :: ts := by
        rw [← segments_slash, ← hu, ih ht]
      rw [hc, segments_slash, hu, segments_append_slash, hr, segments_of_segment hs.1 hs.2]
      rfl

@[simp] theorem squeeze_slash_slash (r : Text) :
    squeeze (.char '/' :: .char '/' :: r) = squeeze (.char '/' :: r) := by
  simp [squeeze]

theorem squeeze_cons_of_ne {c : CodePoint} (hc : c ≠ .char '/') (r : Text) :
    squeeze (c :: r) = c :: squeeze r := by
  simp [squeeze, hc]

theorem squeeze_slash_cons {d : CodePoint} (hd : d ≠ .char '/') (r : Text) :
    squeeze (.char '/' :: d :: r) = .char '/' :: squeeze (d :: r) := by
  rw [squeeze]
  simp [hd]

/-- The slash that squeezing leaves at the end of a text that ends with one. -/
def finalSlash (t : Text) : Text := if t.getLast? = some (.char '/') then [.char '/'] else []

theorem finalSlash_cons (c : CodePoint) {r : Text} (h : r ≠ []) :
    finalSlash (c :: r) = finalSlash r := by
  simp [finalSlash, List.getLast?_cons_of_ne_nil h]

theorem finalSlash_cons_of_ne {c : CodePoint} (hc : c ≠ .char '/') (r : Text) :
    finalSlash (c :: r) = finalSlash r := by
  cases r with
  | nil => simp [finalSlash, hc]
  | cons d r => exact finalSlash_cons c (by simp)

/-- Squeezing keeps the piece before the first slash, the segments after it and the last slash. -/
theorem squeeze_eq {t p : Text} {ps : List Text} (h : t.cut '/' = p :: ps) :
    squeeze t = p ++ (slashed (ps.filter (!·.isEmpty)) ++ finalSlash t) := by
  induction t generalizing p ps with
  | nil =>
    obtain ⟨rfl, rfl⟩ : [] = p ∧ [] = ps := by simpa [Text.cut] using h
    rfl
  | cons c r ih =>
    obtain ⟨q, qs, hr⟩ : ∃ q qs, Text.cut '/' r = q :: qs :=
      List.exists_cons_of_ne_nil (Text.cut_ne_nil _ r)
    by_cases hc : c = .char '/'
    · subst hc
      obtain ⟨rfl, rfl⟩ : [] = p ∧ q :: qs = ps := by
        simpa [hr] using h
      cases r with
      | nil =>
        obtain ⟨rfl, rfl⟩ : [] = q ∧ [] = qs := by simpa [Text.cut] using hr
        rfl
      | cons d r =>
        rw [finalSlash_cons _ (by simp)]
        by_cases hd : d = .char '/'
        · subst hd
          obtain ⟨rfl, rfl⟩ : [] = q ∧ Text.cut '/' r = qs := by simpa using hr
          rw [squeeze_slash_slash, ih hr]
          rfl
        · obtain ⟨e, es, he⟩ := List.exists_cons_of_ne_nil (Text.cut_ne_nil '/' r)
          obtain ⟨rfl, rfl⟩ : d :: e = q ∧ es = qs := by
            simpa [Text.cut_cons_of_ne hd he] using hr
          rw [squeeze_slash_cons hd, ih hr]
          simp [slashed]
    · obtain ⟨rfl, rfl⟩ : c :: q = p ∧ qs = ps := by
        simpa [Text.cut_cons_of_ne hc hr] using h
      rw [squeeze_cons_of_ne hc, finalSlash_cons_of_ne hc, ih hr]
      rfl

theorem squeeze_slash (t : Text) :
    squeeze (.char '/' :: t) = slashed (segments t) ++ finalSlash (.char '/' :: t) := by
  simpa [segments] using squeeze_eq (t := .char '/' :: t) (Text.cut_cons_self _ t)

theorem getLast?_slashed {ss : List Text} (h : AreSegments ss) :
    (slashed ss).getLast? ≠ some (.char '/') := by
  induction ss with
  | nil => simp [slashed]
  | cons s ss ih =>
    obtain ⟨hne, hs⟩ := h s (by simp)
    have ht := ih fun t ht => h t (by simp [ht])
    have hd : slashed (s :: ss) = .char '/' :: (s ++ slashed ss) := rfl
    have hl : s.getLast? ≠ some (.char '/') := fun he => hs (List.mem_of_getLast? he)
    rw [hd, List.getLast?_cons_of_ne_nil (by simp [hne]), List.getLast?_append]
    cases he : (slashed ss).getLast? with
    | none => simpa using hl
    | some c => simpa [he] using ht

theorem head?_squeeze (t : Text) : (squeeze t).head? = t.head? := by
  induction t with
  | nil => rfl
  | cons c r ih =>
    rw [squeeze]
    split
    · rename_i h
      rw [ih, h.2, h.1]
      rfl
    · rfl

theorem dropFinalSlash_append_slash {t : Text} (h : t ≠ []) :
    dropFinalSlash (t ++ [.char '/']) = t := by
  have hl : 0 < t.length := List.length_pos_iff.2 h
  simp [dropFinalSlash, hl]

theorem dropFinalSlash_of_getLast?_ne {t : Text} (h : t.getLast? ≠ some (.char '/')) :
    dropFinalSlash t = t := by
  simp [dropFinalSlash, h]

theorem dropFinalSlash_squeeze (t : Text) :
    dropFinalSlash (squeeze (.char '/' :: t)) = absolute (segments t) := by
  have hl := getLast?_slashed (areSegments_segments t)
  have hq := squeeze_slash t
  cases h : segments t with
  | nil =>
    -- squeezing leaves the first slash, so the squeezed text can only be the final one
    have hh := head?_squeeze (.char '/' :: t)
    rw [hq, h] at hh ⊢
    unfold finalSlash at hh ⊢
    split
    · rfl
    · rename_i hf
      simp [slashed, hf] at hh
  | cons s ss =>
    rw [hq, absolute_cons, ← h]
    unfold finalSlash
    split
    · exact dropFinalSlash_append_slash (by simp [h, slashed])
    · rw [List.append_nil, dropFinalSlash_of_getLast?_ne hl]

theorem normalize_eq_absolute (t : Text) : normalize t = absolute (segments t.trim) := by
  unfold normalize rooted
  split
  · rename_i h
    obtain ⟨r, hr⟩ := List.head?_eq_some_iff.1 h
    rw [hr, dropFinalSlash_squeeze, segments_slash]
  · exact dropFinalSlash_squeeze t.trim

theorem under_nil (t : Text) : under [] t = absolute (segments t.trim) := normalize_eq_absolute t

/-- Under a path that has its normal form only the end of what is mounted is trimmed. -/
theorem under_absolute {ss : List Text} (h : AreSegments ss) (t : Text) :
    under (absolute ss) t = absolute (ss ++ segments t.trimRight) := by
  have ht : (absolute ss ++ "/" ++ t).trim = absolute ss ++ .char '/' :: t.trimRight := by
    have hl : Text.trimLeft (absolute ss ++ "/" ++ t) = absolute ss ++ .char '/' :: t := by
      rw [List.append_assoc]
      exact Text.trimLeft_cons rfl _
    rw [Text.trim, hl, Text.trimRight_append_cons rfl]
  have hu : under (absolute ss) t = normalize (absolute ss ++ "/" ++ t) := rfl
  rw [hu, normalize_eq_absolute, ht, segments_append_slash, segments_absolute h]

/-- Rooted, without two slashes in a row, and without one at the end but for the root. -/
structure IsNormal (t : Text) : Prop where
  rooted : t.head? = some (.char '/')
  single : ¬ ("//" : Text) <:+: t
  final : t.getLast? = some (.char '/') → t = "/"

theorem isChain_squeeze (t : Text) :
    (squeeze t).IsChain fun c d => ¬ (c = .char '/' ∧ d = .char '/') := by
  induction t with
  | nil => exact .nil
  | cons c r ih =>
    rw [squeeze]
    split
    · exact ih
    · rename_i h
      refine List.isChain_cons.2 ⟨fun d hd => ?_, ih⟩
      rw [head?_squeeze] at hd
      exact fun he => h ⟨he.1, by rw [hd, he.2]⟩

theorem dropFinalSlash_prefix (t : Text) : dropFinalSlash t <+: t := by
  unfold dropFinalSlash
  split
  · exact List.dropLast_prefix t
  · exact List.prefix_rfl

theorem isNormal_absolute {ss : List Text} (h : AreSegments ss) : IsNormal (absolute ss) where
  rooted := rfl
  single := by
    intro hi
    have hd := dropFinalSlash_squeeze (absolute ss)
    rw [segments_absolute h] at hd
    have hp := hd ▸ dropFinalSlash_prefix (squeeze (.char '/' :: absolute ss))
    obtain ⟨before, behind, he⟩ := hi.trans hp.isInfix
    have hc := isChain_squeeze (.char '/' :: absolute ss)
    rw [← he] at hc
    have hs := (List.isChain_append.1 (List.isChain_append.1 hc).1).2.1
    exact (List.isChain_cons_cons.1 hs).1 ⟨rfl, rfl⟩
  final := by
    intro hl
    cases ss with
    | nil => rfl
    | cons s ss =>
      rw [absolute_cons] at hl
      exact absurd hl (getLast?_slashed h)

end RouteAtlas.Route
