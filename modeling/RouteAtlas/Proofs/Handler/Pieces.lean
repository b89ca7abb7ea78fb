import Mathlib.Data.List.Basic
import RouteAtlas.Proofs.Handler.Closed

/-!
# Pieces of any text

Brackets may be left open here, and literals need not end. Still cutting at the outer commas loses
nothing, and no piece is cut again.
-/

namespace RouteAtlas.Source

namespace Place

variable {p : Place} {c : CodePoint} {t : Text}

/-- The characters of a text that a scan meets outside of literals. -/
def outside (p : Place) : Text → Text
  | [] => []
  | c :: r => if p.mode = .code then c :: (p.step c).outside r else (p.step c).outside r

theorem isOpener_of_isQuote (h : isQuote c) : isOpener c = false := by
  simp only [isQuote, Bool.or_eq_true, beq_iff_eq] at h
  rcases h with (rfl | rfl) | rfl <;> rfl

theorem isCloser_of_isOpener (h : isOpener c) : isCloser c = false := by
  simp only [isOpener, Bool.or_eq_true, beq_iff_eq] at h
  rcases h with (rfl | rfl) | rfl <;> rfl

theorem depth_step_of_quoted (h : p.mode ≠ .code) : (p.step c).depth = p.depth := by
  obtain ⟨m, d⟩ := p
  cases m with
  | code => exact absurd rfl h
  | escaped q => rfl
  | quoted q =>
    simp only [step]
    split
    · rfl
    · split <;> rfl

theorem depth_step_of_code (h : p.mode = .code) : (p.step c).depth =
    p.depth + (if isOpener c then 1 else 0) - (if isCloser c then 1 else 0) := by
  obtain ⟨m, d⟩ := p
  obtain rfl : m = .code := h
  by_cases hq : isQuote c
  · rw [step_quote hq]
    simp [isOpener_of_isQuote hq, (isQuote_ne hq).1]
  · by_cases ho : isOpener c
    · rw [step_opener ho]
      simp [ho, isCloser_of_isOpener ho]
    · by_cases hc : isCloser c
      · rw [step_closer hc]
        simp [ho, hc]
      · simp [step, hq, ho, hc]

/-- The depth counts the brackets outside of literals, of whatever kind. -/
theorem depth_run (p : Place) (t : Text) : (p.run t).depth =
    p.depth + (p.outside t).countP isOpener - (p.outside t).countP isCloser := by
  induction t generalizing p with
  | nil => simp [outside]
  | cons c t ih =>
    rw [run_cons, ih, outside]
    by_cases h : p.mode = .code
    · rw [depth_step_of_code h, if_pos h, List.countP_cons, List.countP_cons]
      split <;> split <;> simp <;> omega
    · rw [depth_step_of_quoted h, if_neg h]

end Place

/-- Text that ends outside of literals with as many brackets closed as opened. -/
def IsLevel (t : Text) : Prop := (Place.start.run t).mode = .code ∧
  (Place.start.outside t).countP isOpener = (Place.start.outside t).countP isCloser

instance : DecidablePred IsLevel := fun _ => inferInstanceAs (Decidable (_ ∧ _))

variable {p : Place} {s t : Text}

theorem isLevel_iff : IsLevel t ↔ Place.start.run t = .start := by
  have hs : Place.start.run t = .start ↔
      (Place.start.run t).mode = .code ∧ (Place.start.run t).depth = 0 := by
    cases Place.start.run t
    simp [Place.start]
  have h0 : Place.start.depth = 0 := rfl
  rw [hs, IsLevel, Place.depth_run]
  refine and_congr_right fun _ => ?_
  omega

theorem cons_join (c : CodePoint) (q : Text) (qs : List Text) :
    Text.join "," ((c :: q) :: qs) = c :: Text.join "," (q :: qs) := by
  cases qs with
  | nil => simp [Text.join]
  | cons r rs => simp [Text.join_cons_cons]

theorem join_cutOuter (p : Place) (t : Text) : Text.join "," (cutOuter p t) = t := by
  induction t generalizing p with
  | nil => rfl
  | cons c t ih =>
    rw [cutOuter]
    split
    · rename_i hc
      obtain ⟨q, qs, hq⟩ := List.exists_cons_of_ne_nil (cutOuter_ne_nil p t)
      have hj := ih p
      rw [hq] at hj ⊢
      rw [Text.join_cons_cons, hj, hc.1]
      rfl
    · obtain ⟨q, qs, hq⟩ := List.exists_cons_of_ne_nil (cutOuter_ne_nil (p.step c) t)
      have hj := ih (p.step c)
      rw [hq] at hj
      rw [hq, cons_join, hj]

theorem dropBlankLast_cases (ps : List Text) : ps = dropBlankLast ps ∨
    ∃ tail : Text, tail.isBlank ∧ ps = dropBlankLast ps ++ [tail] := by
  induction ps with
  | nil => exact .inl rfl
  | cons p ps ih =>
    cases ps with
    | nil =>
      by_cases hp : p.isBlank
      · exact .inr ⟨p, hp, by simp [dropBlankLast, hp]⟩
      · exact .inl (by simp [dropBlankLast, hp])
    | cons q qs =>
      rw [dropBlankLast]
      rcases ih with h | ⟨tail, ht, h⟩
      · exact .inl (congrArg (p :: ·) h)
      · exact .inr ⟨tail, ht, congrArg (p :: ·) h⟩

theorem dropBlankLast_append (ps : List Text) {qs : List Text} (h : qs ≠ []) :
    dropBlankLast (ps ++ qs) = ps ++ dropBlankLast qs := by
  induction ps with
  | nil => rfl
  | cons p ps ih =>
    obtain ⟨r, rs, hr⟩ := List.exists_cons_of_ne_nil (List.append_ne_nil_of_right_ne_nil ps h)
    rw [List.cons_append, hr, dropBlankLast, ← hr, ih, List.cons_append]

def Uncut (p : Place) (t : Text) : Prop := p.Along (fun q c => ¬ (c = .char ',' ∧ q.isOuter)) t

theorem cutOuter_of_uncut (h : Uncut p t) : cutOuter p t = [t] := by
  simpa [cutOuter] using cutOuter_append h []

/-- The scan of a text is at the start wherever a piece begins, so it meets the piece as a scan of
the piece alone does. -/
theorem uncut_cutOuter (p : Place) (t : Text) :
    ∃ q qs, cutOuter p t = q :: qs ∧ Uncut p q ∧ ∀ u ∈ qs, Uncut .start u := by
  induction t generalizing p with
  | nil => exact ⟨[], [], rfl, trivial, by simp⟩
  | cons c t ih =>
    rw [cutOuter]
    by_cases hc : c = .char ',' ∧ p.isOuter
    · obtain rfl := isOuter_iff.1 hc.2
      obtain ⟨q, qs, he, hq, hqs⟩ := ih .start
      rw [if_pos hc]
      refine ⟨[], _, rfl, trivial, ?_⟩
      rw [he, List.forall_mem_cons]
      exact ⟨hq, hqs⟩
    · obtain ⟨q, qs, he, hq, hqs⟩ := ih (p.step c)
      rw [if_neg hc, he]
      exact ⟨c :: q, qs, rfl, ⟨hc, hq⟩, hqs⟩

theorem uncut_of_mem_pieces {q : Text} (h : q ∈ pieces t) : Uncut .start q := by
  obtain ⟨u, us, he, hu, hus⟩ := uncut_cutOuter .start t
  have hm : q ∈ u :: us := he ▸ mem_of_mem_dropBlankLast h
  rcases List.mem_cons.1 hm with rfl | hm
  · exact hu
  · exact hus q hm

/-- Where a scan is at the start again, a comma cuts and the cutting starts anew. -/
theorem cutOuter_append_comma (h : p.run t = .start) (s : Text) :
    cutOuter p (t ++ .char ',' :: s) = cutOuter p t ++ cutOuter .start s := by
  induction t generalizing p with
  | nil =>
    obtain rfl : p = .start := h
    rfl
  | cons c t ih =>
    rw [List.cons_append, cutOuter, cutOuter]
    by_cases hc : c = .char ',' ∧ p.isOuter
    · obtain rfl := isOuter_iff.1 hc.2
      obtain rfl := hc.1
      have hr : Place.start.run t = .start := h
      rw [if_pos hc, if_pos hc, ih hr, List.cons_append]
    · obtain ⟨q, qs, hq⟩ := List.exists_cons_of_ne_nil (cutOuter_ne_nil (p.step c) t)
      rw [if_neg hc, if_neg hc, ih h, hq]
      rfl

/-- The pieces of a text, with commas between them, are the text, but for a blank end that may be
left out. No piece is cut again, and behind a level text and a comma the cutting starts anew. -/
theorem pieces_stable (t : Text) :
    Text.join "," (cutOuter .start t) = t ∧
    (cutOuter .start t = pieces t ∨
      ∃ tail : Text, tail.isBlank ∧ cutOuter .start t = pieces t ++ [tail]) ∧
    (∀ p ∈ pieces t, p.isBlank = false → pieces p = [p]) ∧
    (IsLevel t → ∀ s : Text, pieces (t ++ .char ',' :: s) = cutOuter .start t ++ pieces s) := by
  refine ⟨join_cutOuter _ t, dropBlankLast_cases _, fun p hp hb => ?_, fun h s => ?_⟩
  · rw [pieces, cutOuter_of_uncut (uncut_of_mem_pieces hp)]
    simp [dropBlankLast, hb]
  · rw [pieces, cutOuter_append_comma (isLevel_iff.1 h),
      dropBlankLast_append _ (cutOuter_ne_nil .start s)]
    rfl

def mixedBrackets : Text := "f(x], ')', "

theorem pieces_stable_mixedBrackets :
    IsLevel mixedBrackets ∧
    pieces (mixedBrackets ++ .char ',' :: "\x7db, \"c") = ["f(x]", " ')'", " ", "\x7db, \"c"] ∧
    Text.ofString " ')'" ∈ pieces mixedBrackets ∧
    pieces " ')'" = [" ')'"] := by
  obtain ⟨-, -, hp, hs⟩ := pieces_stable mixedBrackets
  have hl : IsLevel mixedBrackets := by decide
  have hm : Text.ofString " ')'" ∈ pieces mixedBrackets := by decide
  exact ⟨hl, (hs hl _).trans (by decide), hm, hp _ hm (by decide)⟩

end RouteAtlas.Source
