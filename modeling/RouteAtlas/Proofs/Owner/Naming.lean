import RouteAtlas.Proofs.Owner.Resolve

/-!
# Tags of controller files

A tag shows the words of a file name without the endings by which controller files are recognised. A
name without any word has a tag that shows none.
-/

namespace RouteAtlas

theorem Text.join_append_singleton (sep t : Text) {ts : List Text} (h : ts ≠ []) :
    join sep (ts ++ [t]) = join sep ts ++ (sep ++ t) := by
  induction ts with
  | nil => exact absurd rfl h
  | cons s ts ih =>
    cases ts with
    | nil => simp [join, List.intercalate_cons_cons]
    | cons r rs =>
      have hr : join sep (r :: (rs ++ [t])) = join sep (r :: rs) ++ (sep ++ t) := ih (by simp)
      rw [List.cons_append, List.cons_append, join_cons_cons, hr, join_cons_cons]
      simp only [List.append_assoc]

namespace Owner

section Words

variable {c : CodePoint} {s t w : Text}

theorem wordsBetween_eq_splitOnP (p : CodePoint → Bool) (t : Text) :
    wordsBetween p t = t.splitOnP p := by
  induction t with
  | nil => rfl
  | cons c r ih =>
    rw [wordsBetween, List.splitOnP_cons_eq_if_modifyHead, ih]
    split
    · rfl
    · cases h : r.splitOnP p with
      | nil => exact absurd h (List.splitOnP_ne_nil p r)
      | cons q qs => rfl

theorem isCapital_of_isWordBreak (h : isWordBreak c) : c.isCapital = false := by
  simp only [isWordBreak, Bool.or_eq_true, beq_iff_eq] at h
  rcases h with (h | rfl) | rfl
  · have hc : (!within c.toNat [(0x41, 0x5A)]) = true :=
      of_within (p := fun n => !within n [(0x41, 0x5A)]) (by decide +kernel) h
    simpa [CodePoint.isCapital] using hc
  · decide
  · decide

theorem spaced_append (s t : Text) : spaced (s ++ t) = spaced s ++ spaced t := by
  simp [spaced]

theorem spaced_cons_of_not_capital (h : c.isCapital = false) (t : Text) :
    spaced (c :: t) = c :: spaced t := by
  simp [spaced, h]

theorem spaced_cons_of_capital (h : c.isCapital) (t : Text) :
    spaced (c :: t) = .char ' ' :: c :: spaced t := by
  simp [spaced, h]

theorem spaced_eq_self (h : ∀ d ∈ t, d.isCapital = false) : spaced t = t := by
  induction t with
  | nil => rfl
  | cons d t ih =>
    rw [spaced_cons_of_not_capital (h d (by simp)), ih fun e he => h e (by simp [he])]

theorem words_append_break (hc : isWordBreak c) (s t : Text) :
    words (s ++ c :: t) = words s ++ words t := by
  simp only [words, wordsBetween_eq_splitOnP]
  rw [spaced_append, spaced_cons_of_not_capital (isCapital_of_isWordBreak hc),
    List.splitOnP_append_cons _ _ hc, List.filter_append]

theorem words_cons_break (hc : isWordBreak c) (t : Text) : words (c :: t) = words t :=
  words_append_break hc [] t

theorem words_append_capital (hc : c.isCapital) (s t : Text) :
    words (s ++ c :: t) = words s ++ words (c :: t) := by
  simp only [words, wordsBetween_eq_splitOnP]
  rw [spaced_append, spaced_cons_of_capital hc, List.splitOnP_append_cons _ _ rfl,
    List.filter_append, ← List.nil_append (CodePoint.char ' ' :: c :: spaced t),
    List.splitOnP_append_cons _ _ rfl, List.filter_append]
  rfl

theorem words_eq_singleton (hc : isWordBreak c = false) (hb : ∀ d ∈ t, isWordBreak d = false)
    (hn : ∀ d ∈ t, d.isCapital = false) : words (c :: t) = [c :: t] := by
  have hw : wordsBetween isWordBreak (c :: t) = [c :: t] := by
    rw [wordsBetween_eq_splitOnP]
    exact List.splitOnP_eq_singleton (by simpa [hc] using hb)
  have hs : words (c :: t) = (wordsBetween isWordBreak (c :: t)).filter (!·.isEmpty) := by
    by_cases h : c.isCapital
    · rw [words, spaced_cons_of_capital h, spaced_eq_self hn]
      rfl
    · rw [words, spaced_cons_of_not_capital (by simpa using h), spaced_eq_self hn]
  rw [hs, hw]
  rfl

theorem words_cons_ne_nil (hc : isWordBreak c = false) (t : Text) : words (c :: t) ≠ [] := by
  have hw : ∀ u : Text, (wordsBetween isWordBreak (c :: u)).filter (!·.isEmpty) ≠ [] := by
    intro u
    rw [wordsBetween, hc, if_neg (by simp)]
    split <;> simp
  by_cases h : c.isCapital
  · rw [words, spaced_cons_of_capital h]
    exact hw (spaced t)
  · rw [words, spaced_cons_of_not_capital (by simpa using h)]
    exact hw (spaced t)

/-- Only a text of breaks has no word. -/
theorem words_eq_nil_iff : words t = [] ↔ ∀ c ∈ t, isWordBreak c := by
  induction t with
  | nil => simp [words, spaced, wordsBetween]
  | cons c t ih =>
    by_cases hc : isWordBreak c
    · simp [words_cons_break hc, ih, hc]
    · simp [words_cons_ne_nil (by simpa using hc), hc]

theorem not_isWordBreak_of_mem_wordsBetween (hw : w ∈ wordsBetween isWordBreak t) :
    ∀ c ∈ w, isWordBreak c = false := by
  induction t generalizing w with
  | nil => simp_all [wordsBetween]
  | cons c t ih =>
    rw [wordsBetween] at hw
    split at hw
    · rcases List.mem_cons.1 hw with rfl | hw
      · simp
      · exact ih hw
    · rename_i hc
      split at hw
      · simp_all
      · rename_i v vs hv
        rcases List.mem_cons.1 hw with rfl | hw
        · have := ih (w := v) (by simp [hv])
          simp_all
        · exact ih (by simp [hv, hw])

theorem mem_words (hw : w ∈ words t) : w ≠ [] ∧ ∀ c ∈ w, c.isBlank = false := by
  obtain ⟨hb, hne⟩ := List.mem_filter.1 hw
  refine ⟨by simpa using hne, fun c hc => ?_⟩
  have := not_isWordBreak_of_mem_wordsBetween hb c hc
  simp only [isWordBreak, Bool.or_eq_false_iff] at this
  exact this.1.1

end Words

section Endings

variable {suffix name file t : Text}

/-- No ending of controller files is an ending of another one, so only one is taken off. -/
theorem stem_append (h : suffix ∈ ({} : Naming).fileSuffixes) (t : Text) :
    stem {} (t ++ suffix) = t := by
  have hu : ∀ s ∈ ({} : Naming).fileSuffixes, s ≠ [] ∧
      ∀ r ∈ ({} : Naming).fileSuffixes, s <:+ r → s = r := by decide
  have he : (t ++ suffix).endsWith suffix := by simp [Text.endsWith]
  unfold stem
  cases hf : ({} : Naming).fileSuffixes.find? (t ++ suffix).endsWith with
  | none => exact absurd he (List.find?_eq_none.1 hf suffix h)
  | some s =>
    have hs := List.mem_of_find?_eq_some hf
    have hp : (t ++ suffix).endsWith s := List.find?_some hf
    have hp : s <:+ t ++ suffix := List.isSuffixOf_iff_suffix.1 hp
    obtain rfl : s = suffix := by
      rcases List.suffix_or_suffix_of_suffix hp (List.suffix_append t suffix) with hr | hr
      · exact (hu s hs).2 suffix h hr
      · exact ((hu suffix h).2 s hs hr).symm
    simp [(hu s h).1]

theorem exists_of_matchesFile (h : ({} : Naming).matchesFile file) :
    ∃ t, ∃ suffix ∈ ({} : Naming).fileSuffixes, file = t ++ suffix := by
  obtain ⟨suffix, hs, he⟩ := List.any_eq_true.1 h
  obtain ⟨t, rfl⟩ := List.isSuffixOf_iff_suffix.1 he
  exact ⟨t, suffix, hs, rfl⟩

theorem StemOf.exists_append {stem : Text} (h : StemOf suffix name stem) :
    ∃ own, name = stem ++ own := by
  cases h with
  | @marked _ own m he _ _ => exact ⟨m :: own, by simp [he]⟩
  | @bare _ own he _ => exact ⟨own, he⟩
  | whole => exact ⟨[], by simp⟩

def IsMarks (t : Text) : Prop := ∀ c ∈ t, c = '_' ∨ c = '-'

instance : DecidablePred IsMarks := fun _ => inferInstanceAs (Decidable (∀ _ ∈ _, _))

theorem words_eq_nil_of_isMarks (h : IsMarks t) : words t = [] := by
  refine words_eq_nil_iff.2 fun c hc => ?_
  rcases h c hc with rfl | rfl <;> rfl

theorem isMarks_of_words_eq_nil (h : words t = []) (hb : ∀ c ∈ t, c.isBlank = false) :
    IsMarks t := by
  intro c hc
  have hw := words_eq_nil_iff.1 h c hc
  simpa [isWordBreak, hb c hc] using hw

/-- Before its ending the file name has nothing but low lines and hyphens, or nothing but these
before the suffix of handlers in any case. -/
def Nameless (file : Text) : Prop :=
  ∃ marks own, ∃ suffix ∈ ({} : Naming).fileSuffixes, file = marks ++ own ++ suffix ∧
    IsMarks marks ∧ (own = [] ∨ Text.Agree ({} : Naming).handlerSuffix own)

theorem nameless_of_words_eq_nil (hs : suffix ∈ ({} : Naming).fileSuffixes)
    (hb : ∀ c ∈ t, c.isBlank = false) (hn : .char '\n' ∉ t)
    (hw : words (dropSuffix ({} : Naming).handlerSuffix t) = []) : Nameless (t ++ suffix) := by
  have ho : StemOf ({} : Naming).handlerSuffix t _ := stemOf_dropSuffix hn
  have hm : IsMarks (dropSuffix ({} : Naming).handlerSuffix t) := by
    obtain ⟨own, he⟩ := ho.exists_append
    exact isMarks_of_words_eq_nil hw fun c hc => hb c (he ▸ List.mem_append_left own hc)
  generalize dropSuffix ({} : Naming).handlerSuffix t = r at ho hm
  cases ho with
  | @marked _ own m he hc ha =>
    refine ⟨r ++ [m], own, suffix, hs, by simp [he], fun c hcm => ?_, .inr ha⟩
    rcases List.mem_append.1 hcm with hcm | hcm
    · exact hm c hcm
    · rwa [List.mem_singleton.1 hcm]
  | @bare _ own he ha => exact ⟨r, own, suffix, hs, by rw [he], hm, .inr ha⟩
  | whole => exact ⟨t, [], suffix, hs, by simp, hm, .inl rfl⟩

theorem words_dropSuffix_of_isMarks {marks own : Text} (hm : IsMarks marks)
    (ho : own = [] ∨ Text.Agree ({} : Naming).handlerSuffix own) (hn : .char '\n' ∉ marks ++ own) :
    words (dropSuffix ({} : Naming).handlerSuffix (marks ++ own)) = [] := by
  have hs : StemOf ({} : Naming).handlerSuffix (marks ++ own) _ := stemOf_dropSuffix hn
  have hp : dropSuffix ({} : Naming).handlerSuffix (marks ++ own) <+: marks := by
    rcases ho with rfl | ha
    · obtain ⟨r, hr⟩ := hs.exists_append
      exact ⟨r, by simpa using hr.symm⟩
    · rcases List.eq_nil_or_concat marks with rfl | ⟨init, m, rfl⟩
      · have hr : StemOf ({} : Naming).handlerSuffix ([] ++ own) [] := .bare rfl ha (by simp)
        exact (hs.unique hr).symm ▸ List.nil_prefix
      · rw [List.concat_eq_append] at hm hs ⊢
        have hr : StemOf ({} : Naming).handlerSuffix (init ++ [m] ++ own) init :=
          .marked (by simp) (hm m (by simp)) ha
        exact (hs.unique hr).symm ▸ List.prefix_append init [m]
  exact words_eq_nil_of_isMarks fun c hc => hm c (hp.mem hc)

/-- A file whose name has no white space is nameless if and only if no word is left of it. -/
theorem nameless_iff (hm : ({} : Naming).matchesFile file) (hb : ∀ c ∈ file, c.isBlank = false) :
    Nameless file ↔ words (dropSuffix ({} : Naming).handlerSuffix (stem {} file)) = [] := by
  have hn : .char '\n' ∉ file := fun hc => absurd (hb _ hc) (by decide)
  constructor
  · rintro ⟨marks, own, suffix, hs, rfl, hk, ho⟩
    rw [stem_append hs]
    exact words_dropSuffix_of_isMarks hk ho fun hc => hn (List.mem_append_left _ hc)
  · intro hw
    obtain ⟨t, suffix, hs, rfl⟩ := exists_of_matchesFile hm
    rw [stem_append hs] at hw
    exact nameless_of_words_eq_nil hs (fun c hc => hb c (List.mem_append_left _ hc))
      (fun hc => hn (List.mem_append_left _ hc)) hw

/-- One word or more, none with white space, and `Controller`, with a space between any two. -/
def IsDisplayTag (tag : Text) : Prop :=
  ∃ ws : List Text, ws ≠ [] ∧ (∀ w ∈ ws, w ≠ [] ∧ ∀ c ∈ w, c.isBlank = false) ∧
    tag = Text.join " " (ws ++ [("Controller" : Text)])

theorem isDisplayTag_titleWords (h : words t ≠ []) : IsDisplayTag (titleWords t ++ tagSuffix) := by
  refine ⟨(words t).map Text.capitalized, by simpa using h, fun w hw => ?_, ?_⟩
  · obtain ⟨v, hv, rfl⟩ := List.mem_map.1 hw
    obtain ⟨hne, hb⟩ := mem_words hv
    exact ⟨Text.capitalized_ne_nil hne, Text.isBlank_of_mem_capitalized hb⟩
  · rw [Text.join_append_singleton _ _ (by simpa using h)]
    rfl

theorem not_isDisplayTag_tagSuffix : ¬ IsDisplayTag tagSuffix := by
  rintro ⟨ws, hne, hw, he⟩
  obtain ⟨w, ws, rfl⟩ := List.exists_cons_of_ne_nil hne
  obtain ⟨hn, hb⟩ := hw w (by simp)
  obtain ⟨c, w, rfl⟩ := List.exists_cons_of_ne_nil hn
  have hc : tagSuffix.head? = some c := by
    rw [he]
    cases ws <;> simp [Text.join, List.intercalate_cons_cons]
  obtain rfl : CodePoint.char ' ' = c := Option.some.inj hc
  exact absurd (hb (.char ' ') (by simp)) (by decide)

/-- A controller file whose name has no white space is tagged with its words and `Controller`,
unless it is nameless: then the tag shows no word and begins with a space. -/
theorem tagOfFile_isDisplayTag_iff (hm : ({} : Naming).matchesFile file)
    (hb : ∀ c ∈ file, c.isBlank = false) :
    (IsDisplayTag (tagOfFile {} file) ↔ ¬ Nameless file) ∧
    (Nameless file → tagOfFile {} file = " Controller") := by
  rw [nameless_iff hm hb, tagOfFile]
  by_cases hw : words (dropSuffix ({} : Naming).handlerSuffix (stem {} file)) = []
  · have ht := titleWords_eq_nil_iff.2 hw
    simp only [hw, ht, List.nil_append, not_true_eq_false, iff_false, true_imp_iff]
    exact ⟨not_isDisplayTag_tagSuffix, rfl⟩
  · simp only [hw, not_false_eq_true, iff_true, false_imp_iff, and_true]
    exact isDisplayTag_titleWords hw

theorem tagOfFile_isDisplayTag_iff_guestKey :
    IsDisplayTag (tagOfFile {} "guest-key_controller.py") ∧ ¬ Nameless "guest-key_controller.py" ∧
    Nameless "__Controller.ts" ∧ ¬ IsDisplayTag (tagOfFile {} "__Controller.ts") ∧
    tagOfFile {} "__Controller.ts" = " Controller" := by
  obtain ⟨hd, -⟩ := @tagOfFile_isDisplayTag_iff "guest-key_controller.py" (by decide) (by decide)
  obtain ⟨hn, ht⟩ := @tagOfFile_isDisplayTag_iff "__Controller.ts" (by decide) (by decide)
  have hg : IsDisplayTag (tagOfFile {} "guest-key_controller.py") :=
    ⟨["Guest", "Key"], by decide, by decide, by decide⟩
  have hm : Nameless "__Controller.ts" :=
    ⟨"__", [], "Controller.ts", by decide, by decide, by decide, .inl rfl⟩
  exact ⟨hg, hd.1 hg, hm, fun h => hn.1 h hm, ht hm⟩

/-- The file that is named by an ending alone is a controller file whose tag shows no word. -/
theorem tagOfFile_endingAlone : ({} : Naming).matchesFile "Controller.js" ∧
    (∀ c ∈ Text.ofString "Controller.js", c.isBlank = false) ∧
    tagOfFile {} "Controller.js" = " Controller" ∧
    ¬ IsDisplayTag (tagOfFile {} "Controller.js") := by
  have ht : tagOfFile {} "Controller.js" = tagSuffix := by decide
  exact ⟨by decide, by decide, ht, ht ▸ not_isDisplayTag_tagSuffix⟩

end Endings

end Owner

end RouteAtlas
