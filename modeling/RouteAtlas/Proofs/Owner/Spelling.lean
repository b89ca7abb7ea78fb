import RouteAtlas.Proofs.Owner.Naming

/-!
# Words spelled as one name

Words are spelled as one name with capitals, with low lines or with hyphens. Each spelling keeps
them apart, so a controller file has one tag, however it is spelled.
-/

namespace RouteAtlas

namespace CodePoint

variable {c : CodePoint}

def isSmall (c : CodePoint) : Bool := within c.toNat [(0x61, 0x7A)]

def isPlain (c : CodePoint) : Bool := within c.toNat [(0x30, 0x39), (0x61, 0x7A)]

def capital (c : CodePoint) : CodePoint := ofNat (c.toNat - 32)

/-- The characters of a class have a property if the code points of its numbers have it. -/
theorem of_within_ranges {p : CodePoint → Bool} {rs : List (Nat × Nat)}
    (h : rs.all fun r => (List.range (r.2 + 1 - r.1)).all fun i => p (ofNat (r.1 + i)))
    (hc : within c.toNat rs) : p c := by
  simpa using of_within (p := fun n => p (ofNat n)) h hc

theorem isPlain_of_isSmall (h : c.isSmall) : c.isPlain :=
  of_within_ranges (by decide) h

theorem mapped_lower_of_isPlain (h : c.isPlain) : c.mapped CaseTable.lower = c := by
  simpa using of_within_ranges (p := fun c => c.mapped CaseTable.lower == c) (by decide) h

theorem upper_of_isSmall (h : c.isSmall) : c.upper = [c.capital] := by
  simpa using of_within_ranges (p := fun c => c.upper == [c.capital]) (by decide +kernel) h

theorem upper_capital (h : c.isSmall) : c.capital.upper = [c.capital] := by
  simpa using of_within_ranges (p := fun c => c.capital.upper == [c.capital])
    (by decide +kernel) h

theorem isCapital_capital (h : c.isSmall) : c.capital.isCapital :=
  of_within_ranges (p := fun c => c.capital.isCapital) (by decide) h

theorem isCapital_of_isPlain (h : c.isPlain) : c.isCapital = false := by
  simpa using of_within_ranges (p := fun c => !c.isCapital) (by decide) h

def isSpelled (c : CodePoint) : Bool :=
  within c.toNat [(0x2D, 0x2D), (0x30, 0x39), (0x41, 0x5A), (0x5F, 0x5F), (0x61, 0x7A)]

theorem isSpelled_of_isPlain (h : c.isPlain) : c.isSpelled :=
  of_within_ranges (by decide) h

theorem isSpelled_of_isCapital (h : c.isCapital) : c.isSpelled :=
  of_within_ranges (by decide) h

theorem isAscii_of_isSpelled (h : c.isSpelled) : c.isAscii :=
  of_within_ranges (by decide) h

end CodePoint

namespace Owner

theorem isWordBreak_of_isPlain {c : CodePoint} (h : c.isPlain) : isWordBreak c = false := by
  simpa using CodePoint.of_within_ranges (p := fun c => !isWordBreak c) (by decide) h

theorem isWordBreak_of_isCapital {c : CodePoint} (h : c.isCapital) : isWordBreak c = false := by
  simpa using CodePoint.of_within_ranges (p := fun c => !isWordBreak c) (by decide) h

def isMark (c : CodePoint) : Bool := c == '_' || c == '-'

def folded (t : Text) : Text := (t.filter (!isMark ·)).map (·.mapped CaseTable.lower)

theorem folded_append (s t : Text) : folded (s ++ t) = folded s ++ folded t := by
  simp [folded]

theorem folded_of_not_isMark {t : Text} (h : ∀ c ∈ t, isMark c = false) :
    folded t = t.map (·.mapped CaseTable.lower) := by
  rw [folded, List.filter_eq_self.2 fun c hc => by simp [h c hc]]

theorem map_mapped_lower_of_isPlain {t : Text} (h : ∀ c ∈ t, c.isPlain) :
    t.map (·.mapped CaseTable.lower) = t := by
  have hm : ∀ c ∈ t, c.mapped CaseTable.lower = c := fun c hc =>
    CodePoint.mapped_lower_of_isPlain (h c hc)
  exact (List.map_congr_left hm).trans (List.map_id' t)

theorem folded_of_isPlain {t : Text} (h : ∀ c ∈ t, c.isPlain) : folded t = t := by
  have hm : ∀ c ∈ t, isMark c = false := fun c hc => by
    simpa using CodePoint.of_within_ranges (p := fun c => !isMark c) (by decide) (h c hc)
  rw [folded_of_not_isMark hm, map_mapped_lower_of_isPlain h]

/-- A small letter with small letters and digits behind it. -/
structure PlainWord where
  first : CodePoint
  rest : Text
  isSmall_first : first.isSmall
  isPlain_rest : ∀ c ∈ rest, c.isPlain

namespace PlainWord

variable (w : PlainWord)

def text : Text := w.first :: w.rest

def capital : Text := w.first.capital :: w.rest

theorem isPlain_text : ∀ c ∈ w.text, c.isPlain := by
  intro c hc
  rcases List.mem_cons.1 hc with rfl | hc
  · exact CodePoint.isPlain_of_isSmall w.isSmall_first
  · exact w.isPlain_rest c hc

theorem isSpelled_text : ∀ c ∈ w.text, c.isSpelled :=
  fun c hc => CodePoint.isSpelled_of_isPlain (w.isPlain_text c hc)

theorem isSpelled_capital : ∀ c ∈ w.capital, c.isSpelled := by
  intro c hc
  rcases List.mem_cons.1 hc with rfl | hc
  · exact CodePoint.isSpelled_of_isCapital (CodePoint.isCapital_capital w.isSmall_first)
  · exact CodePoint.isSpelled_of_isPlain (w.isPlain_rest c hc)

theorem words_text : words w.text = [w.text] :=
  words_eq_singleton (isWordBreak_of_isPlain (CodePoint.isPlain_of_isSmall w.isSmall_first))
    (fun c hc => isWordBreak_of_isPlain (w.isPlain_rest c hc))
    fun c hc => CodePoint.isCapital_of_isPlain (w.isPlain_rest c hc)

theorem words_append_capital (t : Text) : words (t ++ w.capital) = words t ++ [w.capital] := by
  have hc := CodePoint.isCapital_capital w.isSmall_first
  rw [capital, Owner.words_append_capital hc, words_eq_singleton (isWordBreak_of_isCapital hc)
    (fun c hc => isWordBreak_of_isPlain (w.isPlain_rest c hc))
    fun c hc => CodePoint.isCapital_of_isPlain (w.isPlain_rest c hc)]

theorem lower_rest : w.rest.lower = w.rest := by
  have ha : Text.isAscii w.rest := List.all_eq_true.2 fun c hc =>
    CodePoint.isAscii_of_isSpelled (CodePoint.isSpelled_of_isPlain (w.isPlain_rest c hc))
  rw [Text.lower_of_isAscii ha, map_mapped_lower_of_isPlain w.isPlain_rest]

theorem capitalized_text : w.text.capitalized = w.capital := by
  rw [text, Text.capitalized, CodePoint.upper_of_isSmall w.isSmall_first, w.lower_rest]
  rfl

theorem capitalized_capital : w.capital.capitalized = w.capital := by
  rw [capital, Text.capitalized, CodePoint.upper_capital w.isSmall_first, w.lower_rest]
  rfl

theorem folded_text : folded w.text = w.text := folded_of_isPlain w.isPlain_text

theorem folded_capital : folded w.capital = w.text := by
  have hc : folded [w.first.capital] = [w.first] := by
    simpa using CodePoint.of_within_ranges (p := fun c => folded [c.capital] == [c]) (by decide)
      w.isSmall_first
  rw [capital, ← List.singleton_append, folded_append, hc, folded_of_isPlain w.isPlain_rest]
  rfl

end PlainWord

inductive Spelling where
  | camel
  | snake
  | kebab

namespace Spelling

/-- The words with a capital for every word but the first, or with a mark between any two. -/
def spell : Spelling → List PlainWord → Text
  | .camel, [] => []
  | .camel, w :: ws => w.text ++ ws.flatMap PlainWord.capital
  | .snake, ws => Text.join "_" (ws.map PlainWord.text)
  | .kebab, ws => Text.join "-" (ws.map PlainWord.text)

theorem words_append_capitals (t : Text) (ws : List PlainWord) :
    words (t ++ ws.flatMap PlainWord.capital) = words t ++ ws.map PlainWord.capital := by
  induction ws generalizing t with
  | nil => simp
  | cons w ws ih =>
    rw [List.flatMap_cons, ← List.append_assoc, ih, w.words_append_capital, List.map_cons,
      List.append_assoc, List.singleton_append]

theorem words_join {m : CodePoint} (hm : isWordBreak m) (ws : List PlainWord) :
    words (Text.join [m] (ws.map PlainWord.text)) = ws.map PlainWord.text := by
  induction ws with
  | nil => rfl
  | cons w ws ih =>
    cases ws with
    | nil => simpa [Text.join] using w.words_text
    | cons v vs =>
      rw [List.map_cons, List.map_cons, Text.join_cons_cons, ← List.map_cons, List.singleton_append,
        words_append_break hm, ih, w.words_text]
      rfl

/-- The words of a name are those that it is spelled from, but for capitals. -/
theorem map_capitalized_words_spell (s : Spelling) (ws : List PlainWord) :
    (words (s.spell ws)).map Text.capitalized = ws.map PlainWord.capital := by
  have hj : ∀ m : CodePoint, isWordBreak m →
      (words (Text.join [m] (ws.map PlainWord.text))).map Text.capitalized =
        ws.map PlainWord.capital := by
    intro m hm
    rw [words_join hm, List.map_map]
    exact List.map_congr_left fun w _ => w.capitalized_text
  cases s with
  | camel =>
    cases ws with
    | nil => rfl
    | cons w ws =>
      rw [spell, words_append_capitals, w.words_text, List.map_append, List.map_map]
      have hc : ws.map (Text.capitalized ∘ PlainWord.capital) = ws.map PlainWord.capital :=
        List.map_congr_left fun v _ => v.capitalized_capital
      simp [hc, w.capitalized_text]
  | snake => exact hj '_' rfl
  | kebab => exact hj '-' rfl

theorem folded_join {m : CodePoint} (hm : folded [m] = []) (ws : List PlainWord) :
    folded (Text.join [m] (ws.map PlainWord.text)) = ws.flatMap PlainWord.text := by
  induction ws with
  | nil => rfl
  | cons w ws ih =>
    cases ws with
    | nil => simpa [Text.join] using w.folded_text
    | cons v vs =>
      rw [List.map_cons, List.map_cons, Text.join_cons_cons, ← List.map_cons, folded_append,
        folded_append, hm, ih, w.folded_text]
      rfl

theorem folded_spell (s : Spelling) (ws : List PlainWord) :
    folded (s.spell ws) = ws.flatMap PlainWord.text := by
  cases s with
  | camel =>
    cases ws with
    | nil => rfl
    | cons w ws =>
      have hc : folded (ws.flatMap PlainWord.capital) = ws.flatMap PlainWord.text := by
        induction ws with
        | nil => rfl
        | cons v vs ih =>
          rw [List.flatMap_cons, folded_append, v.folded_capital, ih, List.flatMap_cons]
      rw [spell, folded_append, w.folded_text, hc, List.flatMap_cons]
  | snake => exact folded_join (m := '_') (by decide) ws
  | kebab => exact folded_join (m := '-') (by decide) ws

theorem isSpelled_spell (s : Spelling) (ws : List PlainWord) : ∀ c ∈ s.spell ws, c.isSpelled := by
  have hj : ∀ m : CodePoint, m.isSpelled →
      ∀ c ∈ Text.join [m] (ws.map PlainWord.text), c.isSpelled := by
    intro m hm c hc
    rcases Text.mem_join hc with hc | ⟨t, ht, hc⟩
    · rwa [List.mem_singleton.1 hc]
    · obtain ⟨w, -, rfl⟩ := List.mem_map.1 ht
      exact w.isSpelled_text c hc
  cases s with
  | camel =>
    cases ws with
    | nil => simp [spell]
    | cons w ws =>
      intro c hc
      rcases List.mem_append.1 hc with hc | hc
      · exact w.isSpelled_text c hc
      · obtain ⟨v, -, hc⟩ := List.mem_flatMap.1 hc
        exact v.isSpelled_capital c hc
  | snake => exact hj '_' rfl
  | kebab => exact hj '-' rfl

theorem not_agree_of_spell {s : Spelling} {ws : List PlainWord}
    (h : ¬ ("controller" : Text) <:+ ws.flatMap PlainWord.text) {stem own : Text}
    (he : s.spell ws = stem ++ own) : ¬ Text.Agree ({} : Naming).handlerSuffix own := by
  intro ha
  have hascii : Text.isAscii own := List.all_eq_true.2 fun c hc =>
    CodePoint.isAscii_of_isSpelled (s.isSpelled_spell ws c (by simp [he, hc]))
  have hl : own.map (·.mapped CaseTable.lower) = "controller" := by
    rw [← Text.lower_of_isAscii hascii, ← (Text.agree_iff_lower_eq (by decide) hascii).1 ha]
    decide
  have hm : ∀ c ∈ own, isMark c = false := by
    intro c hc
    have hd : ∀ d ∈ Text.ofString "controller", isMark d = false := by decide
    have hcd : c.mapped CaseTable.lower ∈ Text.ofString "controller" := hl ▸ List.mem_map_of_mem hc
    by_contra hmark
    simp only [isMark, Bool.not_eq_false, Bool.or_eq_true, beq_iff_eq] at hmark
    rcases hmark with rfl | rfl <;> exact absurd (hd _ hcd) (by decide)
  have hf : folded own = "controller" := (folded_of_not_isMark hm).trans hl
  exact h ⟨folded stem, by rw [← hf, ← folded_append, ← he, folded_spell]⟩

theorem dropSuffix_spell (s : Spelling) {ws : List PlainWord}
    (h : ¬ ("controller" : Text) <:+ ws.flatMap PlainWord.text) :
    dropSuffix ({} : Naming).handlerSuffix (s.spell ws) = s.spell ws := by
  have hn : .char '\n' ∉ s.spell ws := fun hc => absurd (s.isSpelled_spell ws _ hc) (by decide)
  exact (stemOf_dropSuffix hn).unique (.whole fun _ _ => not_agree_of_spell h)

end Spelling

/-- A controller file whose name is spelled from words is tagged with these words, each with a
capital, whatever the spelling and the ending of the file. -/
theorem tagOfFile_spell (s : Spelling) {ws : List PlainWord}
    (h : ¬ ("controller" : Text) <:+ ws.flatMap PlainWord.text) {suffix : Text}
    (hs : suffix ∈ ({} : Naming).fileSuffixes) :
    tagOfFile {} (s.spell ws ++ suffix) =
      Text.join " " (ws.map PlainWord.capital) ++ " Controller" := by
  rw [tagOfFile, stem_append hs, s.dropSuffix_spell h, titleWords, s.map_capitalized_words_spell]
  rfl

def guestKey : List PlainWord :=
  [⟨'g', "uest", by decide, by decide⟩, ⟨'k', "ey2", by decide, by decide⟩]

theorem tagOfFile_spell_guestKey :
    ¬ ("controller" : Text) <:+ guestKey.flatMap PlainWord.text ∧
    Spelling.camel.spell guestKey = "guestKey2" ∧
    tagOfFile {} (Spelling.camel.spell guestKey ++ "Controller.mjs") = "Guest Key2 Controller" ∧
    tagOfFile {} (Spelling.snake.spell guestKey ++ "_controller.py") = "Guest Key2 Controller" ∧
    tagOfFile {} (Spelling.kebab.spell guestKey ++ "Controller.ts") = "Guest Key2 Controller" := by
  have h : ¬ ("controller" : Text) <:+ guestKey.flatMap PlainWord.text := by decide
  have ht : Text.join " " (guestKey.map PlainWord.capital) ++ Text.ofString " Controller" =
    "Guest Key2 Controller" := by decide
  exact ⟨h, by decide, (tagOfFile_spell .camel h (by decide)).trans ht,
    (tagOfFile_spell .snake h (by decide)).trans ht,
    (tagOfFile_spell .kebab h (by decide)).trans ht⟩

end Owner

end RouteAtlas
