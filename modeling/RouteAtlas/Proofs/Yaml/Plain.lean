import RouteAtlas.Proofs.Yaml.Written

/-!
# Plain scalars

A text that is written plain is read back from any place that is indented less than its lines, up to
a colon or to the next line.
-/

namespace RouteAtlas.Yaml

/-- A word of a plain text: no comment begins with it and no key ends with it. -/
structure IsPlainWord (w : Text) : Prop where
  ne_nil : w ≠ []
  ordinary : ∀ c ∈ w, isOrdinary c
  unbroken : ∀ c ∈ w, (isTabOrSpace c || isBreak c) = false
  noComment : w.head? ≠ some (.char '#')
  noKey : w.getLast? ≠ some (.char ':')

theorem IsPlainWord.beginsWord {w : Text} (h : IsPlainWord w) : BeginsWord w := by
  intro c hc
  simpa using h.unbroken c (List.mem_of_mem_head? hc)

theorem IsPlainWord.has_comment {w : Text} (h : IsPlainWord w) (pre r : Text) :
    (Cursor.behind pre (w ++ r)).has 0 (· == .char '#') = false := by
  obtain ⟨x, w, rfl⟩ := List.exists_cons_of_ne_nil h.ne_nil
  simpa using h.noComment

theorem IsPlainWord.columnOf_append {w : Text} (h : IsPlainWord w) (pre : Text) :
    columnOf (pre ++ w) = columnOf pre + w.length :=
  Yaml.columnOf_append (fun c hc => (Bool.or_eq_false_iff.1 (h.unbroken c hc)).2) pre

/-- How a plain text is spelled, with lines indented at least to a column. -/
inductive PlainSpells (indent : Nat) : Text → Text → Prop
  | word {w : Text} (hw : IsPlainWord w) : PlainSpells indent w w
  | spaces {w u t : Text} {n : Nat} (hw : IsPlainWord w) (hn : 0 < n) (h : PlainSpells indent u t) :
      PlainSpells indent (w ++ (Written.spaces n ++ u)) (w ++ (Written.spaces n ++ t))
  | line {w u t : Text} {n : Nat} (hw : IsPlainWord w) (hn : indent ≤ n)
      (h : PlainSpells indent u t) :
      PlainSpells indent (w ++ (Written.newLine n ++ u)) (w ++ (.char ' ' :: t))

namespace PlainSpells

variable {indent : Nat} {u t : Text}

theorem exists_word (h : PlainSpells indent u t) : ∃ w r, u = w ++ r ∧ IsPlainWord w := by
  cases h with
  | word hw => exact ⟨u, [], by simp, hw⟩
  | spaces hw hn h => exact ⟨_, _, rfl, hw⟩
  | line hw hn h => exact ⟨_, _, rfl, hw⟩

theorem isOrdinary (h : PlainSpells indent u t) : ∀ c ∈ u, Yaml.isOrdinary c := by
  induction h with
  | word hw => exact hw.ordinary
  | @spaces w u t n hw hn h ih =>
    intro c hc
    rcases List.mem_append.1 hc with hc | hc
    · exact hw.ordinary c hc
    · exact (List.mem_append.1 hc).elim (isOrdinary_spaces n c) (ih c)
  | @line w u t n hw hn h ih =>
    intro c hc
    rcases List.mem_append.1 hc with hc | hc
    · exact hw.ordinary c hc
    · exact (List.mem_append.1 hc).elim (isOrdinary_newLine n c) (ih c)

end PlainSpells

section Words

variable {w r pre : Text}

/-- A text before which a plain word ends: nothing, a blank, a break, or the colon of a key. -/
def EndsWord (r : Text) : Prop :=
  (∀ c ∈ r.head?, (isTabOrSpace c || isBreak c) = true) ∨
    ∃ s, r = .char ':' :: s ∧ ∀ c ∈ s.head?, (isTabOrSpace c || isBreak c) = true

theorem plainWord_stop (hr : EndsWord r) (fuel : Nat) (pre : Text) :
    plainWord false fuel (.behind pre r) = ([], .behind pre r) := by
  cases fuel with
  | zero => rfl
  | succ fuel =>
    rcases hr with hr | ⟨s, rfl, hs⟩
    · cases r with
      | nil => rfl
      | cons x r =>
        rw [plainWord]
        simp only [Cursor.rest_behind, hr x rfl, if_true]
    · have hg : (isTabOrSpace (.char ':') || isBreak (.char ':')) = false := by decide
      have he : (Cursor.behind pre (.char ':' :: s)).endsAt 1 (fun y => isTabOrSpace y) := by
        cases s with
        | nil => rfl
        | cons x s => simpa [Cursor.endsAt] using hs x rfl
      rw [plainWord]
      simp [hg, he]

theorem plainWord_behind (ho : ∀ c ∈ w, isOrdinary c)
    (hw : ∀ c ∈ w, (isTabOrSpace c || isBreak c) = false) (hk : w.getLast? ≠ some (.char ':'))
    (hr : EndsWord r) {fuel : Nat} (hf : w.length ≤ fuel) (pre : Text) :
    plainWord false fuel (.behind pre (w ++ r)) = (w, .behind (pre ++ w) r) := by
  induction w generalizing pre fuel with
  | nil => simpa using plainWord_stop hr fuel pre
  | cons x w ih =>
    obtain ⟨fuel, rfl⟩ : ∃ k, fuel = k + 1 := ⟨fuel - 1, by simp at hf; omega⟩
    have hx := hw x (by simp)
    have hk' : w.getLast? ≠ some (.char ':') := by
      cases w with
      | nil => simp
      | cons y w => simpa [List.getLast?_cons_cons] using hk
    have ih := ih (fun c hc => ho c (by simp [hc])) (fun c hc => hw c (by simp [hc])) hk'
      (by simpa using hf) (pre ++ [x])
    have hc : (x == ':' && (Cursor.behind pre (x :: (w ++ r))).endsAt 1 (fun y => isTabOrSpace y)) =
        false := by
      by_cases hx : x = ':'
      · subst hx
        cases w with
        | nil => simp at hk
        | cons y w =>
          have := hw y (by simp)
          simpa [Cursor.endsAt] using this
      · simp [hx]
    rw [List.cons_append, plainWord]
    simp only [Cursor.rest_behind, hx, hc, Bool.false_eq_true, if_false, Bool.false_and,
      Bool.or_false, Cursor.next_behind (ho x (by simp)), ih, List.append_assoc, List.cons_append,
      List.nil_append]

end Words

section Gaps

theorem plainBreaks_behind {r : Text} (hr : BeginsWord r) (n : Nat) {fuel : Nat} (hf : n < fuel)
    (pre : Text) : plainBreaks fuel (.behind pre (Written.spaces n ++ r)) =
      (some [], .behind (pre ++ Written.spaces n) r) := by
  induction n generalizing pre fuel with
  | zero =>
    obtain ⟨fuel, rfl⟩ : ∃ k, fuel = k + 1 := ⟨fuel - 1, by omega⟩
    have hs : (Cursor.behind pre r).has 0 (· == .char ' ') = false := by
      cases r with
      | nil => rfl
      | cons x r =>
        have := (hr x rfl).1
        simp_all [isTabOrSpace]
    have hb : (Cursor.behind pre r).has 0 isBreak = false := by
      cases r with
      | nil => rfl
      | cons x r => exact (hr x rfl).2
    simp [plainBreaks, Written.spaces, hs, hb]
  | succ n ih =>
    obtain ⟨fuel, rfl⟩ : ∃ k, fuel = k + 1 := ⟨fuel - 1, by omega⟩
    have ho : isOrdinary (.char ' ') := by decide
    have ih := ih (show n < fuel by omega) (pre ++ [.char ' '])
    simp only [Written.spaces, List.replicate_succ, List.cons_append, plainBreaks] at ih ⊢
    simpa [Cursor.next_behind ho] using ih

theorem plainSpaces_spaces {r : Text} (hr : BeginsWord r) (n fuel : Nat) (pre : Text) :
    plainSpaces fuel (.behind pre (Written.spaces n ++ r)) =
      (Written.spaces n, false, .behind (pre ++ Written.spaces n) r) := by
  have hg : ∀ c ∈ Written.spaces n, (c == .char ' ') = true := by
    intro c hc
    rw [List.eq_of_mem_replicate hc]
    rfl
  have hs : ∀ c ∈ r.head?, (c == .char ' ') = false := by
    intro c hc
    have := (hr c hc).1
    simp_all [isTabOrSpace]
  have hb : (Cursor.behind (pre ++ Written.spaces n) r).has 0 isBreak = false := by
    cases r with
    | nil => rfl
    | cons x r => exact (hr x rfl).2
  rw [plainSpaces]
  simp [Cursor.span_behind pre (isOrdinary_spaces n) hg hs, hb]

/-- What documents are separated by does not stand here. -/
def NoSeparator (r : Text) : Prop := ∀ pre, (Cursor.behind pre r).atSeparator = false

theorem noSeparator_spaces {n : Nat} (hn : 0 < n) (r : Text) :
    NoSeparator (Written.spaces n ++ r) := by
  intro pre
  obtain ⟨k, rfl⟩ : ∃ k, n = k + 1 := ⟨n - 1, by omega⟩
  exact Cursor.atSeparator_behind_cons (by decide) (by decide)

theorem plainSpaces_newLine {r : Text} (hr : BeginsWord r) {n : Nat}
    (hs : NoSeparator (Written.spaces n ++ r)) {fuel : Nat} (hf : n < fuel) (pre : Text) :
    plainSpaces fuel (.behind pre (Written.newLine n ++ r)) =
      ((" " : Text), true, .behind (pre ++ Written.newLine n) r) := by
  have ho : isOrdinary (.char '\n') ∧ isBreak (.char '\n') := by decide
  have hk := Cursor.span_behind_stop pre (r := .char '\n' :: (Written.spaces n ++ r))
    (p := (· == .char ' ')) (by rintro c ⟨⟩; decide)
  have hb := plainBreaks_behind hr n hf (pre ++ [.char '\n'])
  rw [plainSpaces]
  simp [Written.newLine, hk, ho, Cursor.lineBreak_behind ho.1 ho.2 (by decide), hs _, hb,
    Text.ofString]

end Gaps

/-- Where a plain scalar before `r` ends for a scanner of lines that are indented to `i`: behind the
gap `s`, of which `broken` says whether a line ends in it. -/
def PlainEnds (i : Int) (broken : Bool) (s r : Text) : Prop :=
  EndsWord (s ++ r) ∧ ∀ pre fuel, (s ++ r).length ≤ fuel → ∃ gap,
    plainSpaces fuel (.behind pre (s ++ r)) = (gap, broken, .behind (pre ++ s) r) ∧
      (gap = [] ∨ (columnOf (pre ++ s) : Int) < i)

theorem plainEnds_colon {r : Text} (hr : ∀ c ∈ r.head?, (isTabOrSpace c || isBreak c) = true)
    (i : Int) : PlainEnds i false [] (.char ':' :: r) := by
  refine ⟨.inr ⟨r, rfl, hr⟩, fun pre fuel _ => ⟨[], ?_, .inl rfl⟩⟩
  have hw : BeginsWord (.char ':' :: r) := by
    rintro c ⟨⟩
    decide
  simpa [Written.spaces] using plainSpaces_spaces hw 0 fuel pre

theorem plainEnds_newLine {r : Text} (hr : BeginsWord r) {n : Nat}
    (hs : NoSeparator (Written.spaces n ++ r)) {i : Int} (hn : n < i) :
    PlainEnds i true (Written.newLine n) r := by
  refine ⟨.inl ?_, fun pre fuel hf => ⟨" ", plainSpaces_newLine hr hs ?_ pre, .inr ?_⟩⟩
  · rintro c ⟨⟩
    decide
  · simp only [Written.newLine, Written.spaces, List.cons_append, List.length_cons,
      List.length_append, List.length_replicate] at hf
    omega
  · rwa [columnOf_newLine]

section Steps

variable {i : Int} {gap' w r pre : Text} {broken : Bool} {fuel : Nat} {c c' : Cursor}

theorem plainRest_last (gap : Text) (before : Bool) (hw : IsPlainWord w)
    (hword : plainWord false fuel (.behind pre (w ++ r)) = (w, c))
    (hg : plainSpaces fuel c = (gap', broken, c')) (he : gap' = [] ∨ (c'.column : Int) < i) :
    plainRest false i gap before (fuel + 1) (.behind pre (w ++ r)) = (gap ++ w, broken, c') := by
  have hends : (gap'.isEmpty || c'.has 0 (· == .char '#') ||
      (!false && decide ((c'.column : Int) < i))) = true := by
    rcases he with rfl | he
    · rfl
    · simp [he]
  rw [plainRest]
  simp only [hw.has_comment, Bool.false_eq_true, if_false, hword, hg, List.isEmpty_iff, hw.ne_nil,
    hends, if_true]

theorem plainRest_more (gap : Text) (before : Bool) (hw : IsPlainWord w)
    (hword : plainWord false fuel (.behind pre (w ++ r)) = (w, c))
    (hg : plainSpaces fuel c = (gap', broken, c')) (hne : gap' ≠ [])
    (hc : c'.has 0 (· == .char '#') = false) (hi : i ≤ c'.column) {more : Text} {b : Bool}
    {c'' : Cursor} (hm : plainRest false i gap' broken fuel c' = (more, b, c'')) :
    plainRest false i gap before (fuel + 1) (.behind pre (w ++ r)) =
      (gap ++ w ++ more, b, c'') := by
  have hends : (gap'.isEmpty || c'.has 0 (· == .char '#') ||
      (!false && decide ((c'.column : Int) < i))) = false := by
    have hi' : ¬ (c'.column : Int) < i := by omega
    simp [hne, hc, hi']
  rw [plainRest]
  simp only [hw.has_comment, Bool.false_eq_true, if_false, hword, hg, List.isEmpty_iff, hw.ne_nil,
    hends, hm]

end Steps

namespace PlainSpells

variable {indent : Nat} {u t : Text}

theorem has_comment (h : PlainSpells indent u t) (pre r : Text) :
    (Cursor.behind pre (u ++ r)).has 0 (· == .char '#') = false := by
  obtain ⟨w, v, rfl, hw⟩ := h.exists_word
  rw [List.append_assoc]
  exact hw.has_comment pre _

theorem beginsWord (h : PlainSpells indent u t) (r : Text) : BeginsWord (u ++ r) := by
  obtain ⟨w, v, rfl, hw⟩ := h.exists_word
  rw [List.append_assoc]
  exact hw.beginsWord.append hw.ne_nil _

theorem endsWord_of_break {x : CodePoint} (hx : isTabOrSpace x || isBreak x) (r : Text) :
    EndsWord (x :: r) := by
  left
  rintro c ⟨⟩
  exact hx

/-- A word is read on over the gap `g` behind it, which is taken for `g'`, to what the spelling
behind the gap is read to. -/
theorem plainRest_gap (h : PlainSpells indent u t) {i : Int} {w g g' v pre : Text} {fuel : Nat}
    (hw : IsPlainWord w) (hf : w.length ≤ fuel) (hends : EndsWord (g ++ (u ++ v))) {b : Bool}
    (hgap : plainSpaces fuel (.behind (pre ++ w) (g ++ (u ++ v))) =
      (g', b, .behind (pre ++ w ++ g) (u ++ v)))
    (hne : g' ≠ []) (hi : i ≤ columnOf (pre ++ w ++ g)) (gap : Text) (before : Bool)
    {more : Text} {broken : Bool} {c : Cursor}
    (hm : plainRest false i g' b fuel (.behind (pre ++ w ++ g) (u ++ v)) = (more, broken, c)) :
    plainRest false i gap before (fuel + 1) (.behind pre (w ++ (g ++ (u ++ v)))) =
      (gap ++ w ++ more, broken, c) := by
  have hword := plainWord_behind hw.ordinary hw.unbroken hw.noKey hends hf pre
  exact plainRest_more gap before hw hword hgap hne (h.has_comment _ _)
    (by rwa [Cursor.column_behind]) hm

/-- A spelling is read up to the place where its last word ends. The lines of it and its beginning
are not indented less than the scanner asks for. -/
theorem plainRest_behind (h : PlainSpells indent u t) {i : Int} (hp : 0 < indent)
    (hi : i ≤ indent) {broken : Bool} {s r : Text} (he : PlainEnds i broken s r) {pre : Text}
    (hc : i ≤ columnOf pre + 1) (gap : Text) (before : Bool) {fuel : Nat}
    (hf : (u ++ (s ++ r)).length < fuel) :
    plainRest false i gap before fuel (.behind pre (u ++ (s ++ r))) =
      (gap ++ t, broken, .behind (pre ++ u ++ s) r) := by
  obtain ⟨fuel, rfl⟩ : ∃ k, fuel = k + 1 := ⟨fuel - 1, by omega⟩
  induction h generalizing pre gap before fuel with
  | @word w hw =>
    simp only [List.length_append] at hf
    have hword := plainWord_behind hw.ordinary hw.unbroken hw.noKey he.1
      (show w.length ≤ fuel by omega) pre
    have hsr : (s ++ r).length ≤ fuel := by
      rw [List.length_append]
      omega
    obtain ⟨gap', hg, hend⟩ := he.2 (pre ++ w) fuel hsr
    exact plainRest_last gap before hw hword hg hend
  | @spaces w u t n hw hn h ih =>
    simp only [Written.spaces, List.length_append, List.length_replicate] at hf
    obtain ⟨fuel, rfl⟩ : ∃ k, fuel = k + 1 := ⟨fuel - 1, by omega⟩
    obtain ⟨n, rfl⟩ : ∃ k, n = k + 1 := ⟨n - 1, by omega⟩
    have hgap := plainSpaces_spaces (h.beginsWord (s ++ r)) (n + 1) (fuel + 1) (pre ++ w)
    have hcol :
        columnOf (pre ++ w ++ Written.spaces (n + 1)) = columnOf pre + w.length + (n + 1) := by
      rw [columnOf_append isBreak_spaces, hw.columnOf_append]
      simp [Written.spaces]
    have hrest := ih (show i ≤ columnOf (pre ++ w ++ Written.spaces (n + 1)) + 1 by omega)
      (Written.spaces (n + 1)) false fuel (by simp only [List.length_append]; omega)
    have := h.plainRest_gap hw (show w.length ≤ fuel + 1 by omega)
      (endsWord_of_break (by decide) _) hgap (by simp [Written.spaces])
      (show i ≤ columnOf (pre ++ w ++ Written.spaces (n + 1)) by omega) gap before hrest
    simpa using this
  | @line w u t n hw hn h ih =>
    simp only [Written.newLine, Written.spaces, List.length_append, List.length_cons,
      List.length_replicate] at hf
    obtain ⟨fuel, rfl⟩ : ∃ k, fuel = k + 1 := ⟨fuel - 1, by omega⟩
    have hgap := plainSpaces_newLine (h.beginsWord (s ++ r))
      (noSeparator_spaces (show 0 < n by omega) _) (show n < fuel + 1 by omega) (pre ++ w)
    have hcol : columnOf (pre ++ w ++ Written.newLine n) = n := columnOf_newLine _ n
    have hrest := ih (show i ≤ columnOf (pre ++ w ++ Written.newLine n) + 1 by omega) " " true
      fuel (by simp only [List.length_append]; omega)
    have := h.plainRest_gap hw (show w.length ≤ fuel + 1 by omega)
      (endsWord_of_break (by decide) _) hgap (by simp [Text.ofString])
      (show i ≤ columnOf (pre ++ w ++ Written.newLine n) by omega) gap before hrest
    simpa [Text.ofString] using this

theorem plainScalar_behind (h : PlainSpells indent u t) {i : Int} (hp : 0 < indent)
    (hi : i ≤ indent) {broken : Bool} {s r : Text} (he : PlainEnds i broken s r) {pre : Text}
    (hc : i ≤ columnOf pre + 1) : plainScalar false i (.behind pre (u ++ (s ++ r))) =
      (t, broken, .behind (pre ++ u ++ s) r) := by
  rw [plainScalar]
  exact h.plainRest_behind hp hi he hc [] false (by simp)

end PlainSpells

structure IsPlainText (t : Text) : Prop where
  ne_nil : t ≠ []
  ordinary : ∀ c ∈ t, isOrdinary c
  unbroken : ∀ c ∈ t, isScalarBreak c = false
  head : t.head? ≠ some (.char ' ')
  last : t.getLast? ≠ some (.char ' ')
  unmarked : ScalarStyle.hasMarks t = false

namespace ScalarStyle

/-- What no mark in a text means for a beginning of it and for the rest. -/
theorem innerMark_append {u v : Text} {b : Bool} (hu : u ≠ [])
    (h : innerMark b (u ++ v) = false) :
    (b = true → u.head? ≠ some (.char '#')) ∧
      (gapAhead v = true → u.getLast? ≠ some (.char ':')) ∧
        innerMark (u.getLast?.any isGapMark) v = false := by
  induction u generalizing b with
  | nil => exact absurd rfl hu
  | cons x u ih =>
    simp only [List.cons_append, innerMark, Bool.or_eq_false_iff] at h
    obtain ⟨⟨hx, hc⟩, hr⟩ := h
    cases u with
    | nil =>
      refine ⟨?_, ?_, by simpa using hr⟩
      · rintro rfl
        simpa using hc
      · intro hv
        simpa [hv] using hx
    | cons y u =>
      obtain ⟨-, h2, h3⟩ := ih (List.cons_ne_nil y u) hr
      refine ⟨?_, ?_, ?_⟩
      · rintro rfl
        simpa using hc
      · simpa [List.getLast?_cons_cons] using h2
      · simpa [List.getLast?_cons_cons] using h3

theorem innerMark_of_hasMarks {t : Text} (h : hasMarks t = false) : innerMark true t = false := by
  cases t with
  | nil => rfl
  | cons c r =>
    simp only [hasMarks, Bool.or_eq_false_iff] at h
    obtain ⟨⟨⟨-, hl⟩, hg⟩, hi⟩ := h
    have hc : c ≠ '#' := by
      rintro rfl
      exact absurd hl (by decide)
    have hk : (c == ':' && gapAhead r) = false := by
      by_cases hx : c = ':'
      · subst hx
        simpa using hg
      · simp [hx]
    simp [innerMark, hk, hi, hc]

end ScalarStyle

namespace Written

open Stretch

theorem isPlainWord_of {w v : Text} (hw : IsProper (.word w)) (ho : ∀ c ∈ w, isOrdinary c)
    (hm : ScalarStyle.innerMark true (w ++ v) = false) (hv : ScalarStyle.gapAhead v = true) :
    IsPlainWord w := by
  obtain ⟨h1, h2, -⟩ := ScalarStyle.innerMark_append hw.1 hm
  refine ⟨hw.1, ho, fun c hc => ?_, h1 rfl, h2 hv⟩
  obtain ⟨hs, hb⟩ := hw.2 c hc
  simp [isTabOrSpace_eq_isSpace (ho c hc), isBreak_eq_isScalarBreak (ho c hc), hs, hb]

theorem plainSpells_stretches {fold : Bool} {indent n : Nat} (hn : fold = true → n ≤ indent) :
    ∀ (ss : List Stretch) (column : Nat), Alternate ss →
      (∀ c ∈ joined ss, isOrdinary c ∧ isScalarBreak c = false) → ss ≠ [] →
      (∀ s ∈ ss.head?, s.isWord) → (∀ s ∈ ss.getLast?, s.isWord) →
      ScalarStyle.innerMark true (joined ss) = false →
      PlainSpells n (plain fold indent column ss) (joined ss)
  | [], _, _, _, hne, _, _, _ => absurd rfl hne
  | .breaks t :: ss, _, _, _, _, hh, _, _ => absurd (hh _ rfl) (by simp [isWord])
  | .spaces k :: ss, _, _, _, _, hh, _, _ => absurd (hh _ rfl) (by simp [isWord])
  | [.word w], column, ha, ho, _, _, _, hm => by
    have hw := isPlainWord_of (v := []) ha.1 (fun c hc => (ho c (by simpa [text] using hc)).1)
      (by simpa [text] using hm) rfl
    simpa [plain, text] using PlainSpells.word hw
  | .word w :: .word v :: ss, _, ha, _, _, _, _, _ => absurd (ha.2.1 _ rfl) (by simp [isWord])
  | .word w :: .breaks t :: ss, _, ha, ho, _, _, _, _ => by
    obtain ⟨hn, hb⟩ := ha.2.2.1
    obtain ⟨x, t, rfl⟩ := List.exists_cons_of_ne_nil hn
    have := (ho x (by simp [text])).2
    exact absurd (hb x (by simp)) (by simp [this])
  | .word w :: .spaces k :: ss, column, ha, ho, _, _, hl, hm => by
    obtain ⟨j, rfl⟩ : ∃ j, k = j + 1 := ⟨k - 1, by have : 0 < k := ha.2.2.1; omega⟩
    have hne : ss ≠ [] := by
      rintro rfl
      exact absurd (hl _ rfl) (by simp [isWord])
    have hw := isPlainWord_of ha.1 (fun c hc => (ho c (by simp [text, hc])).1) hm rfl
    have hm' : ScalarStyle.innerMark true (joined ss) = false := by
      have h := (ScalarStyle.innerMark_append hw.ne_nil hm).2.2
      have hu : Stretch.text (.spaces (j + 1)) ≠ [] := by simp [text]
      have hg : (Stretch.text (.spaces (j + 1))).getLast?.any isGapMark = true := by
        rw [text, List.getLast?_replicate, if_neg (Nat.succ_ne_zero j)]
        rfl
      have h' := (ScalarStyle.innerMark_append hu h).2.2
      rwa [hg] at h'
    have hl' : ∀ s ∈ ss.getLast?, s.isWord := by
      obtain ⟨u, ss, rfl⟩ := List.exists_cons_of_ne_nil hne
      simpa [List.getLast?_cons_cons] using hl
    have ih (column : Nat) := plainSpells_stretches hn ss column ha.2.2.2.2
      (fun c hc => ho c (by simp [hc])) hne (ha.2.2.head_isWord rfl) hl' hm'
    rw [plain, plain]
    split
    · rename_i hf
      obtain ⟨hk, -, hf⟩ := hf
      obtain rfl : j = 0 := by omega
      simpa [text] using PlainSpells.line hw (hn hf) (ih indent)
    · exact PlainSpells.spaces hw (Nat.succ_pos j) (ih _)
    · simp

theorem adjacent_eq_false {p q : CodePoint → Bool} {t : Text}
    (h : (∀ c ∈ t, p c = false) ∨ ∀ c ∈ t, q c = false) : ScalarStyle.adjacent p q t = false := by
  induction t with
  | nil => rfl
  | cons a t ih =>
    cases t with
    | nil => rfl
    | cons b t =>
      have ht := ih (h.imp (fun h c hc => h c (by simp [hc])) fun h c hc => h c (by simp [hc]))
      have hab : (p a && q b) = false := by
        rcases h with h | h
        · simp [h a (by simp)]
        · simp [h b (by simp)]
      simp [ScalarStyle.adjacent, hab, ht]

theorem plainSpells_ofText {t : Text} (ht : IsPlainText t) {fold : Bool} {indent n : Nat}
    (hn : fold = true → n ≤ indent) (column : Nat) :
    PlainSpells n (plain fold indent column (Stretch.ofText t)) t := by
  have ha : Alternate (Stretch.ofText t) :=
    alternate_ofText (adjacent_eq_false (.inr ht.unbroken)) (adjacent_eq_false (.inl ht.unbroken))
  have hne : Stretch.ofText t ≠ [] := fun h => ht.ne_nil (by rw [← joined_ofText t, h]; rfl)
  have hh : ∀ s ∈ (Stretch.ofText t).head?, s.isWord := by
    intro s hs
    obtain ⟨c, r, rfl, hc⟩ := takes_head_ofText hs
    cases s with
    | spaces n => exact absurd hc (by simpa [Takes] using ht.head)
    | breaks u => exact absurd hc (by simp [Takes, ht.unbroken c (by simp)])
    | word w => rfl
  have hl : ∀ s ∈ (Stretch.ofText t).getLast?, s.isWord := by
    intro s hs
    obtain ⟨ss, hss⟩ := List.getLast?_eq_some_iff.1 hs
    have ht' : t = joined ss ++ s.text := by
      rw [← joined_ofText t, hss]
      simp [joined]
    have hp := ha.isProper s (by simp [hss])
    cases s with
    | spaces n =>
      obtain ⟨k, rfl⟩ : ∃ k, n = k + 1 := ⟨n - 1, by have : 0 < n := hp; omega⟩
      exact absurd ht.last (by simp [ht', text, List.getLast?_replicate])
    | breaks u =>
      obtain ⟨x, u, rfl⟩ := List.exists_cons_of_ne_nil hp.1
      exact absurd (hp.2 x (by simp)) (by simp [ht.unbroken x (by simp [ht', text])])
    | word w => rfl
  have := plainSpells_stretches hn (Stretch.ofText t) column ha
    (by simpa using fun c hc => ⟨ht.ordinary c hc, ht.unbroken c hc⟩) hne hh hl
    (by simpa using ScalarStyle.innerMark_of_hasMarks ht.unmarked)
  simpa using this

end Written

end RouteAtlas.Yaml
