import Mathlib.Tactic.Common
import RouteAtlas.Proofs.Text.Search
import RouteAtlas.Proofs.Text.Word
import RouteAtlas.Yaml.Written

/-!
# Places in written YAML text

YAML is written without carriage returns and byte order marks, so that a place is known from the
text before it and the text ahead.
-/

namespace RouteAtlas.Yaml

section Ordinary

variable {c : CodePoint}

theorem isPrintable_of_isOrdinary (h : isOrdinary c) : isPrintable c := by
  simp only [isOrdinary, isPrintable, within] at h ⊢
  simp at h ⊢
  omega

theorem ne_of_isOrdinary {d : CodePoint} (h : isOrdinary c) (hd : isOrdinary d = false) : c ≠ d :=
  CodePoint.ne_of_class h hd

theorem isBreak_eq_isScalarBreak (h : isOrdinary c) : isBreak c = isScalarBreak c := by
  have hr : c ≠ '\r' := ne_of_isOrdinary h (by decide)
  simp [isBreak, isScalarBreak, beq_false_of_ne hr]

theorem isTabOrSpace_eq_isSpace (h : isOrdinary c) : isTabOrSpace c = (c == ' ') := by
  have ht : c ≠ '\t' := ne_of_isOrdinary h (by decide)
  simp [isTabOrSpace, ht]

theorem isOrdinary_spaces (n : Nat) : ∀ c ∈ Written.spaces n, isOrdinary c := by
  intro c hc
  rw [List.eq_of_mem_replicate hc]
  decide

theorem isOrdinary_newLine (n : Nat) : ∀ c ∈ Written.newLine n, isOrdinary c := by
  intro c hc
  rcases List.mem_cons.1 hc with rfl | hc
  · decide
  · exact isOrdinary_spaces n c hc

end Ordinary

def columnOf (t : Text) : Nat := (t.reverse.takeWhile fun c => !isBreak c).length

theorem columnOf_append {w : Text} (hw : ∀ c ∈ w, isBreak c = false) (t : Text) :
    columnOf (t ++ w) = columnOf t + w.length := by
  have hr : ∀ c ∈ w.reverse, (!isBreak c) = true := by
    simpa using hw
  rw [columnOf, List.reverse_append, List.takeWhile_append_of_pos hr, List.length_append,
    List.length_reverse, Nat.add_comm, columnOf]

theorem columnOf_append_break {x : CodePoint} (hx : isBreak x) (t : Text) :
    columnOf (t ++ [x]) = 0 := by
  simp [columnOf, hx]

theorem isBreak_spaces {n : Nat} : ∀ c ∈ Written.spaces n, isBreak c = false := by
  intro c hc
  rw [List.eq_of_mem_replicate hc]
  decide

theorem columnOf_newLine (t : Text) (n : Nat) : columnOf (t ++ Written.newLine n) = n := by
  have ha : t ++ Written.newLine n = t ++ [.char '\n'] ++ Written.spaces n := by
    simp [Written.newLine]
  rw [ha, columnOf_append isBreak_spaces, columnOf_append_break (by decide)]
  simp [Written.spaces]

namespace Cursor

/-- The place behind a text, with another text ahead. -/
def behind (pre rest : Text) : Cursor where
  rest := rest
  index := pre.length
  line := pre.countP isBreak
  column := columnOf pre
  size := (pre ++ rest).length

variable {pre w r : Text} {x : CodePoint}

@[simp] theorem rest_behind : (behind pre r).rest = r := rfl

@[simp] theorem index_behind : (behind pre r).index = pre.length := rfl

@[simp] theorem line_behind : (behind pre r).line = pre.countP isBreak := rfl

@[simp] theorem column_behind : (behind pre r).column = columnOf pre := rfl

@[simp] theorem left_behind : (behind pre r).left = r.length := by simp [left, behind]

@[simp] theorem peek_behind (n : Nat) : (behind pre r).peek n = r[n]? := rfl

@[simp] theorem has_behind_nil (p : CodePoint → Bool) : (behind pre []).has 0 p = false := rfl

@[simp] theorem has_behind_cons (p : CodePoint → Bool) : (behind pre (x :: r)).has 0 p = p x := rfl

@[simp] theorem isEnd_behind : (behind pre r).isEnd = r.isEmpty := rfl

theorem next_behind (hx : isOrdinary x) : (behind pre (x :: r)).next = behind (pre ++ [x]) r := by
  have hr : x ≠ '\r' := ne_of_isOrdinary hx (by decide)
  have hm : x ≠ '\uFEFF' := ne_of_isOrdinary hx (by decide)
  by_cases hb : isBreak x
  · simp [next, behind, hb, hr, columnOf_append_break]
  · have hc : columnOf (pre ++ [x]) = columnOf pre + 1 := columnOf_append (by simpa using hb) pre
    simp [next, behind, hb, hm, hc]

theorem advance_behind (pre r : Text) (hw : ∀ c ∈ w, isOrdinary c) :
    (behind pre (w ++ r)).advance w.length = behind (pre ++ w) r := by
  induction w generalizing pre with
  | nil => simp [advance]
  | cons x w ih =>
    rw [List.length_cons, advance, List.cons_append, next_behind (hw x (by simp)),
      ih _ fun c hc => hw c (by simp [hc])]
    simp

theorem span_behind (pre : Text) {p : CodePoint → Bool} (ho : ∀ c ∈ w, isOrdinary c)
    (hw : ∀ c ∈ w, p c) (hr : ∀ c ∈ r.head?, p c = false) :
    (behind pre (w ++ r)).span p = (w, behind (pre ++ w) r) := by
  have ht : (w ++ r).takeWhile p = w := Text.takeWhile_append_of_stop hw hr
  simp only [span, rest_behind, ht, advance_behind pre r ho]

theorem span_behind_stop (pre : Text) {p : CodePoint → Bool} (hr : ∀ c ∈ r.head?, p c = false) :
    (behind pre r).span p = ([], behind pre r) := by
  simpa using span_behind pre (w := []) (by simp) (by simp) hr

theorem skipWhile_behind (pre : Text) {p : CodePoint → Bool} (ho : ∀ c ∈ w, isOrdinary c)
    (hw : ∀ c ∈ w, p c) (hr : ∀ c ∈ r.head?, p c = false) :
    (behind pre (w ++ r)).skipWhile p = behind (pre ++ w) r := by
  rw [skipWhile, span_behind pre ho hw hr]

theorem skipSpaces_behind (pre : Text) (n : Nat) (hr : ∀ c ∈ r.head?, c ≠ .char ' ') :
    (behind pre (Written.spaces n ++ r)).skipSpaces = behind (pre ++ Written.spaces n) r := by
  refine skipWhile_behind pre (isOrdinary_spaces n) ?_ ?_
  · intro c hc
    rw [List.eq_of_mem_replicate hc]
    rfl
  · intro c hc
    simpa using hr c hc

/-- A line feed and the separators of lines and paragraphs count as they are. -/
theorem lineBreak_behind (ho : isOrdinary x) (hb : isBreak x) (hn : x ≠ '\u0085') :
    (behind pre (x :: r)).lineBreak = ([x], behind (pre ++ [x]) r) := by
  have hr : x ≠ '\r' := ne_of_isOrdinary ho (by decide)
  unfold lineBreak
  rw [rest_behind]
  split
  · rename_i heq
    exact absurd (List.cons.inj heq).1 hr
  · rename_i y _ _ heq
    obtain ⟨rfl, rfl⟩ := List.cons.inj heq
    rw [next_behind ho]
    by_cases hl : x = .char '\n'
    · subst hl
      simp [Text.ofString]
    · simp [hr, hl, hn, hb]
  · rename_i heq
    simp at heq

theorem atSeparator_behind_cons (hd : x ≠ .char '-') (hp : x ≠ .char '.') :
    (behind pre (x :: r)).atSeparator = false := by
  simp [atSeparator, hd, hp]

@[simp] theorem atSeparator_behind_nil : (behind pre []).atSeparator = false := rfl

end Cursor

end RouteAtlas.Yaml
