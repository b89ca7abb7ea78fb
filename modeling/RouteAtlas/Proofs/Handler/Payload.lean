import RouteAtlas.Handler.Fields
import RouteAtlas.Proofs.Handler.Closed

/-!
# The payload that response fields are read from

An argument passes for an object literal by its first and last character. It is one exactly if the
first brace stays open up to the last one.
-/

namespace RouteAtlas.Source

/-- One object literal: its first brace stays open up to the last one, which closes it. -/
def IsObject (t : Text) : Prop :=
  ∃ inside, t = .char '{' :: (inside ++ [.char '}']) ∧ Closed true inside

/-- An expression that begins with a group in braces, goes on behind it and ends with a brace. -/
def IsCompound (t : Text) : Prop :=
  ∃ inside close rest, t = .char '{' :: (inside ++ close :: rest) ∧ Closed true inside ∧
    isCloser close ∧ Closed false rest ∧ rest.getLast? = some (.char '}')

section

variable {t inside : Text}

theorem eq_braced (hh : t.head? = some (.char '{')) (hl : t.getLast? = some (.char '}')) :
    t = .char '{' :: ((t.drop 1).dropLast ++ [.char '}']) := by
  obtain ⟨r, rfl⟩ := List.head?_eq_some_iff.1 hh
  have hr : r ≠ [] := by
    rintro rfl
    simp at hl
  rw [List.getLast?_cons_of_ne_nil hr] at hl
  obtain ⟨s, rfl⟩ := List.getLast?_eq_some_iff.1 hl
  simp

theorem isObject_iff : IsObject t ↔ t.head? = some (.char '{') ∧ t.getLast? = some (.char '}') ∧
    Closed true (t.drop 1).dropLast := by
  constructor
  · rintro ⟨inside, rfl, hc⟩
    refine ⟨rfl, ?_, by simpa using hc⟩
    rw [← List.cons_append, List.getLast?_concat]
  · rintro ⟨hh, hl, hc⟩
    exact ⟨_, eq_braced hh hl, hc⟩

instance : DecidablePred IsObject := fun _ => decidable_of_iff _ isObject_iff.symm

/-- A closed text does not go on behind a bracket that closes nothing in it. -/
theorem Closed.not_closer {commas : Bool} {s rest : Text} {close : CodePoint}
    (hs : Closed commas s) (hc : isCloser close) : ¬ Closed commas (s ++ close :: rest) := by
  intro h
  have ha := ((closed_append_iff hs).1 h).above.1 rfl
  exact absurd (ha.1 hc) (by decide)

/-- The text between two braces is closed if and only if the first does not close before. -/
theorem isObject_iff_not_isCompound (h : Closed false (.char '{' :: (inside ++ [.char '}']))) :
    IsObject (.char '{' :: (inside ++ [.char '}'])) ↔
      ¬ IsCompound (.char '{' :: (inside ++ [.char '}'])) := by
  constructor
  · rintro ⟨i, hi, hc⟩ ⟨j, close, rest, hj, hn, hk, -, hl⟩
    obtain ⟨s, rfl⟩ := List.getLast?_eq_some_iff.1 hl
    have he : i ++ [.char '}'] = (j ++ close :: s) ++ [.char '}'] := by
      simpa using (List.cons.inj (hi.symm.trans hj)).2
    obtain rfl := List.append_cancel_right he
    exact hn.not_closer hk hc
  · intro hn
    obtain ⟨i, close, rest, hr, hk, hi, hc⟩ := h.exists_group rfl
    rcases List.eq_nil_or_concat rest with rfl | ⟨s, c, rfl⟩
    · obtain ⟨rfl, -⟩ := List.append_inj' hr rfl
      exact ⟨inside, rfl, hi⟩
    · rw [List.concat_eq_append] at hr hc
      have he : inside ++ [.char '}'] = (i ++ close :: s) ++ [c] := by simpa using hr
      obtain ⟨-, hl⟩ := List.append_inj' he rfl
      obtain rfl : .char '}' = c := by simpa using hl
      exact absurd ⟨i, close, s ++ [.char '}'], by rw [hr], hi, hk, hc, by simp⟩ hn

end

section Literal

variable {argument : Text}

theorem mem_of_literalArgument? {i : Nat} {call : Unit × Text}
    (h : literalArgument? i call = some argument) :
    argument ∈ arguments call.2 ∧ isObjectLiteral argument := by
  obtain ⟨ha, ho⟩ := Option.filter_eq_some_iff.1 h
  exact ⟨List.mem_of_getElem? ha, ho⟩

/-- The response literal is an argument of some call that has braces at its ends. -/
theorem exists_call_of_responseLiteral? {g : Grammar} {source : Text}
    (h : responseLiteral? g source = some argument) :
    ∃ callee, ∃ o ∈ Text.occurrences (call callee) source,
      argument ∈ arguments o.2 ∧ isObjectLiteral argument := by
  rw [responseLiteral?, Option.orElse_eq_orElse, Option.orElse_eq_or, Option.or_eq_some_iff] at h
  rcases h with h | ⟨-, h⟩
  · obtain ⟨o, ho, hl⟩ := List.exists_of_findSome?_eq_some h
    exact ⟨_, o, ho, mem_of_literalArgument? hl⟩
  · obtain ⟨o, ho, hl⟩ := List.exists_of_findSome?_eq_some h
    exact ⟨_, o, ho, mem_of_literalArgument? hl⟩

theorem exists_of_responseLiteral? {g : Grammar} {source : Text}
    (h : responseLiteral? g source = some argument) :
    (∃ t, argument ∈ arguments t) ∧ isObjectLiteral argument := by
  obtain ⟨-, o, -, ha, hl⟩ := exists_call_of_responseLiteral? h
  exact ⟨⟨o.2, ha⟩, hl⟩

end Literal

/-- Response fields are read from a closed argument between braces. It is one object literal, of
which every entry is closed, unless it is an expression of several groups. -/
theorem responseFields_ne_nil (g : Grammar) (source : Text) (h : responseFields g source ≠ []) :
    ∃ argument inside, responseLiteral? g source = some argument ∧ Closed false argument ∧
      argument.trim = .char '{' :: (inside ++ [.char '}']) ∧
      responseFields g source = Text.distinct ((pieces inside).filterMap literalKey?) ∧
      (IsObject argument.trim ↔ ¬ IsCompound argument.trim) ∧
      (IsObject argument.trim → ∀ entry ∈ pieces inside, Closed false entry) := by
  unfold responseFields at h ⊢
  cases hr : responseLiteral? g source with
  | none => simp [hr] at h
  | some argument =>
    obtain ⟨⟨t, ha⟩, ho⟩ := exists_of_responseLiteral? hr
    simp only [isObjectLiteral, Bool.and_eq_true, beq_iff_eq] at ho
    have hb := eq_braced ho.1 ho.2
    have hc : Closed false argument := closed_of_mem_arguments ha
    refine ⟨argument, _, rfl, hc, hb, rfl, ?_, fun hi => ?_⟩
    · have ht := hc.trim
      rw [hb] at ht ⊢
      exact isObject_iff_not_isCompound ht
    · exact (isObject_iff.1 hi).2.2.of_mem_pieces

/-- A brace in quotes does not end the literal around it. -/
def quotedBraceResponse : Text := "sendSuccess(res, \x7bok: f(\"\x7d\", [1]), n\x7d, 201)"

theorem responseFields_ne_nil_quotedBrace :
    responseFields {} quotedBraceResponse ≠ [] ∧
    ∃ argument inside, responseLiteral? {} quotedBraceResponse = some argument ∧
      argument.trim = .char '{' :: (inside ++ [.char '}']) ∧ IsObject argument.trim ∧
      ∀ entry ∈ pieces inside, Closed false entry := by
  have h : responseFields {} quotedBraceResponse ≠ [] := by decide
  obtain ⟨argument, inside, hr, -, hb, -, -, he⟩ := responseFields_ne_nil {} _ h
  have ho : IsObject argument.trim := by
    have ha : responseLiteral? {} quotedBraceResponse =
      some " \x7bok: f(\"\x7d\", [1]), n\x7d" := by decide
    obtain rfl := Option.some.inj (hr.symm.trans ha)
    decide
  exact ⟨h, argument, inside, hr, hb, ho, he ho⟩

/-- Fields are read from an expression of two object literals, one field from each. -/
theorem responseFields_twoObjects :
    responseFields {} "sendSuccess(res, \x7ba, b\x7d || \x7bc, d\x7d)" = ["a", "d"] ∧
    ∃ argument, responseLiteral? {} "sendSuccess(res, \x7ba, b\x7d || \x7bc, d\x7d)" =
      some argument ∧ ¬ IsObject argument.trim :=
  ⟨by decide, " \x7ba, b\x7d || \x7bc, d\x7d", by decide, by decide⟩

end RouteAtlas.Source
