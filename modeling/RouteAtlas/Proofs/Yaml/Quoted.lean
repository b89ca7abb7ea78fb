import Mathlib.Algebra.Group.Nat.Defs
import RouteAtlas.Proofs.Text.Case
import RouteAtlas.Proofs.Yaml.Cursor
import RouteAtlas.Yaml.Token.Scalar

/-!
# Quoted scalars

How words, escapes and the gaps between words are spelled between quotes, and that the scanner reads
every spelling as the text it stands for.
-/

namespace RouteAtlas.Yaml

def BeginsWord (t : Text) : Prop := ∀ c ∈ t.head?, isTabOrSpace c = false ∧ isBreak c = false

theorem BeginsWord.append {w : Text} (h : BeginsWord w) (hn : w ≠ []) (r : Text) :
    BeginsWord (w ++ r) := by
  cases w with
  | nil => exact absurd rfl hn
  | cons x w => exact h

section Hexadecimal

theorem hexValue?_upper {d : Nat} (hd : d < 16) :
    Json.hexValue? (.char d.digitChar.toUpper) = some d := by
  have h : ∀ d < 16, Json.hexValue? (.char (Nat.digitChar d).toUpper) = some d := by decide
  exact h d hd

theorem hexValues_toDigits (n : Nat) : ∃ ds : List Nat,
    ((Nat.toDigits 16 n).map fun c => Json.hexValue? (.char c.toUpper)) = ds.map some ∧
      ds.foldl (fun n d => 16 * n + d) 0 = n := by
  induction n using Nat.strongRecOn with
  | ind n ih =>
    rw [Nat.toDigits_eq_if (by omega)]
    split
    · rename_i h
      exact ⟨[n], by simp [hexValue?_upper h], by simp⟩
    · rename_i h
      obtain ⟨ds, hm, hf⟩ := ih (n / 16) (by omega)
      refine ⟨ds ++ [n % 16], ?_, ?_⟩
      · rw [List.map_append, hm]
        simp [hexValue?_upper (Nat.mod_lt n (by omega))]
      · rw [List.foldl_append, hf]
        exact Nat.div_add_mod n 16

theorem upperHex_eq (digits n : Nat) : Written.upperHex digits n =
    List.replicate (digits - (Nat.toDigits 16 n).length) (.char '0') ++
      (Nat.toDigits 16 n).map fun c => .char c.toUpper := by
  have hz : ('0' : Char).toUpper = '0' := rfl
  simp [Written.upperHex, Utf8.hexText, hz]

/-- Digits of a number that has no more are read as the number. -/
theorem hexValues_upperHex {digits n : Nat} (h : n < 16 ^ digits) (hd : 0 < digits) :
    ∃ ds : List Nat, (Written.upperHex digits n).map Json.hexValue? = ds.map some ∧
      ds.length = digits ∧ ds.foldl (fun n d => 16 * n + d) 0 = n := by
  obtain ⟨ds, hm, hf⟩ := hexValues_toDigits n
  have hl : ds.length = (Nat.toDigits 16 n).length := by
    simpa using (congrArg List.length hm).symm
  have hle : (Nat.toDigits 16 n).length ≤ digits :=
    (Nat.length_toDigits_le_iff (by omega) hd).2 h
  have hz : Json.hexValue? (.char '0') = some 0 := by decide
  refine ⟨List.replicate (digits - ds.length) 0 ++ ds, ?_, by simp; omega, ?_⟩
  · simp only [upperHex_eq, List.map_append, List.map_map, List.map_replicate, hz, hl, ← hm]
    rfl
  · have hr (k : Nat) : (List.replicate k 0).foldl (fun n d => 16 * n + d) 0 = 0 := by
      induction k with
      | zero => rfl
      | succ k ih => rw [List.replicate_succ, List.foldl_cons]; exact ih
    rw [List.foldl_append, hr, hf]

theorem forall_mem_upperHex {p : CodePoint → Prop}
    (hp : ∀ d < 16, p (.char (Nat.digitChar d).toUpper)) (digits n : Nat) :
    ∀ c ∈ Written.upperHex digits n, p c := by
  have ht (n : Nat) : ∀ c ∈ Nat.toDigits 16 n, p (.char c.toUpper) := by
    induction n using Nat.strongRecOn with
    | ind n ih =>
      intro c hc
      rw [Nat.toDigits_eq_if (by omega)] at hc
      split at hc
      · rename_i h
        rw [List.mem_singleton.1 hc]
        exact hp n h
      · rename_i h
        rcases List.mem_append.1 hc with hc | hc
        · exact ih (n / 16) (by omega) c hc
        · rw [List.mem_singleton.1 hc]
          exact hp _ (Nat.mod_lt n (by omega))
  intro c hc
  rw [upperHex_eq] at hc
  rcases List.mem_append.1 hc with hc | hc
  · rw [List.eq_of_mem_replicate hc]
    exact hp 0 (by omega)
  · obtain ⟨x, hx, rfl⟩ := List.mem_map.1 hc
    exact ht n x hx

theorem isOrdinary_upperHex (digits n : Nat) : ∀ c ∈ Written.upperHex digits n, isOrdinary c :=
  forall_mem_upperHex (by decide) digits n

theorem escapedNumber_behind {digits n : Nat} (h : n < 16 ^ digits) (hd : 0 < digits)
    (hn : n < 0x110000) (pre r : Text) :
    escapedNumber digits (.behind pre (Written.upperHex digits n ++ r)) =
      .ok (CodePoint.ofNat n, .behind (pre ++ Written.upperHex digits n) r) := by
  obtain ⟨ds, hm, hl, hf⟩ := hexValues_upperHex h hd
  have hlen : (Written.upperHex digits n).length = digits := by
    simpa [hl] using congrArg List.length hm
  have hv : (Written.upperHex digits n).filterMap Json.hexValue? = ds := by
    simpa [List.filterMap_map] using congrArg (List.filterMap id) hm
  have ht : (Written.upperHex digits n ++ r).take digits = Written.upperHex digits n :=
    List.take_left' hlen
  have ha := Cursor.advance_behind pre r (isOrdinary_upperHex digits n)
  rw [hlen] at ha
  rw [escapedNumber]
  simp only [Cursor.rest_behind, ht, hv, hl, hf, ha, Nat.lt_irrefl, if_false]
  rw [if_neg (by omega), if_neg (by omega)]

end Hexadecimal

section Escapes

variable {y : CodePoint} {e : Text}

theorem shortEscape?_of_written {x : Char} (h : Written.shortEscape? y = some x) :
    shortEscape? (.char x) = some y ∧ isOrdinary (.char x) := by
  unfold Written.shortEscape? at h
  split at h
  case h_15 => cases h
  all_goals
    rename_i hy
    cases h
    rw [← CodePoint.ofNat_toNat y, hy]
    decide

theorem toNat_lt_of_whole (hy : y.isLone = false) : y.toNat < 0x110000 := by
  cases y with
  | lone n => cases hy
  | char c =>
    have := c.valid
    simp only [CodePoint.toNat_char, UInt32.isValidChar, Nat.isValidChar] at this ⊢
    change _ ∨ _ at this
    have hc : c.toNat = c.val.toNat := rfl
    omega

/-- An escape is a letter, or gives the number of a character in as many digits as its letter
says. -/
inductive Escapes : Text → CodePoint → Prop
  | short {x y : CodePoint} (ho : isOrdinary x) (hx : shortEscape? x = some y) :
      Escapes [.char '\\', x] y
  | numbered {k y : CodePoint} {digits : Nat} (ho : isOrdinary k) (hs : shortEscape? k = none)
      (hl : longEscape? k = some digits) (hd : 0 < digits) (hn : y.toNat < 16 ^ digits)
      (hy : y.toNat < 0x110000) : Escapes (.char '\\' :: k :: Written.upperHex digits y.toNat) y

theorem escapes_of_written (hy : y.isLone = false) (he : Written.escape? y = some e) :
    Escapes e y := by
  have hn := toNat_lt_of_whole hy
  unfold Written.escape? at he
  dsimp only at he
  split at he
  · rename_i x hx
    obtain ⟨hx, ho⟩ := shortEscape?_of_written hx
    cases he
    exact .short ho hx
  split at he
  · cases he
  split at he
  · cases he
    exact .numbered (show isOrdinary 'x' by decide) (by decide) (show _ = some 2 by decide)
      (by omega) (by omega) hn
  split at he
  · cases he
    exact .numbered (show isOrdinary 'u' by decide) (by decide) (show _ = some 4 by decide)
      (by omega) (by omega) hn
  · cases he
    exact .numbered (show isOrdinary 'U' by decide) (by decide) (show _ = some 8 by decide)
      (by omega) (by omega) hn

theorem Escapes.exists_cons (h : Escapes e y) : ∃ r, e = .char '\\' :: r := by
  cases h <;> exact ⟨_, rfl⟩

theorem Escapes.isOrdinary (h : Escapes e y) : ∀ c ∈ e, isOrdinary c := by
  have hb : Yaml.isOrdinary (.char '\\') := by decide
  cases h with
  | short ho hx => simp [hb, ho]
  | @numbered k _ digits ho hs hl hd hn hy =>
    have := isOrdinary_upperHex digits y.toNat
    simpa [hb, ho] using this

theorem Escapes.isBreak (h : Escapes e y) : ∀ c ∈ e, isBreak c = false := by
  have hb : Yaml.isBreak (.char '\\') = false := by decide
  -- No break has an escape of its own, short or by number.
  have hn {c : CodePoint} (hc : (shortEscape? c).isSome ∨ (longEscape? c).isSome) :
      Yaml.isBreak c = false := by
    cases hc' : Yaml.isBreak c with
    | false => rfl
    | true =>
      simp only [Yaml.isBreak, Bool.or_eq_true, beq_iff_eq] at hc'
      rcases hc' with (((rfl | rfl) | rfl) | rfl) | rfl <;> exact absurd hc (by decide)
  cases h with
  | short ho hx => simp [hb, hn (.inl (Option.isSome_of_eq_some hx))]
  | @numbered k _ digits ho hs hl hd =>
    have := forall_mem_upperHex (p := fun c => Yaml.isBreak c = false) (by decide) digits y.toNat
    simpa [hb, hn (.inr (Option.isSome_of_eq_some hl))] using this

theorem quotedWord_escape (h : Escapes e y) (fuel : Nat) (pre r : Text) :
    quotedWord true (fuel + 1) (.behind pre (e ++ r)) =
      (quotedWord true fuel (.behind (pre ++ e) r)).map fun p => (y :: p.1, p.2) := by
  have hb : Yaml.isOrdinary (.char '\\') := by decide
  have hg : (isTabOrSpace '\\' || isBreak '\\') = false := by decide
  cases h with
  | short ho hx =>
    rw [quotedWord]
    simp [hg, hx, Cursor.next_behind hb, Cursor.next_behind ho]
  | @numbered k _ digits ho hs hl hd hn hy =>
    have hv := escapedNumber_behind hn hd hy (pre ++ [.char '\\', k]) r
    rw [quotedWord]
    simp only [List.append_assoc, List.cons_append, List.nil_append, CodePoint.ofNat_toNat] at hv
    simp [hg, hs, hl, Cursor.next_behind hb, Cursor.next_behind ho, hv, bind, Except.bind]

end Escapes

section Gaps

variable {w : Text}

theorem quotedBreaks_behind (pre : Text) {bs : Text}
    (hb : ∀ c ∈ bs, isOrdinary c ∧ isBreak c ∧ c ≠ '\u0085')
    {n : Nat} (hn : 0 < n) (hw : BeginsWord w) {fuel : Nat} (hf : bs.length < fuel) :
    quotedBreaks fuel (.behind pre (bs ++ (Written.spaces n ++ w))) =
      .ok (bs, .behind (pre ++ bs ++ Written.spaces n) w) := by
  obtain ⟨fuel, rfl⟩ : ∃ k, fuel = k + 1 := ⟨fuel - 1, by omega⟩
  induction bs generalizing pre fuel with
  | nil =>
    have hs : (Cursor.behind pre (Written.spaces n ++ w)).atSeparator = false := by
      obtain ⟨k, rfl⟩ : ∃ k, n = k + 1 := ⟨n - 1, by omega⟩
      exact Cursor.atSeparator_behind_cons (by decide) (by decide)
    have hg : ∀ c ∈ Written.spaces n, isTabOrSpace c := by
      intro c hc
      rw [List.eq_of_mem_replicate hc]
      rfl
    have hk := Cursor.skipWhile_behind pre (isOrdinary_spaces n) hg fun c hc => (hw c hc).1
    have hl : (Cursor.behind (pre ++ Written.spaces n) w).has 0 isBreak = false := by
      cases w with
      | nil => rfl
      | cons x w => exact (hw x rfl).2
    simp [quotedBreaks, hs, hk, hl]
  | cons x bs ih =>
    obtain ⟨ho, hx, hne⟩ := hb x (by simp)
    have hs : (Cursor.behind pre (x :: (bs ++ (Written.spaces n ++ w)))).atSeparator = false := by
      refine Cursor.atSeparator_behind_cons ?_ ?_ <;> exact CodePoint.ne_of_class hx (by decide)
    have hg : isTabOrSpace x = false := by
      have hx1 : x ≠ ' ' := CodePoint.ne_of_class hx (by decide)
      have hx2 : x ≠ '\t' := CodePoint.ne_of_class hx (by decide)
      simp [isTabOrSpace, hx1, hx2]
    have hk : (Cursor.behind pre (x :: (bs ++ (Written.spaces n ++ w)))).skipWhile isTabOrSpace =
        .behind pre (x :: (bs ++ (Written.spaces n ++ w))) := by
      rw [Cursor.skipWhile, Cursor.span_behind_stop pre (by simpa using hg)]
    obtain ⟨fuel, rfl⟩ : ∃ k, fuel = k + 1 := ⟨fuel - 1, by simp at hf; omega⟩
    have hi := ih (pre ++ [x]) (fun c hc => hb c (by simp [hc])) fuel (by simpa using hf)
    simp only [List.append_assoc, List.cons_append, List.nil_append] at hi
    rw [quotedBreaks, List.cons_append]
    simp [hs, hk, hx, Cursor.lineBreak_behind ho hx hne, hi, bind, Except.bind, pure, Except.pure]

/-- What a gap of breaks stands for: a single line feed for a space, and of several the first for
nothing. -/
def foldedBreaks (b : CodePoint) (bs : Text) : Text :=
  if b = .char '\n' then (if bs = [] then " " else bs) else b :: bs

theorem quotedSpaces_breaks (pre : Text) {b : CodePoint} {bs : Text}
    (hb : ∀ c ∈ b :: bs, isOrdinary c ∧ isBreak c ∧ c ≠ '\u0085') {n : Nat} (hn : 0 < n)
    (hw : BeginsWord w) {fuel : Nat} (hf : bs.length < fuel) :
    quotedSpaces fuel (.behind pre (b :: bs ++ Written.spaces n ++ w)) =
      .ok (foldedBreaks b bs, .behind (pre ++ (b :: bs ++ Written.spaces n)) w) := by
  obtain ⟨ho, hx, hne⟩ := hb b (by simp)
  have hg : isTabOrSpace b = false := by
    have hx1 : b ≠ ' ' := CodePoint.ne_of_class hx (by decide)
    have hx2 : b ≠ '\t' := CodePoint.ne_of_class hx (by decide)
    simp [isTabOrSpace, hx1, hx2]
  have hk := Cursor.span_behind_stop pre (r := b :: bs ++ Written.spaces n ++ w)
    (p := isTabOrSpace) (by simpa using hg)
  have hq := quotedBreaks_behind (pre ++ [b]) (fun c hc => hb c (by simp [hc])) hn hw hf
  simp only [List.append_assoc, List.cons_append, List.nil_append] at hk hq
  rw [quotedSpaces]
  simp only [List.append_assoc, List.cons_append, hk]
  simp only [Cursor.isEnd_behind, List.isEmpty_cons, Bool.false_eq_true, if_false,
    Cursor.has_behind_cons, hx, if_true, Cursor.lineBreak_behind ho hx hne, hq, bind, Except.bind,
    pure, Except.pure]
  by_cases hl : b = .char '\n'
  · by_cases he : bs = [] <;> simp [foldedBreaks, hl, he, Text.ofString]
  · simp [foldedBreaks, hl, Text.ofString]

theorem quotedSpaces_spaces (pre : Text) (n : Nat) (hw : BeginsWord w) (hne : w ≠ []) (fuel : Nat) :
    quotedSpaces fuel (.behind pre (Written.spaces n ++ w)) =
      .ok (Written.spaces n, .behind (pre ++ Written.spaces n) w) := by
  have hg : ∀ c ∈ Written.spaces n, isTabOrSpace c := by
    intro c hc
    rw [List.eq_of_mem_replicate hc]
    rfl
  have hk := Cursor.span_behind pre (isOrdinary_spaces n) hg fun c hc => (hw c hc).1
  cases w with
  | nil => exact absurd rfl hne
  | cons x w => simp [quotedSpaces, hk, (hw x rfl).2]

end Gaps

def quoteMark (double : Bool) : CodePoint := if double then '"' else '\''

/-- How a text is spelled between quotes, the closing one included. -/
inductive Spells : Bool → Text → Text → Prop
  | close (double : Bool) : Spells double [quoteMark double] []
  | plain {double : Bool} {x : CodePoint} {w t : Text} (ho : isOrdinary x)
      (hg : (isTabOrSpace x || isBreak x) = false) (hq : x ≠ quoteMark double)
      (he : double → x ≠ '\\') (h : Spells double w t) : Spells double (x :: w) (x :: t)
  | doubled {w t : Text} (h : Spells false w t) :
      Spells false (.char '\'' :: .char '\'' :: w) (.char '\'' :: t)
  | escape {y : CodePoint} {e w t : Text} (he : Escapes e y) (h : Spells true w t) :
      Spells true (e ++ w) (y :: t)
  | continued {n : Nat} {w t : Text} (hn : 0 < n) (hw : BeginsWord w) (h : Spells true w t) :
      Spells true (.char '\\' :: (Written.newLine n ++ w)) t
  | spaces {double : Bool} {n : Nat} {w t : Text} (hn : 0 < n) (hw : BeginsWord w)
      (h : Spells double w t) : Spells double (Written.spaces n ++ w) (Written.spaces n ++ t)
  | breaks {double : Bool} {b : CodePoint} {bs w t : Text} {n : Nat}
      (hb : ∀ c ∈ b :: bs, isOrdinary c ∧ isBreak c ∧ c ≠ '\u0085') (hn : 0 < n)
      (hw : BeginsWord w) (h : Spells double w t) :
      Spells double (b :: bs ++ Written.spaces n ++ w) (foldedBreaks b bs ++ t)

section Reading

variable {double : Bool} {w t : Text}

theorem Spells.ne_nil (h : Spells double w t) : w ≠ [] := by
  cases h with
  | escape he h =>
    obtain ⟨r, rfl⟩ := he.exists_cons
    simp
  | spaces hn hw h =>
    simp [Written.spaces]
    omega
  | _ => simp

/-- What follows a word: the closing quote, or a gap and the rest. -/
def quotedTail (double : Bool) (fuel : Nat) (c : Cursor) : Except LoadError (Text × Cursor) :=
  if c.has 0 (· == quoteMark double) then .ok ([], c.next)
  else do
    let (gap, c) ← quotedSpaces fuel c
    let (more, c) ← quotedRest double fuel c
    return (gap ++ more, c)

theorem quotedRest_succ (double : Bool) (fuel : Nat) (c : Cursor) :
    quotedRest double (fuel + 1) c = (quotedWord double fuel c).bind fun p =>
      (quotedTail double fuel p.2).map fun q => (p.1 ++ q.1, q.2) := by
  rw [quotedRest]
  cases quotedWord double fuel c with
  | error e => rfl
  | ok p =>
    obtain ⟨word, c⟩ := p
    cases double
    all_goals
      simp only [bind, Except.bind, quotedTail, quoteMark, if_true, Bool.false_eq_true, if_false]
      split
      · simp [Except.map, pure, Except.pure]
      cases quotedSpaces fuel c with
      | error e => rfl
      | ok gap =>
        dsimp only
        cases quotedRest _ fuel gap.2 with
        | error e => rfl
        | ok more => simp [Except.map, pure, Except.pure]

theorem quotedTail_of_gap {fuel : Nat} {c c₁ c₂ c₃ : Cursor} {gap word tail : Text}
    (hq : c.has 0 (· == quoteMark double) = false)
    (hg : quotedSpaces (fuel + 1) c = .ok (gap, c₁))
    (hw : quotedWord double fuel c₁ = .ok (word, c₂))
    (ht : quotedTail double fuel c₂ = .ok (tail, c₃)) :
    quotedTail double (fuel + 1) c = .ok (gap ++ (word ++ tail), c₃) := by
  rw [quotedTail, hq]
  simp [hg, quotedRest_succ, hw, ht, bind, Except.bind, pure, Except.pure, Except.map]

theorem quotedWord_stop {x : CodePoint} {pre r : Text} (hg : isTabOrSpace x || isBreak x)
    (fuel : Nat) :
    quotedWord double fuel (.behind pre (x :: r)) = .ok ([], .behind pre (x :: r)) := by
  cases fuel with
  | zero => rfl
  | succ fuel =>
    rw [quotedWord]
    simp only [Cursor.rest_behind, hg, if_true]

/-- The closing quote ends a word; in single quotes another one behind it would not. -/
theorem quotedWord_close (pre : Text) {r : Text} (hr : ∀ c ∈ r.head?, c ≠ .char '\'') (fuel : Nat) :
    quotedWord double (fuel + 1) (.behind pre (quoteMark double :: r)) =
      .ok ([], .behind pre (quoteMark double :: r)) := by
  have hd : isTabOrSpace '"' = false ∧ isBreak '"' = false := by decide
  have hs : isTabOrSpace '\'' = false ∧ isBreak '\'' = false := by decide
  have hh : r.head? ≠ some (.char '\'') := fun hh => hr _ hh rfl
  cases double <;> simp [quotedWord, quoteMark, hd, hs, hh]

theorem quotedWord_plain {x : CodePoint} (ho : isOrdinary x)
    (hg : (isTabOrSpace x || isBreak x) = false) (hq : x ≠ quoteMark double)
    (he : double → x ≠ '\\') (fuel : Nat) (pre r : Text) :
    quotedWord double (fuel + 1) (.behind pre (x :: r)) =
      (quotedWord double fuel (.behind (pre ++ [x]) r)).map fun p => (x :: p.1, p.2) := by
  have hq1 : (x == '\'' && !double) = false := by
    cases double with
    | true => simp
    | false => simpa [quoteMark] using hq
  have hq2 : (x == '"' && double) = false := by
    cases double with
    | true => simpa [quoteMark] using hq
    | false => simp
  have he' : (x == '\\' && double) = false := by
    cases double with
    | true => simpa using he rfl
    | false => simp
  rw [quotedWord]
  simp only [Cursor.rest_behind, hg, hq1, hq2, he', Bool.false_eq_true, if_false,
    Cursor.next_behind ho]

theorem quotedWord_doubled (fuel : Nat) (pre r : Text) :
    quotedWord false (fuel + 1) (.behind pre (.char '\'' :: .char '\'' :: r)) =
      (quotedWord false fuel (.behind (pre ++ [.char '\'', .char '\'']) r)).map fun p =>
        (.char '\'' :: p.1, p.2) := by
  have ho : isOrdinary (.char '\'') := by decide
  have hg : (isTabOrSpace '\'' || isBreak '\'') = false := by decide
  rw [quotedWord]
  simp [hg, Cursor.next_behind ho]

/-- A word goes on behind an escaped line break. -/
theorem quotedWord_continued {n : Nat} (hn : 0 < n) (hw : BeginsWord w) {fuel : Nat} (hf : 0 < fuel)
    (pre : Text) :
    quotedWord true (fuel + 1) (.behind pre (.char '\\' :: (Written.newLine n ++ w))) =
      quotedWord true fuel (.behind (pre ++ .char '\\' :: Written.newLine n) w) := by
  have ho : isOrdinary (.char '\\') := by decide
  have hg : (isTabOrSpace '\\' || isBreak '\\') = false := by decide
  have hl : isOrdinary (.char '\n') ∧ isBreak (.char '\n') := by decide
  have hs : shortEscape? (.char '\n') = none ∧ longEscape? (.char '\n') = none := by decide
  have hb : ∀ c ∈ ([] : Text), isOrdinary c ∧ isBreak c ∧ c ≠ '\u0085' := by simp
  have hq := quotedBreaks_behind (pre ++ [.char '\\', .char '\n']) hb hn hw hf
  simp only [List.append_assoc, List.cons_append, List.nil_append, List.append_nil] at hq
  rw [quotedWord]
  simp [hg, hs, hl, Written.newLine, Cursor.next_behind ho,
    Cursor.lineBreak_behind hl.1 hl.2 (by decide), hq, bind, Except.bind]
  cases quotedWord true fuel _ <;> rfl

/-- Whether a reader at `c` reads `t` and comes to `d`, given fuel of that size. It stands in a word
or at its end, so that the word ahead is told from what follows it. -/
def ReadsUpTo (double : Bool) (size : Nat) (c d : Cursor) (t : Text) : Prop :=
  ∃ word tail middle, t = word ++ tail ∧
    (∀ fuel, size ≤ fuel → quotedWord double fuel c = .ok (word, middle)) ∧
    ∀ fuel, size ≤ fuel → quotedTail double fuel middle = .ok (tail, d)

section ReadsUpTo

variable {m n : Nat} {c d e : Cursor} {u : Text}

theorem ReadsUpTo.inWord (h : ReadsUpTo double n d e t) (hm : n < m)
    (hp : ∀ fuel, n ≤ fuel → quotedWord double (fuel + 1) c =
      (quotedWord double fuel d).map fun p => (u ++ p.1, p.2)) :
    ReadsUpTo double m c e (u ++ t) := by
  obtain ⟨word, tail, middle, rfl, hw, ht⟩ := h
  refine ⟨u ++ word, tail, middle, by rw [List.append_assoc], fun fuel hf => ?_,
    fun fuel hf => ?_⟩
  · obtain ⟨fuel, rfl⟩ : ∃ k, fuel = k + 1 := ⟨fuel - 1, by omega⟩
    rw [hp fuel (by omega), hw fuel (by omega)]
    rfl
  · exact ht fuel (by omega)

theorem ReadsUpTo.behindGap {x : CodePoint} {pre r : Text} (h : ReadsUpTo double n d e t)
    (hm : n < m) (hx : isTabOrSpace x || isBreak x)
    (hg : ∀ fuel, m ≤ fuel → quotedSpaces fuel (.behind pre (x :: r)) = .ok (u, d)) :
    ReadsUpTo double m (.behind pre (x :: r)) e (u ++ t) := by
  obtain ⟨word, tail, middle, rfl, hw, ht⟩ := h
  have hq : x ≠ quoteMark double :=
    CodePoint.ne_of_class (p := fun x => isTabOrSpace x || isBreak x) hx
      (by cases double <;> decide)
  refine ⟨[], _, _, rfl, fun fuel _ => quotedWord_stop hx fuel, fun fuel hf => ?_⟩
  obtain ⟨fuel, rfl⟩ : ∃ k, fuel = k + 1 := ⟨fuel - 1, by omega⟩
  exact quotedTail_of_gap (by simpa using hq) (hg _ hf) (hw fuel (by omega)) (ht fuel (by omega))

end ReadsUpTo

/-- Every spelling is read as its text, up to behind the closing quote. -/
theorem Spells.readsUpTo (h : Spells double w t) (pre r : Text)
    (hr : ∀ c ∈ r.head?, c ≠ .char '\'') :
    ReadsUpTo double w.length (.behind pre (w ++ r)) (.behind (pre ++ w) r) t := by
  induction h generalizing pre with
  | close double =>
    have ho : isOrdinary (quoteMark double) := by cases double <;> decide
    refine ⟨[], [], .behind pre (quoteMark double :: r), rfl, fun fuel hf => ?_, fun fuel _ => ?_⟩
    · obtain ⟨fuel, rfl⟩ : ∃ k, fuel = k + 1 := ⟨fuel - 1, by simp at hf; omega⟩
      exact quotedWord_close pre hr fuel
    · simp [quotedTail, Cursor.next_behind ho]
  | @plain double x w t ho hg hq he h ih =>
    have hi := ih (pre ++ [x])
    rw [List.append_assoc, List.singleton_append] at hi
    exact hi.inWord (u := [x]) (by simp) fun fuel _ => quotedWord_plain ho hg hq he fuel pre _
  | @doubled w t h ih =>
    have hi := ih (pre ++ [.char '\'', .char '\''])
    rw [List.append_assoc, List.cons_append, List.singleton_append] at hi
    exact hi.inWord (u := [.char '\'']) (by simp only [List.length_cons]; omega) fun fuel _ =>
      quotedWord_doubled fuel pre _
  | @escape y e w t he h ih =>
    have hl : w.length < (e ++ w).length := by
      obtain ⟨s, rfl⟩ := he.exists_cons
      simp only [List.length_cons, List.length_append]
      omega
    have hi := ih (pre ++ e)
    rw [List.append_assoc] at hi
    rw [List.append_assoc]
    exact hi.inWord (u := [y]) hl fun fuel _ => quotedWord_escape he fuel pre _
  | @continued n w t hn hb h ih =>
    have hw : 0 < w.length := List.length_pos_iff.2 h.ne_nil
    have hi := ih (pre ++ .char '\\' :: Written.newLine n)
    rw [List.append_assoc, List.cons_append] at hi
    rw [List.cons_append, List.append_assoc]
    refine hi.inWord (u := [])
      (by simp only [List.length_cons, List.length_append]; omega) fun fuel hf => ?_
    rw [quotedWord_continued hn (hb.append h.ne_nil r) (by omega)]
    cases quotedWord true fuel _ <;> rfl
  | @spaces double n w t hn hb h ih =>
    obtain ⟨k, rfl⟩ : ∃ k, n = k + 1 := ⟨n - 1, by omega⟩
    have hs := quotedSpaces_spaces pre (k + 1) (hb.append h.ne_nil r) (by simp [h.ne_nil])
    have hi := ih (pre ++ Written.spaces (k + 1))
    rw [List.append_assoc] at hi
    rw [List.append_assoc]
    exact hi.behindGap (by simp [Written.spaces]) (by decide) fun fuel _ => hs fuel
  | @breaks double b bs w t n hb hn hw h ih =>
    have hi := ih (pre ++ (b :: bs ++ Written.spaces n))
    have hx : isTabOrSpace b || isBreak b := by simp [(hb b (by simp)).2.1]
    rw [List.append_assoc] at hi
    rw [List.append_assoc _ w r]
    refine hi.behindGap (by simp; omega) hx fun fuel hf => ?_
    simp only [List.cons_append, List.length_cons, List.length_append] at hf
    exact quotedSpaces_breaks pre hb hn (hw.append h.ne_nil r) (by omega)

theorem quotedScalar_behind (h : Spells double w t) (pre : Text) {r : Text}
    (hr : ∀ c ∈ r.head?, c ≠ .char '\'') :
    quotedScalar double (.behind pre (quoteMark double :: w ++ r)) =
      .ok (t, .behind (pre ++ quoteMark double :: w) r) := by
  have ho : isOrdinary (quoteMark double) := by cases double <;> decide
  obtain ⟨word, tail, c, rfl, hw, ht⟩ := h.readsUpTo (pre ++ [quoteMark double]) r hr
  have hl : w.length ≤ (Cursor.behind pre (quoteMark double :: (w ++ r))).left := by
    simp
    omega
  rw [quotedScalar, quotedRest_succ, List.cons_append, Cursor.next_behind ho, hw _ hl]
  simp only [Except.bind, ht _ hl, Except.map, List.append_assoc, List.cons_append, List.nil_append]

theorem Spells.isOrdinary (h : Spells double w t) : ∀ c ∈ w, Yaml.isOrdinary c := by
  induction h with
  | close double =>
    cases double <;> decide
  | plain ho hg hq he h ih => simpa [ho] using ih
  | doubled h ih => simpa [show Yaml.isOrdinary (.char '\'') from by decide] using ih
  | escape he h ih => simpa [or_imp, forall_and] using ⟨he.isOrdinary, ih⟩
  | @continued n w t hn hw h ih =>
    have hb : Yaml.isOrdinary (.char '\\') := by decide
    simpa [or_imp, forall_and, hb] using ⟨isOrdinary_newLine n, ih⟩
  | @spaces double n w t hn hw h ih =>
    simpa only [List.mem_append, or_imp, forall_and] using ⟨isOrdinary_spaces n, ih⟩
  | @breaks double b bs w t n hb hn hw h ih =>
    simp only [List.mem_append, or_imp, forall_and]
    exact ⟨⟨fun c hc => (hb c hc).1, isOrdinary_spaces n⟩, ih⟩

end Reading

end RouteAtlas.Yaml
