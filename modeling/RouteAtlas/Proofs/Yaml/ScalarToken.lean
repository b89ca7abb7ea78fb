import RouteAtlas.Proofs.Yaml.Form
import RouteAtlas.Proofs.Yaml.Scan

/-!
# Scalars as tokens

Every scalar that is written is scanned as one token with its text, as a value up to the next line
and as a key up to its colon.
-/

namespace RouteAtlas.Yaml

section Plain

variable {n : Nat} {u t z pre : Text}

/-- A plain text and its spelling begin with the same word. -/
theorem PlainSpells.exists_first (h : PlainSpells n u t) : ∃ w u' t', u = w ++ u' ∧ t = w ++ t' ∧
    IsPlainWord w ∧ (∀ c ∈ u'.head?, (isTabOrSpace c || isBreak c) = true) ∧
      ScalarStyle.gapAhead t' = true := by
  cases h with
  | word hw => exact ⟨u, [], [], by simp, by simp, hw, by simp, rfl⟩
  | @spaces w u t k hw hn h =>
    obtain ⟨k, rfl⟩ : ∃ j, k = j + 1 := ⟨k - 1, by omega⟩
    refine ⟨w, _, _, rfl, rfl, hw, ?_, rfl⟩
    rintro c ⟨⟩
    decide
  | @line w u t k hw hn h =>
    refine ⟨w, _, _, rfl, rfl, hw, ?_, rfl⟩
    rintro c ⟨⟩
    decide

/-- What the unmarked text says about its first word. -/
theorem IsPlainText.first {x : CodePoint} {w t' : Text} (ht : IsPlainText (x :: w ++ t'))
    (hg : ScalarStyle.gapAhead t' = true) : ScalarStyle.leadingMarks.contains x = false ∧
      ((x = '?' ∨ x = ':' ∨ x = '-') → w ≠ []) ∧
        Text.startsWith (x :: w ++ t') "---" = false ∧
        Text.startsWith (x :: w ++ t') "..." = false := by
  have h := ht.unmarked
  simp only [List.cons_append, ScalarStyle.hasMarks, Bool.or_eq_false_iff] at h
  obtain ⟨⟨⟨⟨h1, h2⟩, h3⟩, h4⟩, -⟩ := h
  refine ⟨h3, ?_, h1, h2⟩
  rintro hx rfl
  rcases hx with rfl | rfl | rfl <;> simp [hg] at h4

/-- Three equal marks at the beginning of a text all stand in its first word. -/
theorem startsWith_of_take {d : CodePoint} (hd : (isTabOrSpace d || isBreak d) = false)
    (hc : d ≠ ':') {w z t : Text} (hw : w ≠ []) (hz : EndsWord z)
    (h : (w ++ z).take 3 = [d, d, d]) :
    Text.startsWith (w ++ t) [d, d, d] = true := by
  have hz' : ∀ c ∈ z.head?, c ≠ d := by
    rintro c hcz rfl
    rcases hz with hz | ⟨s, rfl, -⟩
    · simp [hz c hcz] at hd
    · exact hc (Option.some.inj hcz).symm
  match w, hw with
  | [x], _ =>
    cases z with
    | nil => simp at h
    | cons y z => simp_all
  | [x, y], _ =>
    cases z with
    | nil => simp at h
    | cons c z => simp_all
  | x :: y :: c :: w, _ =>
    simp only [List.cons_append, List.take_succ_cons, List.cons.injEq] at h
    simp [Text.startsWith, h]

/-- A plain text does not begin as what separates documents does. -/
theorem noSeparator_plain (ht : IsPlainText t) (h : PlainSpells n u t) (hz : EndsWord z) :
    NoSeparator (u ++ z) := by
  obtain ⟨w, u', t', rfl, rfl, hw, hu', hg⟩ := h.exists_first
  obtain ⟨x, w, rfl⟩ := List.exists_cons_of_ne_nil hw.ne_nil
  obtain ⟨-, -, h1, h2⟩ := ht.first hg
  have hends : EndsWord (u' ++ z) := by
    cases u' with
    | nil => exact hz
    | cons c u' => exact .inl hu'
  have htake (d : CodePoint) (hd : (isTabOrSpace d || isBreak d) = false) (hc : d ≠ ':')
      (hn : Text.startsWith (x :: w ++ t') [d, d, d] = false) :
      ((x :: w ++ (u' ++ z)).take 3 == [d, d, d]) = false := by
    refine beq_false_of_ne fun h => ?_
    rw [startsWith_of_take hd hc hw.ne_nil hends h] at hn
    cases hn
  intro pre
  rw [List.append_assoc, Cursor.atSeparator, Cursor.rest_behind,
    htake '-' (by decide) (by decide) h1, htake '.' (by decide) (by decide) h2]
  rfl

/-- What may begin a plain scalar: no mark that leads other tokens, and a mark of entries only if no
gap is behind it. -/
theorem mayStartPlain_of_first {x : CodePoint} (hx : (isTabOrSpace x || isBreak x) = false)
    (hl : ScalarStyle.leadingMarks.contains x = false) {gap : Bool}
    (hgap : x = '?' ∨ x = ':' ∨ x = '-' → gap = false) :
    Scan.mayStartPlain false gap x = true := by
  have hall : ∀ c ∈ Text.ofString "-?:,[]\x7b\x7d#&*!|>'\"%@\x60",
      c ∈ ScalarStyle.leadingMarks ∨ c = '?' ∨ c = ':' ∨ c = '-' := by decide
  by_cases hx' : x = '?' ∨ x = ':' ∨ x = '-'
  · have hn := hgap hx'
    rcases hx' with rfl | rfl | rfl <;> simp [Scan.mayStartPlain, hn]
  · have hc : x ∉ Text.ofString "-?:,[]\x7b\x7d#&*!|>'\"%@\x60" := by
      intro hm
      refine (hall x hm).elim (fun h => ?_) hx'
      rw [List.contains_iff_mem.2 h] at hl
      cases hl
    simp [Scan.mayStartPlain, hx, hc]

theorem take_plain {s : Scan} (hs : s.cursor = .behind pre (u ++ z)) (hf : s.flow = 0)
    (ht : IsPlainText t) (h : PlainSpells n u t) (hz : EndsWord z) : s.take = s.plain := by
  have hsep : s.cursor.atSeparator = false := hs ▸ noSeparator_plain ht h hz pre
  obtain ⟨w, u', t', rfl, rfl, hw, -, hg⟩ := h.exists_first
  obtain ⟨x, w, rfl⟩ := List.exists_cons_of_ne_nil hw.ne_nil
  obtain ⟨hl, hm, -, -⟩ := ht.first hg
  have hgap (d : CodePoint) (hd : d = '?' ∨ d = ':' ∨ d = '-') :
      (x == d && s.cursor.gapAt 1) = false := by
    by_cases hx : x = d
    · obtain ⟨y, w, rfl⟩ := List.exists_cons_of_ne_nil (hm (hx ▸ hd))
      have hy := hw.unbroken y (by simp)
      simpa [hs, Cursor.gapAt, Cursor.endsAt] using fun _ => by simpa using hy
    · simp [hx]
  have hne (d : CodePoint) (hd : ScalarStyle.leadingMarks.contains d = true) :
      (x == d) = false := by
    refine beq_false_of_ne ?_
    rintro rfl
    rw [hl] at hd
    cases hd
  have hrest : s.cursor.rest = x :: (w ++ u' ++ z) := by rw [hs]; rfl
  have hstart : Scan.mayStartPlain false (s.cursor.gapAt 1) x = true :=
    mayStartPlain_of_first (hw.unbroken x (by simp)) hl fun hx => by simpa using hgap x hx
  rw [Scan.take, hrest]
  dsimp only
  simp only [Scan.token, hf, hsep, hstart, hgap '-' (by decide), hgap '?' (by decide),
    hgap ':' (by decide), hne '%' (by decide), hne '[' (by decide), hne '\x7b' (by decide),
    hne ']' (by decide), hne '\x7d' (by decide), hne ',' (by decide), hne '*' (by decide),
    hne '&' (by decide), hne '!' (by decide), hne '|' (by decide), hne '>' (by decide),
    hne '\'' (by decide), hne '"' (by decide), Bool.and_false, Bool.false_and, bne_self_eq_false,
    Bool.false_or, Bool.false_eq_true, if_false, if_true]

end Plain

/-- How a scalar is spelled that is scanned as a token; lines of it are indented at least to `n`. -/
inductive ScalarSpells (n : Nat) : Text → Token → Prop
  | plain {u t : Text} (ht : IsPlainText t) (h : PlainSpells n u t) :
      ScalarSpells n u (.scalar true t)
  | quoted {double : Bool} {w t : Text} (h : Spells double w t) :
      ScalarSpells n (quoteMark double :: w) (.scalar false t)

section Scalars

open Scan

variable {n : Nat} {u : Text} {token : Token} {pre r z : Text} {ts : List Token} {i : Int}
  {is : List Int} {allowed : Bool} {ks : List (Nat × KeyPlace)}

theorem ScalarSpells.beginsToken (h : ScalarSpells n u token) (r : Text) :
    BeginsToken (u ++ r) := by
  cases h with
  | plain ht h =>
    obtain ⟨w, v, rfl, hw⟩ := h.exists_word
    obtain ⟨x, w, rfl⟩ := List.exists_cons_of_ne_nil hw.ne_nil
    have hx := hw.unbroken x (by simp)
    have hc : x ≠ '#' := by simpa using hw.noComment
    simp only [Bool.or_eq_false_iff] at hx
    have hs : x ≠ ' ' := by
      rintro rfl
      exact absurd hx.1 (by decide)
    exact beginsToken_cons (hw.ordinary x (by simp)) hs hc hx.2 _
  | @quoted double w t h =>
    cases double <;> exact beginsToken_cons (by decide) (by decide) (by decide) (by decide) _

theorem ScalarSpells.ne_nil (h : ScalarSpells n u token) : u ≠ [] := by
  cases h with
  | plain ht h =>
    obtain ⟨w, v, rfl, hw⟩ := h.exists_word
    simp [hw.ne_nil]
  | quoted h => simp

theorem ScalarSpells.noSeparator (h : ScalarSpells n u token) (hz : EndsWord z) :
    NoSeparator (u ++ z) := by
  cases h with
  | plain ht h => exact noSeparator_plain ht h hz
  | @quoted double w t h =>
    intro pre
    cases double <;> exact Cursor.atSeparator_behind_cons (by decide) (by decide)

theorem take_quoted {s : Scan} (double : Bool) (hs : s.cursor = .behind pre (quoteMark double :: z))
    (hf : s.flow = 0) : s.take =
      s.keyable fun c => (quotedScalar double c).map fun p => (.scalar false p.1, p.2) := by
  have hrest : s.cursor.rest = quoteMark double :: z := by rw [hs]; rfl
  rw [Scan.take, hrest]
  cases double <;> simp [Scan.token, quoteMark, hf]

theorem leads_scalar (h : ScalarSpells n u token) (hn : i < n) (hk : Slack pre ks)
    (hi : i < columnOf pre) {m : Nat} (hm : m ≤ i) (hr : BeginsToken r)
    (hs : NoSeparator (Written.spaces m ++ r)) {s : Scan}
    (ha : s.arrive = .ok (behind pre (u ++ (Written.newLine m ++ r)) ts i is allowed ks)) :
    Leads s (behind (pre ++ u) (Written.newLine m ++ r) (token :: ts) i is false []) := by
  have hne : i ≠ columnOf pre := by omega
  obtain ⟨ks', hk', hsave⟩ : ∃ ks', Slack pre ks' ∧
      (behind pre (u ++ (Written.newLine m ++ r)) ts i is allowed ks).saveKey =
        .ok (behind pre (u ++ (Written.newLine m ++ r)) ts i is allowed ks') := saveKey_slack hk hne
  have hlen : (Written.newLine m ++ r).length < (u ++ (Written.newLine m ++ r)).length := by
    obtain ⟨c, hc⟩ := List.exists_mem_of_ne_nil u h.ne_nil
    have := List.length_pos_of_mem hc
    simp only [List.length_append]
    omega
  cases h with
  | @plain u t ht h =>
    have he := plainEnds_newLine hr.beginsWord hs (show (m : Int) < i + 1 by omega)
    have hp := h.plainScalar_behind (by omega) (show i + 1 ≤ n by omega) he
      (show i + 1 ≤ columnOf pre + 1 by omega)
    have htake : (behind pre (u ++ (Written.newLine m ++ r)) ts i is allowed ks).take =
        .ok (behind (pre ++ u ++ Written.newLine m) r (.scalar true t :: ts) i is true ks') := by
      rw [take_plain rfl rfl ht h he.1, Scan.plain, hsave]
      simp only [bind, Except.bind, pure, Except.pure, behind, bne_self_eq_false, hp]
      rfl
    refine (Leads.next ha htake (by simp [behind]) ?_).trans (.of_arrive_eq ?_)
    · rw [List.length_append] at hlen
      exact Nat.lt_of_le_of_lt (Nat.le_add_left _ _) hlen
    · rw [arrive_behind_newLine hr (hk'.append u), arrive_newLine hr (slack_nil _)]
  | @quoted double w t h =>
    have hnq : ∀ c ∈ (Written.newLine m ++ r).head?, c ≠ .char '\'' := by
      rintro c ⟨⟩
      decide
    have hq := quotedScalar_behind h pre hnq
    have htake : (behind pre (quoteMark double :: w ++ (Written.newLine m ++ r)) ts i is allowed
        ks).take = .ok (behind (pre ++ quoteMark double :: w) (Written.newLine m ++ r)
          (.scalar false t :: ts) i is false ks') := by
      rw [take_quoted double rfl rfl, Scan.keyable, hsave]
      simp only [bind, Except.bind, pure, Except.pure, behind, hq, Except.map]
      rfl
    refine (Leads.next ha htake (by simp [behind]) hlen).trans (.of_arrive_eq ?_)
    rw [arrive_newLine hr (hk'.append _), arrive_newLine hr (slack_nil _)]

end Scalars

end RouteAtlas.Yaml
