import RouteAtlas.Proofs.Json.Data
import RouteAtlas.Proofs.Yaml.Mark

/-!
# Written scalars

A text is kept between single quotes if no next-line character is in it, and between double quotes
if no line is folded between an escape and a space.
-/

namespace RouteAtlas.Yaml

/-- A text that comes back from lines that are indented to a column. -/
structure KeepsText (indent : Nat) (t : Text) : Prop where
  whole : t.isWhole
  single : ScalarStyle.ofText t = .single → .char '\u0085' ∉ t
  double : ScalarStyle.ofText t = .double → indent < Written.width ∨
    ScalarStyle.adjacent Written.isEscaped ScalarStyle.isSpace t = false

instance (indent : Nat) (t : Text) : Decidable (KeepsText indent t) :=
  decidable_of_iff (t.isWhole ∧ (ScalarStyle.ofText t = .single → .char '\u0085' ∉ t) ∧
    (ScalarStyle.ofText t = .double → indent < Written.width ∨
      ScalarStyle.adjacent Written.isEscaped ScalarStyle.isSpace t = false))
    ⟨fun h => ⟨h.1, h.2.1, h.2.2⟩, fun h => ⟨h.whole, h.single, h.double⟩⟩

theorem KeepsText.mono {m n : Nat} {t : Text} (h : KeepsText n t) (hm : m ≤ n) : KeepsText m t :=
  ⟨h.whole, h.single, fun hs => (h.double hs).imp_left (Nat.lt_of_le_of_lt hm)⟩

namespace ScalarStyle

variable {t : Text}

theorem ofForm_nil : Tag.ofForm [] = .null := by decide +kernel

/-- Without double quotes characters are ordinary and no space stands beside a break. -/
theorem of_ne_double (h : ofText t ≠ .double) : adjacent isSpace isScalarBreak t = false ∧
    (∀ c ∈ t, isOrdinary c) ∧ adjacent isScalarBreak isSpace t = false := by
  unfold ofText at h
  split at h
  · exact absurd rfl h
  · rename_i hn
    simpa [and_assoc] using hn

theorem isPlainText_of_plain (h : ofText t = .plain) : IsPlainText t ∧ Tag.ofForm t = .str := by
  obtain ⟨-, ho, -⟩ := of_ne_double (t := t) (by rw [h]; simp)
  unfold ofText at h
  split at h
  · cases h
  split at h
  · cases h
  rename_i hn
  simp only [Bool.or_eq_true, not_or, Bool.not_eq_true, bne_eq_false_iff_eq] at hn
  obtain ⟨⟨⟨⟨hh, hl⟩, hb⟩, hm⟩, hf⟩ := hn
  refine ⟨⟨?_, ho, by simpa using hb, ?_, ?_, hm⟩, hf⟩
  · rintro rfl
    rw [ofForm_nil] at hf
    cases hf
  · intro hs
    rw [hs] at hh
    exact absurd hh (by decide)
  · intro hs
    rw [hs] at hl
    exact absurd hl (by decide)

end ScalarStyle

namespace Written

open Stretch

variable {t : Text} {fold : Bool} {indent : Nat}

/-- A text in its style spells itself; one that is not folded has no breaks. -/
theorem scalarSpells_ofText {n : Nat} (hi : fold = true → 0 < indent ∧ n ≤ indent)
    (hb : fold = false → ∀ c ∈ t, isScalarBreak c = false) (h : KeepsText indent t)
    (column : Nat) :
    ScalarSpells n (ofText fold indent column t) (.scalar (isPlain (.str t)) t) := by
  have hind : 0 < indent ∨ fold = false ∧ ∀ c ∈ t, isScalarBreak c = false := by
    cases fold with
    | false => exact .inr ⟨rfl, hb rfl⟩
    | true => exact .inl (hi rfl).1
  rw [ofText, isPlain]
  cases hs : ScalarStyle.ofText t with
  | plain =>
    have ht := (ScalarStyle.isPlainText_of_plain hs).1
    exact .plain ht (plainSpells_ofText ht (fun hf => (hi hf).2) column)
  | single =>
    obtain ⟨hsp, ho, hbs⟩ := ScalarStyle.of_ne_double (t := t) (by rw [hs]; simp)
    have hn := h.single hs
    have hspells : Spells false (single fold indent (column + 1) true (Stretch.ofText t))
        (joined (Stretch.ofText t)) :=
      spells_single (column + 1) true (alternate_ofText hsp hbs)
        (by simpa using fun c hc => ⟨ho c hc, fun he => hn (he ▸ hc)⟩) (by simpa using hind)
    rw [joined_ofText] at hspells
    exact .quoted hspells
  | double =>
    have hw : ∀ c ∈ t, c.isLone = false := by simpa [Text.isWhole] using h.whole
    exact .quoted (spells_double hw (fun hf => (hi hf).1) fun hf => h.double hs)

section InLine

/-- Without folding and breaks a text is written in the same way from every column. -/
theorem plain_inLine (indent column : Nat) (ss : List Stretch) :
    plain false indent column ss = joined ss := by
  induction ss generalizing column with
  | nil => rfl
  | cons s ss ih => cases s <;> simp [plain, ih, text, spaces]

theorem doubledQuotes_append (u v : Text) :
    doubledQuotes (u ++ v) = doubledQuotes u ++ doubledQuotes v := List.flatMap_append

theorem doubledQuotes_spaces (n : Nat) : doubledQuotes (spaces n) = spaces n := by
  induction n with
  | zero => rfl
  | succ n ih =>
    have := congrArg (CodePoint.char ' ' :: ·) ih
    simpa [doubledQuotes, spaces, List.replicate_succ] using this

theorem single_inLine (indent column : Nat) (isFirst : Bool) {ss : List Stretch}
    (ha : Alternate ss) (hb : ∀ c ∈ joined ss, isScalarBreak c = false) :
    single false indent column isFirst ss = doubledQuotes (joined ss) ++ "'" := by
  induction ss generalizing column isFirst with
  | nil => rfl
  | cons s ss ih =>
    have ih (column : Nat) (isFirst : Bool) :=
      ih column isFirst ha.2.2 fun c hc => hb c (by simp [hc])
    cases s with
    | spaces n =>
      have hs : doubledQuotes (List.replicate n (.char ' ')) = spaces n := doubledQuotes_spaces n
      simp [single, ih, doubledQuotes_append, text, hs]
    | word w => simp [single, ih, doubledQuotes_append, text]
    | breaks t =>
      obtain ⟨x, t, rfl⟩ := List.exists_cons_of_ne_nil ha.1.1
      exact absurd (ha.1.2 x (by simp)) (by simp [hb x (by simp [text])])

theorem double_inLine (indent column : Nat) (isFirst fresh : Bool) (t : Text) :
    double false indent column isFirst fresh t =
      t.flatMap (fun c => (escape? c).getD [c]) ++ "\"" := by
  induction t generalizing column isFirst fresh with
  | nil => rfl
  | cons c t ih =>
    rw [double]
    cases he : escape? c <;> simp [he, ih]

def inLine (t : Text) : Text :=
  match ScalarStyle.ofText t with
  | .plain => t
  | .single => "'" ++ (doubledQuotes t ++ "'")
  | .double => "\"" ++ (t.flatMap (fun c => (escape? c).getD [c]) ++ "\"")

theorem ofText_inLine (hb : ∀ c ∈ t, isScalarBreak c = false) (indent column : Nat) :
    ofText false indent column t = inLine t := by
  rw [ofText, inLine]
  cases hs : ScalarStyle.ofText t with
  | plain => simpa using plain_inLine indent column (Stretch.ofText t)
  | single =>
    obtain ⟨hsp, -, hbs⟩ := ScalarStyle.of_ne_double (t := t) (by rw [hs]; simp)
    have := single_inLine indent (column + 1) true (alternate_ofText hsp hbs) (by simpa using hb)
    simpa using this
  | double => simpa using double_inLine indent (column + 1) true false t

theorem isBreak_inLine (hw : t.isWhole) (hb : ∀ c ∈ t, isScalarBreak c = false) :
    ∀ c ∈ inLine t, isBreak c = false := by
  have hq : isBreak (.char '\'') = false ∧ isBreak (.char '"') = false := by decide
  have hne (h : ScalarStyle.ofText t ≠ .double) : ∀ c ∈ t, isBreak c = false := fun c hc =>
    (isBreak_eq_isScalarBreak ((ScalarStyle.of_ne_double h).2.1 c hc)).trans (hb c hc)
  rw [inLine]
  cases hs : ScalarStyle.ofText t with
  | plain => exact hne (by simp [hs])
  | single =>
    have hd : ∀ c ∈ doubledQuotes t, isBreak c = false := by
      intro c hc
      obtain ⟨x, hx, hc⟩ := List.mem_flatMap.1 hc
      have hx := hne (by simp [hs]) x hx
      split at hc
      · simp_all
      · simp_all
    simpa [Text.ofString, or_imp, forall_and, hq] using hd
  | double =>
    have hd : ∀ c ∈ t.flatMap (fun c => (escape? c).getD [c]), isBreak c = false := by
      intro c hc
      obtain ⟨x, hx, hc⟩ := List.mem_flatMap.1 hc
      cases he : escape? x with
      | some e =>
        have hl : x.isLone = false := by
          have : ∀ c ∈ t, c.isLone = false := by simpa [Text.isWhole] using hw
          exact this x hx
        exact (escapes_of_written hl he).isBreak c (by simpa [he] using hc)
      | none =>
        obtain rfl : c = x := by simpa [he] using hc
        exact (unescaped he).2.1
    simpa [Text.ofString, or_imp, forall_and, hq] using hd

end InLine

end Written

section Forms

variable {w : Text}

theorem IsPlainWord.of_isLabel (hw : ∀ c ∈ w, isLabel c) (hne : w ≠ []) : IsPlainWord w := by
  have hd (d : CodePoint) (hd : isLabel d = false) : d ∉ w := fun h => by simp [hw d h] at hd
  exact ⟨hne, fun c hc => isOrdinary_of_isLabel (hw c hc), fun c hc => isGap_of_isLabel (hw c hc),
    fun h => hd _ (by decide) (List.mem_of_mem_head? h),
    fun h => hd _ (by decide) (List.mem_of_getLast? h)⟩

theorem isGapMark_of_isLabel {c : CodePoint} (h : isLabel c) : isGapMark c = false := by
  have h0 : c.toNat ≠ 0 := by
    intro h0
    rw [← CodePoint.ofNat_toNat c, h0] at h
    exact absurd h (by decide)
  have := isGap_of_isLabel h
  simp only [Bool.or_eq_false_iff] at this
  simp [isGapMark, this, h0]

theorem innerMark_of_isLabel {b : Bool} (hw : ∀ c ∈ w, isLabel c) (hb : b = false) :
    ScalarStyle.innerMark b w = false := by
  induction w generalizing b with
  | nil => rfl
  | cons c w ih =>
    have hc : c ≠ ':' := by
      rintro rfl
      exact absurd (hw (.char ':') (by simp)) (by decide)
    simp [ScalarStyle.innerMark, hb, hc, ih (fun d hd => hw d (by simp [hd]))
      (isGapMark_of_isLabel (hw c (by simp)))]

theorem hasMarks_of_isLabel (hw : ∀ c ∈ w, isLabel c) (hs : w.startsWith "---" = false)
    (hn : w ≠ [.char '-']) : ScalarStyle.hasMarks w = false := by
  cases w with
  | nil => rfl
  | cons c r =>
    have hd (d : CodePoint) (hd : isLabel d = false) : c ≠ d := by
      rintro rfl
      simp [hw c (by simp)] at hd
    have hr : ∀ d ∈ r, isLabel d := fun d hd => hw d (by simp [hd])
    have hlead : ScalarStyle.leadingMarks.contains c = false := by
      have hall : ∀ d ∈ ScalarStyle.leadingMarks, isLabel d = false := by decide
      cases hc : ScalarStyle.leadingMarks.contains c with
      | false => rfl
      | true =>
        have := hall c (List.contains_iff_mem.1 hc)
        simp [hw c (by simp)] at this
    have hgap : (c == .char '-' && ScalarStyle.gapAhead r) = false := by
      cases r with
      | nil => simpa [ScalarStyle.gapAhead] using hn
      | cons d r => simp [ScalarStyle.gapAhead, isGapMark_of_isLabel (hr d (by simp))]
    have hdots : Text.startsWith (c :: r) "..." = false := by
      have : c ≠ '.' := hd _ (by decide)
      simp [Text.startsWith, Text.ofString, List.isPrefixOf, this.symm]
    have hquestion : c ≠ '?' := hd _ (by decide)
    have hcolon : c ≠ ':' := hd _ (by decide)
    have hinner := innerMark_of_isLabel hr (isGapMark_of_isLabel (hw c (by simp)))
    simp only [ScalarStyle.hasMarks, hs, hdots, hlead, hinner, beq_false_of_ne hquestion,
      beq_false_of_ne hcolon, Bool.false_or, Bool.or_false, hgap]

theorem IsPlainText.of_isLabel (hw : ∀ c ∈ w, isLabel c) (hne : w ≠ [])
    (hs : w.startsWith "---" = false) (hn : w ≠ [.char '-']) : IsPlainText w := by
  have h := IsPlainWord.of_isLabel hw hne
  have hd (d : CodePoint) (hd : isLabel d = false) : d ∉ w := fun h => by simp [hw d h] at hd
  refine ⟨hne, h.ordinary, fun c hc => ?_, fun h => hd _ (by decide) (List.mem_of_mem_head? h),
    fun h => hd _ (by decide) (List.mem_of_getLast? h), hasMarks_of_isLabel hw hs hn⟩
  rw [← isBreak_eq_isScalarBreak (h.ordinary c hc)]
  exact (Bool.or_eq_false_iff.1 (h.unbroken c hc)).2

theorem isLabel_of_isDigit {c : Char} (h : c.isDigit) : isLabel (.char c) := by
  simp [isLabel, CodePoint.isAsciiDigit_char, h]

theorem isLabel_ofInt (n : Int) : ∀ c ∈ Text.ofInt n, isLabel c := by
  obtain ⟨sign, ds, ht, hs, -, hd, -⟩ := exists_ofInt_digits n
  have hmem : ∀ c ∈ sign ++ ds, isLabel (.char c) := by
    rcases hs with rfl | rfl
    · simpa using fun c hc => isLabel_of_isDigit (hd c hc)
    · simpa using ⟨by decide, fun c hc => isLabel_of_isDigit (hd c hc)⟩
  rw [ht]
  exact List.forall_mem_map.2 hmem

theorem isPlainText_ofInt (n : Int) : IsPlainText (Text.ofInt n) := by
  obtain ⟨sign, ds, ht, hs, hne, hd, -⟩ := exists_ofInt_digits n
  obtain ⟨c, r, rfl⟩ := List.exists_cons_of_ne_nil hne
  have hc : c ≠ '-' := Integer.ne_of_isDigit (hd c (by simp)) (by decide)
  refine .of_isLabel (isLabel_ofInt n) ?_ ?_ ?_ <;> rw [ht] <;> rcases hs with rfl | rfl <;>
    simp [Text.startsWith, Text.ofString, List.isPrefixOf, hc, hc.symm]

def KeepsScalar (indent : Nat) : Json → Prop
  | .null => True
  | .bool _ => True
  | .int _ => True
  | .str t => KeepsText indent t
  | _ => False

theorem KeepsScalar.mono {m n : Nat} {v : Json} (h : KeepsScalar n v) (hm : m ≤ n) :
    KeepsScalar m v := by
  cases v with
  | str t => exact KeepsText.mono h hm
  | _ => exact h

theorem scalarSpells_of_word {n : Nat} (hw : ∀ c ∈ w, isLabel c) (h : IsPlainText w) :
    ScalarSpells n w (.scalar true w) := .plain h (.word (.of_isLabel hw h.ne_nil))

theorem scalarSpells_scalarText {indent n : Nat} (hi : 0 < indent) (hn : n ≤ indent) {v : Json}
    (h : KeepsScalar indent v) (column : Nat) :
    ScalarSpells n (scalarText indent column v) (.scalar (isPlain v) (form v)) := by
  have hlit (s : Text) (hs : ∀ c ∈ s, isLabel c) (hne : s ≠ [])
      (hm : s.startsWith "---" = false ∧ s ≠ [.char '-']) : ScalarSpells n s (.scalar true s) :=
    scalarSpells_of_word hs (.of_isLabel hs hne hm.1 hm.2)
  cases v with
  | null => exact hlit "null" (by decide) (by decide) (by decide)
  | bool b =>
    cases b
    · exact hlit "false" (by decide) (by decide) (by decide)
    · exact hlit "true" (by decide) (by decide) (by decide)
  | int n => exact scalarSpells_of_word (isLabel_ofInt n) (isPlainText_ofInt n)
  | str t => exact Written.scalarSpells_ofText (fun _ => ⟨hi, hn⟩) (fun h => by cases h) h column
  | _ => exact h.elim

end Forms

end RouteAtlas.Yaml
