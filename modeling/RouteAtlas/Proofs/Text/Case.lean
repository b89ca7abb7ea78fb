import Mathlib.Data.List.Forall2
import Mathlib.Tactic.Common
import RouteAtlas.Proofs.Text.Order
import RouteAtlas.Proofs.Text.Search
import RouteAtlas.Proofs.Text.Word
import RouteAtlas.Text.Case
import RouteAtlas.Text.Search

/-!
# ASCII text without regard to case

In ASCII, texts with the same lower case agree character by character. Which characters of other
scripts become an ASCII letter is read off the table.
-/

namespace RouteAtlas

namespace CaseRun

def sources (m : Nat) (rs : List CaseRun) : List Nat :=
  (rs.map fun r => ((m : Int) - r.shift).toNat).filter fun n => move? n rs = some m

theorem exists_of_move? {m n : Nat} {rs : List CaseRun} (h : move? n rs = some m) :
    ∃ r ∈ rs, r.holds n ∧ ((n : Int) + r.shift).toNat = m := by
  induction rs with
  | nil => cases h
  | cons r rs ih =>
    rw [move?] at h
    split at h
    · cases h
    · split at h
      · rename_i hr
        exact ⟨r, by simp, hr, Option.some.inj h⟩
      · obtain ⟨q, hq, hn⟩ := ih h
        exact ⟨q, by simp [hq], hn⟩

theorem mem_sources {m n : Nat} {rs : List CaseRun} (hm : m ≠ 0) (h : move? n rs = some m) :
    n ∈ sources m rs := by
  obtain ⟨r, hr, -, he⟩ := exists_of_move? h
  exact List.mem_filter.2 ⟨List.mem_map.2 ⟨r, hr, by omega⟩, by simpa using h⟩

def avoids (ranges : List (Nat × Nat)) (r : CaseRun) : Bool :=
  ranges.all fun q => (q.2 : Int) < r.first + r.shift || (r.last : Int) + r.shift < q.1

theorem not_within_of_avoids {m n : Nat} {rs : List CaseRun} {ranges : List (Nat × Nat)}
    (hr : rs.all (avoids ranges)) (hm : m ≠ 0) (h : move? n rs = some m) :
    within m ranges = false := by
  by_contra hw
  obtain ⟨r, hrs, hn, he⟩ := exists_of_move? h
  obtain ⟨q, hq, ha, hb⟩ := exists_mem_of_within (by simpa using hw)
  have hd := List.all_eq_true.1 (List.all_eq_true.1 hr r hrs) q hq
  simp only [holds, Bool.and_eq_true, decide_eq_true_eq] at hn
  simp only [Bool.or_eq_true, decide_eq_true_eq] at hd
  omega

end CaseRun

namespace CodePoint

variable {c d : CodePoint}

@[simp] theorem ofNat_toNat (c : CodePoint) : ofNat c.toNat = c := by
  cases c with
  | char c =>
    have hv : c.toNat.isValidChar := c.valid
    simp [ofNat, hv]
  | lone n =>
    have hn := toNat_lone n
    have hv : ¬ (toNat (.lone n)).isValidChar := by
      rintro (h | h) <;> omega
    rw [ofNat, if_neg hv, dif_pos hn]
    simp [toNat]

def isAscii (c : CodePoint) : Bool := c.toNat < 128

theorem of_isAscii {p : CodePoint → Prop} (h : ∀ n < 128, p (ofNat n)) (hc : c.isAscii) : p c := by
  rw [← ofNat_toNat c]
  exact h _ (by simpa [isAscii] using hc)

theorem lower_of_isAscii (hc : c.isAscii) : c.lower = [c.mapped CaseTable.lower] :=
  of_isAscii (p := fun c => c.lower = [c.mapped CaseTable.lower]) (by decide) hc

theorem caseKey_of_isAscii (hc : c.isAscii) : c.caseKey = (c.mapped CaseTable.lower).toNat :=
  of_isAscii (p := fun c => c.caseKey = (c.mapped CaseTable.lower).toNat) (by decide) hc

theorem isName_of_isAscii (hc : c.isAscii) : c.isName = (ofNat c.caseKey).isName :=
  of_isAscii (p := fun c => c.isName = (ofNat c.caseKey).isName) (by decide) hc

theorem caseKey_of_isBlank (hc : c.isBlank) : c.caseKey = c.toNat := by
  have h : ((ofNat c.toNat).caseKey == c.toNat) = true :=
    of_within (p := fun n => (ofNat n).caseKey == n) (by decide +kernel) hc
  simpa using h

theorem lower_of_isBlank (hc : c.isBlank) : c.lower = [c] := by
  have h : (decide ((ofNat c.toNat).lower = [ofNat c.toNat])) = true :=
    of_within (p := fun n => decide ((ofNat n).lower = [ofNat n])) (by decide +kernel) hc
  simpa using h

theorem agrees_iff : c.agrees d ↔ c.caseKey = d.caseKey := by
  simp [agrees]

theorem agrees_refl (c : CodePoint) : c.agrees c := by
  simp [agrees]

theorem agrees_iff_of_isAscii (hc : c.isAscii) (hd : d.isAscii) :
    c.agrees d ↔ c.mapped CaseTable.lower = d.mapped CaseTable.lower := by
  rw [agrees_iff, caseKey_of_isAscii hc, caseKey_of_isAscii hd]
  exact ⟨eq_of_toNat_eq, congrArg toNat⟩

theorem isName_eq_of_agrees (hc : c.isAscii) (hd : d.isAscii) (h : c.agrees d) :
    c.isName = d.isName := by
  rw [isName_of_isAscii hc, isName_of_isAscii hd, agrees_iff.1 h]

theorem agrees_lower (c : CodePoint) (hd : d.isAscii) :
    c.agrees (d.mapped CaseTable.lower) = c.agrees d := by
  rw [agrees, of_isAscii (p := fun d => (d.mapped CaseTable.lower).caseKey = d.caseKey)
    (by decide) hd, agrees]

theorem isWord_lower (hc : c.isAscii) : (c.mapped CaseTable.lower).isWord = c.isWord :=
  of_isAscii (p := fun c => (c.mapped CaseTable.lower).isWord = c.isWord) (by decide) hc

theorem not_agrees_of_isBlank (hc : c.isAscii) (hn : c.isName) (hd : d.isBlank) : ¬ c.agrees d := by
  intro h
  rw [agrees_iff, caseKey_of_isBlank hd] at h
  rw [isName_of_isAscii hc, h, ofNat_toNat, isName_of_isBlank hd] at hn
  cases hn

theorem toNat_ofNat {n : Nat} (h : ofNat n ≠ .char '\uFFFD') : (ofNat n).toNat = n := by
  unfold ofNat at h ⊢
  split
  · rename_i hv
    rw [toNat_char, Char.ofNat, dif_pos hv]
    rfl
  · rename_i hv
    rw [if_neg hv] at h
    split at h
    · rename_i hl
      rw [dif_pos hl]
      simp only [toNat]
      omega
    · exact absurd rfl h

/-- A character that becomes an ASCII character is this character or one of its sources. -/
theorem eq_or_mem_sources {rs : List CaseRun} (hd : d.isAscii) (h0 : d.toNat ≠ 0)
    (h : c.mapped rs = d) : c = d ∨ c.toNat ∈ CaseRun.sources d.toNat rs := by
  unfold mapped at h
  split at h
  · rename_i n hn
    subst h
    have hu : ofNat n ≠ .char '\uFFFD' := ne_of_class hd (by decide)
    exact .inr (CaseRun.mem_sources h0 (hn.trans (by rw [toNat_ofNat hu])))
  · exact .inl h

theorem eq_of_mem_lower (hd : d.isAscii) (h0 : d.toNat ≠ 0) (hi : d ≠ .char 'i')
    (hs : CaseRun.sources d.toNat CaseTable.lower = []) (h : d ∈ c.lower) : c = d := by
  unfold lower at h
  split at h
  · rcases List.mem_cons.1 h with rfl | h
    · exact absurd rfl hi
    · obtain rfl := List.mem_singleton.1 h
      cases hd
  · have hm := eq_or_mem_sources hd h0 (List.mem_singleton.1 h).symm
    simpa [hs] using hm

/-- Runs that send nothing to white space make white space of nothing else. -/
theorem isBlank_mapped {rs : List CaseRun} (hr : rs.all (CaseRun.avoids blankRanges))
    (hc : c.isBlank = false) : (c.mapped rs).isBlank = false := by
  unfold mapped
  split
  · rename_i n hn
    by_contra hb
    have hb : (ofNat n).isBlank = true := by simpa using hb
    have hu : ofNat n ≠ .char '\uFFFD' := ne_of_class hb (by decide)
    rw [isBlank, toNat_ofNat hu] at hb
    have h0 : n ≠ 0 := by
      rintro rfl
      exact absurd hb (by decide)
    simp [CaseRun.not_within_of_avoids hr h0 hn] at hb
  · exact hc

theorem isBlank_of_mem_lower (hc : c.isBlank = false) : ∀ d ∈ c.lower, d.isBlank = false := by
  unfold lower
  split
  · decide
  · have hr : CaseTable.lower.all (CaseRun.avoids blankRanges) := by decide +kernel
    simpa using isBlank_mapped hr hc

theorem isBlank_of_mem_upper (hc : c.isBlank = false) : ∀ d ∈ c.upper, d.isBlank = false := by
  unfold upper
  split
  · rename_i ns hl
    obtain ⟨before, after, he, -⟩ := List.lookup_eq_some_iff.1 hl
    have hm : ∀ p ∈ CaseTable.upperLong, ∀ d ∈ p.2.map ofNat, d.isBlank = false := by
      decide +kernel
    exact hm (c.toNat, ns) (by simp [he])
  · have hr : CaseTable.upper.all (CaseRun.avoids blankRanges) := by decide +kernel
    simpa using isBlank_mapped hr hc

theorem upper_ne_nil (c : CodePoint) : c.upper ≠ [] := by
  unfold upper
  split
  · rename_i ns hl
    obtain ⟨before, after, he, -⟩ := List.lookup_eq_some_iff.1 hl
    have hm : ∀ p ∈ CaseTable.upperLong, p.2 ≠ [] := by decide +kernel
    simpa using hm (c.toNat, ns) (by simp [he])
  · simp

/-- Only the letter itself and its capital become a small letter that has no other source. -/
theorem eq_or_eq_of_mapped {small capital : Char} (hs : isAscii small) (h0 : small.toNat ≠ 0)
    (hc : ∀ n ∈ CaseRun.sources small.toNat CaseTable.lower, n = capital.toNat)
    (h : c.mapped CaseTable.lower = small) : c = small ∨ c = capital :=
  (eq_or_mem_sources hs h0 h).imp_right fun hm => eq_of_toNat_eq (hc _ hm)

theorem agrees_v_iff : c.agrees 'v' ↔ c = 'v' ∨ c = 'V' := by
  constructor
  · intro h
    have hk : c.caseKey = 0x76 := agrees_iff.1 h
    have hv : ∀ n, (CaseTable.variants.lookup n).getD n = 0x76 → n = 0x76 := by
      intro n hn
      cases hl : CaseTable.variants.lookup n with
      | none => simpa [hl] using hn
      | some m =>
        obtain ⟨before, after, he, -⟩ := List.lookup_eq_some_iff.1 hl
        have hm : ∀ p ∈ CaseTable.variants, p.2 ≠ 0x76 := by decide
        exact absurd (by simpa [hl] using hn) (hm (n, m) (by simp [he]))
    have hi : (if c.toNat = 0x130 then 0x69 else (c.mapped CaseTable.lower).toNat) = 0x76 := hv _ hk
    split at hi
    · cases hi
    · exact eq_or_eq_of_mapped (by decide) (by decide) (by decide +kernel) (eq_of_toNat_eq hi)
  · rintro (rfl | rfl) <;> decide

end CodePoint

namespace Text

variable {s t w r : Text}

def isAscii (t : Text) : Bool := t.all CodePoint.isAscii

/-- Lower case of a text goes on behind a part without a capital sigma. -/
theorem exists_lowerFrom_append (inWord : Bool) (hs : ∀ c ∈ s, c.toNat ≠ 0x3A3) (t : Text) :
    ∃ inWord', lowerFrom inWord (s ++ t) = s.flatMap CodePoint.lower ++ lowerFrom inWord' t := by
  induction s generalizing inWord with
  | nil => exact ⟨inWord, rfl⟩
  | cons c s ih =>
    obtain ⟨hc, hs⟩ := List.forall_mem_cons.1 hs
    obtain ⟨inWord', h⟩ := ih (if c.isIgnorable then inWord else c.isCased) hs
    exact ⟨inWord', by rw [List.cons_append, lowerFrom, if_neg hc, h]; simp⟩

theorem lower_eq_flatMap (hs : ∀ c ∈ t, c.toNat ≠ 0x3A3) :
    lower t = t.flatMap CodePoint.lower := by
  obtain ⟨inWord, h⟩ := exists_lowerFrom_append false hs []
  simpa [lower, lowerFrom] using h

theorem lower_of_isAscii (h : isAscii t) : lower t = t.map (·.mapped CaseTable.lower) := by
  have ha := List.all_eq_true.1 h
  have hs : ∀ c ∈ t, c.toNat ≠ 0x3A3 := by
    intro c hc he
    have hn := ha c hc
    simp [CodePoint.isAscii, he] at hn
  rw [lower_eq_flatMap hs, List.map_eq_flatMap]
  exact List.flatMap_congr fun c hc => CodePoint.lower_of_isAscii (ha c hc)

section Lower

variable {c : CodePoint}

theorem isAscii_cons : isAscii (c :: t) ↔ c.isAscii ∧ isAscii t := by
  simp [isAscii]

theorem lower_cons (h : isAscii (c :: t)) :
    lower (c :: t) = c.mapped CaseTable.lower :: lower t := by
  rw [lower_of_isAscii h, lower_of_isAscii (isAscii_cons.1 h).2, List.map_cons]

theorem afterAgreeing_lower (w : Text) (h : isAscii t) :
    afterAgreeing w (lower t) = (afterAgreeing w t).map lower := by
  induction w generalizing t with
  | nil => rfl
  | cons a w ih =>
    cases t with
    | nil => rfl
    | cons c t =>
      obtain ⟨hc, ht⟩ := isAscii_cons.1 h
      rw [lower_cons h, afterAgreeing, afterAgreeing, CodePoint.agrees_lower a hc, ih ht]
      split <;> rfl

theorem finds_lower {p : Text → Bool} (hp : ∀ s, isAscii s → p (lower s) = p s) (h : isAscii t) :
    finds p (lower t) = finds p t := by
  induction t with
  | nil => exact hp [] h
  | cons c t ih =>
    rw [finds, ← hp _ h, ← ih (isAscii_cons.1 h).2, lower_cons h, finds]

end Lower

theorem lowerFrom_eq_nil_iff {inWord : Bool} {t : Text} : lowerFrom inWord t = [] ↔ t = [] := by
  cases t with
  | nil => simp [lowerFrom]
  | cons c r =>
    rw [lowerFrom]
    split
    · simp
    · unfold CodePoint.lower
      split <;> simp

theorem upper_eq_nil_iff {t : Text} : upper t = [] ↔ t = [] := by
  cases t with
  | nil => simp [upper]
  | cons c r => simp [upper, c.upper_ne_nil]

theorem capitalized_ne_nil {t : Text} (h : t ≠ []) : capitalized t ≠ [] := by
  cases t with
  | nil => exact absurd rfl h
  | cons c r => simp [capitalized, c.upper_ne_nil]

theorem isBlank_of_mem_lowerFrom {inWord : Bool} {t : Text} (h : ∀ c ∈ t, c.isBlank = false) :
    ∀ d ∈ lowerFrom inWord t, d.isBlank = false := by
  induction t generalizing inWord with
  | nil => simp [lowerFrom]
  | cons c r ih =>
    have hr : ∀ d ∈ r, d.isBlank = false := fun d hd => h d (by simp [hd])
    intro d hd
    rw [lowerFrom] at hd
    split at hd
    · rcases List.mem_cons.1 hd with rfl | hd
      · split <;> decide
      · exact ih hr d hd
    · rcases List.mem_append.1 hd with hd | hd
      · exact CodePoint.isBlank_of_mem_lower (h c (by simp)) d hd
      · exact ih hr d hd

theorem isBlank_of_mem_capitalized {t : Text} (h : ∀ c ∈ t, c.isBlank = false) :
    ∀ d ∈ capitalized t, d.isBlank = false := by
  cases t with
  | nil => simp [capitalized]
  | cons c r =>
    intro d hd
    rcases List.mem_append.1 hd with hd | hd
    · exact CodePoint.isBlank_of_mem_upper (h c (by simp)) d hd
    · exact isBlank_of_mem_lowerFrom (fun e he => h e (by simp [he])) d hd

/-- Lower case of a text goes on behind a part that gives no mark which is the lower case of
nothing else. -/
theorem exists_lowerFrom_append_of_not_mem {mark : CodePoint}
    (hm : ∀ c : CodePoint, mark ∈ c.lower → c = mark) (ha : mark.isAscii) (inWord : Bool)
    (hs : mark ∉ s) (t : Text) :
    ∃ s' inWord', lowerFrom inWord (s ++ t) = s' ++ lowerFrom inWord' t ∧ mark ∉ s' := by
  induction s generalizing inWord with
  | nil => exact ⟨[], inWord, rfl, hs⟩
  | cons c s ih =>
    obtain ⟨hc, hs⟩ := not_or.1 (List.mem_cons.not.1 hs)
    obtain ⟨s', inWord', h, hn⟩ := ih (if c.isIgnorable then inWord else c.isCased) hs
    rw [List.cons_append, lowerFrom, h]
    split
    · refine ⟨_ :: s', inWord', rfl, List.mem_cons.not.2 (not_or.2 ⟨?_, hn⟩)⟩
      rintro rfl
      split at ha <;> cases ha
    · refine ⟨c.lower ++ s', inWord', by rw [List.append_assoc], ?_⟩
      exact List.mem_append.not.2 (not_or.2 ⟨fun h => hc (hm c h).symm, hn⟩)

theorem exists_lowerFrom_append_of_isBlank (inWord : Bool) (hs : isBlank s) (t : Text) :
    ∃ inWord', lowerFrom inWord (s ++ t) = s ++ lowerFrom inWord' t := by
  have hb := forall_of_isBlank hs
  have hσ : ∀ c ∈ s, c.toNat ≠ 0x3A3 := by
    intro c hc he
    have hn := hb c hc
    rw [CodePoint.isBlank, he] at hn
    cases hn
  obtain ⟨inWord', h⟩ := exists_lowerFrom_append inWord hσ t
  have hl : s.flatMap CodePoint.lower = s.flatMap fun c => [c] :=
    List.flatMap_congr fun c hc => CodePoint.lower_of_isBlank (hb c hc)
  exact ⟨inWord', by rw [h, hl, List.flatMap_singleton']⟩

theorem ne_sigma_of_isAscii_lowerFrom {inWord : Bool} (h : isAscii (lowerFrom inWord t)) :
    ∀ c ∈ t, c.toNat ≠ 0x3A3 := by
  induction t generalizing inWord with
  | nil => simp
  | cons c t ih =>
    rw [lowerFrom] at h
    split at h
    · have hm := (isAscii_cons.1 h).1
      split at hm <;> cases hm
    · rename_i hc
      rw [isAscii, List.all_append, Bool.and_eq_true] at h
      exact List.forall_mem_cons.2 ⟨hc, ih h.2⟩

/-- A plain character at the beginning of a lower case comes from the first character. -/
theorem exists_of_lowerFrom_eq_cons {inWord : Bool} {d : CodePoint}
    (h : lowerFrom inWord t = d :: r) (hd : d.isAscii) (hr : r.head? ≠ some (.char '\u0307')) :
    ∃ c s inWord', t = c :: s ∧ c.mapped CaseTable.lower = d ∧ lowerFrom inWord' s = r := by
  cases t with
  | nil => cases h
  | cons c s =>
    rw [lowerFrom] at h
    split at h
    · obtain ⟨rfl, -⟩ := List.cons.inj h
      split at hd <;> cases hd
    · unfold CodePoint.lower at h
      split at h
      · obtain ⟨-, rfl⟩ := List.cons.inj h
        exact absurd rfl hr
      · obtain ⟨hc, hs⟩ := List.cons.inj h
        exact ⟨c, s, _, rfl, hc, hs⟩

/-- Whether texts agree character by character when case is ignored. -/
def Agree (s t : Text) : Prop := List.Forall₂ (fun c d : CodePoint => c.agrees d) s t

theorem agree_refl (t : Text) : Agree t t :=
  List.forall₂_same.2 fun c _ => c.agrees_refl

theorem Agree.length_eq (h : Agree s t) : s.length = t.length := List.Forall₂.length_eq h

theorem Agree.symm (h : Agree s t) : Agree t s :=
  h.flip.imp fun _ _ ha => CodePoint.agrees_iff.2 (CodePoint.agrees_iff.1 ha).symm

theorem Agree.exists_of_mem {c : CodePoint} (h : Agree s t) (hc : c ∈ t) :
    ∃ d ∈ s, d.agrees c := by
  induction h with
  | nil => cases hc
  | @cons d e _ _ hd _ ih =>
    rcases List.mem_cons.1 hc with rfl | hc
    · exact ⟨d, by simp, hd⟩
    · obtain ⟨d', hd', ha⟩ := ih hc
      exact ⟨d', by simp [hd'], ha⟩

theorem agree_iff_lower_eq (hs : isAscii s) (ht : isAscii t) : Agree s t ↔ lower s = lower t := by
  rw [lower_of_isAscii hs, lower_of_isAscii ht, Agree]
  induction s generalizing t with
  | nil => cases t <;> simp
  | cons c s ih =>
    cases t with
    | nil => simp
    | cons d t =>
      simp only [isAscii, List.all_cons, Bool.and_eq_true] at hs ht
      rw [List.forall₂_cons, CodePoint.agrees_iff_of_isAscii hs.1 ht.1, ih hs.2 ht.2,
        List.map_cons, List.map_cons, List.cons_eq_cons]

theorem afterAgreeing_append (h : Agree w s) (t : Text) : afterAgreeing w (s ++ t) = some t := by
  induction h with
  | nil => rfl
  | cons hc _ ih => rw [List.cons_append, afterAgreeing, if_pos hc, ih]

theorem agree_of_afterAgreeing (h : afterAgreeing w t = some r) :
    ∃ s, t = s ++ r ∧ Agree w s := by
  induction w generalizing t with
  | nil => exact ⟨[], Option.some.inj h, .nil⟩
  | cons c w ih =>
    cases t with
    | nil => cases h
    | cons d t =>
      rw [afterAgreeing] at h
      split at h
      · rename_i hc
        obtain ⟨s, rfl, hs⟩ := ih h
        exact ⟨d :: s, rfl, .cons hc hs⟩
      · cases h

end Text

end RouteAtlas
