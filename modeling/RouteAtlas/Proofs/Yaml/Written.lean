import RouteAtlas.Proofs.Yaml.Quoted

/-!
# Spellings of written texts

What is written between quotes spells its text, if single quotes hold no next-line character and no
line is folded between an escape and a space in double ones.
-/

namespace RouteAtlas.Yaml

namespace Stretch

variable {t : Text} {ss : List Stretch} {c : CodePoint}

def isWord : Stretch → Bool
  | .word _ => true
  | _ => false

/-- A stretch has characters, all of its kind. -/
def IsProper : Stretch → Prop
  | .spaces n => 0 < n
  | .breaks t => t ≠ [] ∧ ∀ c ∈ t, isScalarBreak c
  | .word t => t ≠ [] ∧ ∀ c ∈ t, c ≠ ' ' ∧ isScalarBreak c = false

/-- Of two neighbours one is a word and the other is none. -/
def Alternate : List Stretch → Prop
  | [] => True
  | s :: ss => s.IsProper ∧ (∀ s' ∈ ss.head?, s'.isWord = !s.isWord) ∧ Alternate ss

def joined (ss : List Stretch) : Text := ss.flatMap text

@[simp] theorem joined_nil : joined [] = [] := rfl

@[simp] theorem joined_cons (s : Stretch) (ss : List Stretch) :
    joined (s :: ss) = s.text ++ joined ss := rfl

def Takes (c : CodePoint) : Stretch → Prop
  | .spaces _ => c = ' '
  | .breaks _ => isScalarBreak c
  | .word _ => c ≠ ' ' ∧ isScalarBreak c = false

/-- What a character before stretches becomes: it lengthens the first one if it belongs there, and
is a stretch of its own otherwise. -/
inductive Added (c : CodePoint) : List Stretch → List Stretch → Prop
  | longer {s s' : Stretch} {ss : List Stretch} (ht : s'.text = c :: s.text)
      (hw : s'.isWord = s.isWord) (hc : s'.Takes c) (hp : s.IsProper → s'.IsProper) :
      Added c (s :: ss) (s' :: ss)
  | one {s : Stretch} {ss : List Stretch} (ht : s.text = [c]) (hc : s.Takes c) (hp : s.IsProper)
      (hn : ∀ u ∈ ss.head?, ¬ u.Takes c) : Added c ss (s :: ss)

theorem added_add (c : CodePoint) (ss : List Stretch) : Added c ss (add c ss) := by
  have hs : isScalarBreak ' ' = false := by decide
  have head {p : Stretch → Prop} (h : ∀ u r, ss = u :: r → p u) : ∀ u ∈ ss.head?, p u := by
    intro u hu
    obtain ⟨r, rfl⟩ := List.head?_eq_some_iff.1 hu
    exact h u r rfl
  unfold add
  split
  · rename_i hc
    subst hc
    split
    · exact .longer rfl rfl rfl fun _ => Nat.succ_pos _
    · rename_i hn
      refine .one rfl rfl Nat.one_pos (head fun u r hu ht => ?_)
      cases u with
      | spaces n => exact hn n r hu
      | breaks t => exact absurd (hs.symm.trans ht) (by decide)
      | word t => exact ht.1 rfl
  rename_i hc
  split
  · rename_i hb
    split
    · exact .longer rfl rfl hb fun hp => ⟨by simp, by simpa [hb] using hp.2⟩
    · rename_i hn
      refine .one rfl hb ⟨by simp, by simpa using hb⟩ (head fun u r hu ht => ?_)
      cases u with
      | spaces n => exact hc ht
      | breaks t => exact hn t r hu
      | word t => exact absurd (ht.2.symm.trans hb) (by decide)
  · rename_i hb
    have hb : isScalarBreak c = false := by simpa using hb
    split
    · exact .longer rfl rfl ⟨hc, hb⟩ fun hp => ⟨by simp, by simpa [hc, hb] using hp.2⟩
    · rename_i hn
      refine .one rfl ⟨hc, hb⟩ ⟨by simp, by simpa [hb] using hc⟩ (head fun u r hu ht => ?_)
      cases u with
      | spaces n => exact hc ht
      | breaks t => exact absurd (hb.symm.trans ht) (by decide)
      | word t => exact hn t r hu

theorem joined_add (c : CodePoint) (ss : List Stretch) : joined (add c ss) = c :: joined ss := by
  have h := added_add c ss
  generalize add c ss = added at h ⊢
  cases h with
  | longer ht => simp [ht]
  | one ht => simp [ht]

@[simp] theorem joined_ofText (t : Text) : joined (ofText t) = t := by
  induction t with
  | nil => rfl
  | cons c t ih => rw [ofText, joined_add, ih]

theorem alternate_add (h : Alternate ss) (hs : ∀ u ∈ ss.head?, c = ' ' → ∀ t, u ≠ .breaks t)
    (hb : ∀ u ∈ ss.head?, isScalarBreak c → ∀ n, u ≠ .spaces n) : Alternate (add c ss) := by
  have ha := added_add c ss
  generalize add c ss = added at ha ⊢
  cases ha with
  | longer ht hw hc hp => exact ⟨hp h.1, by rw [hw]; exact h.2.1, h.2.2⟩
  | @one s _ ht hc hp hn =>
    refine ⟨hp, fun u hu => ?_, h⟩
    -- Two gaps beside each other would be of one kind, or spaces beside breaks.
    have hnu := hn u hu
    cases s <;> cases u <;> simp_all [Takes, isWord]

theorem takes_head_ofText {s : Stretch} (h : (ofText t).head? = some s) :
    ∃ c r, t = c :: r ∧ s.Takes c := by
  cases t with
  | nil => cases h
  | cons c r =>
    have ha := added_add c (ofText r)
    rw [ofText] at h
    generalize add c (ofText r) = added at ha h
    generalize ofText r = rest at ha
    cases ha <;> cases h <;> exact ⟨c, r, rfl, ‹_›⟩

theorem adjacent_tail {p q : CodePoint → Bool}
    (h : ScalarStyle.adjacent p q (c :: t) = false) : ScalarStyle.adjacent p q t = false := by
  cases t with
  | nil => rfl
  | cons d t => simp_all [ScalarStyle.adjacent]

/-- Without spaces beside breaks, words and gaps alternate. -/
theorem alternate_ofText (hs : ScalarStyle.adjacent ScalarStyle.isSpace isScalarBreak t = false)
    (hb : ScalarStyle.adjacent isScalarBreak ScalarStyle.isSpace t = false) :
    Alternate (ofText t) := by
  induction t with
  | nil => trivial
  | cons c t ih =>
    have ht := ih (adjacent_tail hs) (adjacent_tail hb)
    refine alternate_add ht (fun u hu hc v => ?_) fun u hu hc n => ?_
    · rintro rfl
      obtain ⟨d, r, rfl, hd⟩ := takes_head_ofText hu
      simp [ScalarStyle.adjacent, ScalarStyle.isSpace, hc, show isScalarBreak d from hd] at hs
    · rintro rfl
      obtain ⟨d, r, rfl, hd⟩ := takes_head_ofText hu
      simp [ScalarStyle.adjacent, ScalarStyle.isSpace, hc, show d = ' ' from hd] at hb

theorem Alternate.isProper (h : Alternate ss) : ∀ s ∈ ss, s.IsProper := by
  induction ss with
  | nil => simp
  | cons s ss ih =>
    intro u hu
    rcases List.mem_cons.1 hu with rfl | hu
    · exact h.1
    · exact ih h.2.2 u hu

theorem Alternate.head_isWord {s : Stretch} (h : Alternate (s :: ss)) (hs : s.isWord = false) :
    ∀ u ∈ ss.head?, u.isWord := by
  intro u hu
  rw [h.2.1 u hu, hs]
  rfl

end Stretch

namespace Written

open Stretch

section Single

theorem spells_doubledQuotes {t u w : Text} (ho : ∀ c ∈ t, isOrdinary c)
    (hg : ∀ c ∈ t, c ≠ ' ' ∧ isScalarBreak c = false) (h : Spells false w u) :
    Spells false (doubledQuotes t ++ w) (t ++ u) := by
  induction t with
  | nil => exact h
  | cons c t ih =>
    have ih := ih (fun d hd => ho d (by simp [hd])) fun d hd => hg d (by simp [hd])
    by_cases hc : c = '\''
    · subst hc
      simpa [doubledQuotes] using ih.doubled
    · have hc' := ho c (by simp)
      obtain ⟨hs, hb⟩ := hg c (by simp)
      have hn : (isTabOrSpace c || isBreak c) = false := by
        simp [isTabOrSpace_eq_isSpace hc', isBreak_eq_isScalarBreak hc', hs, hb]
      have hq : c ≠ quoteMark false := hc
      simpa [doubledQuotes, hc] using Spells.plain hc' hn hq (by simp) ih

/-- Behind a gap comes a word or the closing quote. -/
theorem beginsWord_single (fold isFirst : Bool) (indent column : Nat) {ss : List Stretch}
    (ha : Alternate ss)
    (ho : ∀ c ∈ joined ss, isOrdinary c ∧ c ≠ '\u0085') (hs : ∀ u ∈ ss.head?, u.isWord) :
    BeginsWord (single fold indent column isFirst ss) := by
  intro c hc
  cases ss with
  | nil =>
    obtain rfl : c = '\'' := (Option.some.inj hc).symm
    decide
  | cons s ss =>
    cases s with
    | spaces n => exact absurd (hs _ rfl) (by simp [isWord])
    | breaks t => exact absurd (hs _ rfl) (by simp [isWord])
    | word t =>
      obtain ⟨⟨hn, ht⟩, -, -⟩ := ha
      obtain ⟨d, t, rfl⟩ := List.exists_cons_of_ne_nil hn
      obtain ⟨hd, hb⟩ := ht d (by simp)
      have hdo := (ho d (by simp [text])).1
      have hcd : c = d := by
        by_cases hq : d = '\'' <;> simp_all [single, doubledQuotes]
      subst hcd
      simp [isTabOrSpace_eq_isSpace hdo, isBreak_eq_isScalarBreak hdo, hd, hb]

variable {fold : Bool} {indent : Nat}

theorem spells_newLine {w t : Text} (hi : 0 < indent) (hw : BeginsWord w) (h : Spells false w t) :
    Spells false (newLine indent ++ w) (.char ' ' :: t) := by
  have hb : ∀ c ∈ [CodePoint.char '\n'], isOrdinary c ∧ isBreak c ∧ c ≠ '\u0085' := by decide
  simpa [newLine, foldedBreaks, Text.ofString] using Spells.breaks hb hi hw h

/-- Breaks are written with one more line feed before a line feed that comes first. -/
theorem spells_breaks {bs w t : Text} (hn : bs ≠ [])
    (hb : ∀ c ∈ bs, isOrdinary c ∧ isBreak c ∧ c ≠ '\u0085') (hi : 0 < indent) (hw : BeginsWord w)
    (h : Spells false w t) :
    Spells false ((if bs.head? = some (.char '\n') then ("\n" : Text) else []) ++ bs ++
      spaces indent ++ w) (bs ++ t) := by
  obtain ⟨b, bs, rfl⟩ := List.exists_cons_of_ne_nil hn
  by_cases hl : b = '\n'
  · subst hl
    have hb' : ∀ c ∈ CodePoint.char '\n' :: .char '\n' :: bs,
        isOrdinary c ∧ isBreak c ∧ c ≠ '\u0085' := fun c hc => hb c (by simpa using hc)
    simpa [foldedBreaks, Text.ofString] using Spells.breaks hb' hi hw h
  · simpa [foldedBreaks, hl] using Spells.breaks hb hi hw h

theorem spells_single (column : Nat) (isFirst : Bool) {ss : List Stretch} (ha : Alternate ss)
    (ho : ∀ c ∈ joined ss, isOrdinary c ∧ c ≠ '\u0085')
    (hi : 0 < indent ∨ fold = false ∧ ∀ c ∈ joined ss, isScalarBreak c = false) :
    Spells false (single fold indent column isFirst ss) (joined ss) := by
  induction ss generalizing column isFirst with
  | nil => exact .close false
  | cons s ss ih =>
    have ho' : ∀ c ∈ joined ss, isOrdinary c ∧ c ≠ '\u0085' := fun c hc => ho c (by simp [hc])
    have hi' : 0 < indent ∨ fold = false ∧ ∀ c ∈ joined ss, isScalarBreak c = false :=
      hi.imp_right fun h => ⟨h.1, fun c hc => h.2 c (by simp [hc])⟩
    have ih' (column : Nat) (isFirst : Bool) := ih column isFirst ha.2.2 ho' hi'
    cases s with
    | word t =>
      refine spells_doubledQuotes (fun c hc => (ho c ?_).1) ha.1.2 (ih' _ _)
      simp [text, hc]
    | spaces n =>
      have hw (column : Nat) := beginsWord_single fold false indent column ha.2.2 ho'
        (ha.head_isWord rfl)
      rw [single]
      split
      · rename_i h
        obtain ⟨rfl, -, hf, -⟩ := h
        have hi0 : 0 < indent := hi.resolve_right fun h => by simp [hf] at h
        exact spells_newLine hi0 (hw indent) (ih' indent false)
      · exact Spells.spaces ha.1 (hw _) (ih' _ _)
    | breaks t =>
      have hw := beginsWord_single fold false indent indent ha.2.2 ho' (ha.head_isWord rfl)
      obtain ⟨hn, hb⟩ := ha.1
      have hi0 : 0 < indent := hi.resolve_right fun h => by
        obtain ⟨b, u, rfl⟩ := List.exists_cons_of_ne_nil hn
        simpa [h.2 b (by simp [text])] using hb b (by simp)
      refine spells_breaks hn (fun c hc => ?_) hi0 hw (ih' indent false)
      obtain ⟨hco, hcn⟩ := ho c (List.mem_append_left _ hc)
      exact ⟨hco, by rw [isBreak_eq_isScalarBreak hco]; exact hb c hc, hcn⟩

end Single

section Double

def isEscaped (c : CodePoint) : Bool := (escape? c).isSome

theorem unescaped {c : CodePoint} (h : escape? c = none) :
    isOrdinary c ∧ isBreak c = false ∧ c ≠ '\t' ∧ c ≠ '"' ∧ c ≠ '\\' := by
  have hne (d : CodePoint) (hd : isEscaped d) : c ≠ d := by
    rintro rfl
    simp [isEscaped, h] at hd
  refine ⟨?_, ?_, hne _ (by decide), hne _ (by decide), hne _ (by decide)⟩
  · unfold escape? at h
    dsimp only at h
    split at h
    · cases h
    split at h
    · rename_i hw
      simp only [isOrdinary, within] at hw ⊢
      simp at hw ⊢
      omega
    split at h
    · cases h
    split at h <;> cases h
  · simp only [isBreak, Bool.or_eq_false_iff]
    refine ⟨⟨⟨⟨?_, ?_⟩, ?_⟩, ?_⟩, ?_⟩ <;> exact beq_false_of_ne (hne _ (by decide))

theorem unescaped_space : escape? (.char ' ') = none := by decide

variable {fold isFirst fresh : Bool} {indent column : Nat} {c : CodePoint} {r t : Text}

theorem double_escaped {e : Text} (h : escape? c = some e) :
    double fold indent column isFirst fresh (c :: r) =
        e ++ double fold indent (column + e.length) false true r ∨
      fold = true ∧ r ≠ [] ∧ double fold indent column isFirst fresh (c :: r) =
        e ++ (continued indent r.head?).1 ++
          double fold indent (continued indent r.head?).2 false true r := by
  rw [double]
  simp only [h]
  split
  · rename_i hi
    refine .inr ⟨?_, ?_, rfl⟩ <;> simp_all
  · exact .inl rfl

theorem double_unescaped (h : escape? c = none) : ∃ column',
    double fold indent column isFirst fresh (c :: r) =
        c :: double fold indent column' false false r ∨
      fold = true ∧ double fold indent column isFirst fresh (c :: r) =
        (continued indent (some c)).1 ++ c :: double fold indent column' false false r := by
  rw [double]
  simp only [h]
  split
  · rename_i hi
    exact ⟨_, .inr ⟨by simp_all, rfl⟩⟩
  · exact ⟨_, .inl rfl⟩

/-- A line is not folded before the first character behind an indentation within the width. -/
theorem double_space (hi : indent < width) :
    double fold indent (indent + 1) isFirst fresh (.char ' ' :: r) =
      .char ' ' :: double fold indent (indent + 1 + 1) false false r := by
  have hw : ¬ width < indent + 1 := by omega
  rw [double]
  simp [unescaped_space, hw]

theorem exists_continued (indent : Nat) (next : Option CodePoint) :
    ∃ u, (continued indent next).1 = .char '\\' :: u := ⟨_, rfl⟩

theorem head_double (hw : ∀ c ∈ t, c.isLone = false) :
    ∀ x ∈ (double fold indent column isFirst fresh t).head?,
      isBreak x = false ∧ x ≠ '\t' ∧ (x = ' ' → t.head? = some (.char ' ')) := by
  intro x hx
  have hb : isBreak '\\' = false ∧ CodePoint.char '\\' ≠ '\t' ∧ CodePoint.char '\\' ≠ ' ' := by
    decide
  cases t with
  | nil =>
    obtain rfl : x = '"' := (Option.some.inj hx).symm
    decide
  | cons c r =>
    cases he : escape? c with
    | some e =>
      obtain ⟨u, rfl⟩ := (escapes_of_written (hw c (by simp)) he).exists_cons
      have hx' : x = '\\' := by
        rcases double_escaped he with h | ⟨-, -, h⟩ <;> rw [h] at hx <;>
          exact (Option.some.inj hx).symm
      subst hx'
      exact ⟨hb.1, hb.2.1, fun h => absurd h hb.2.2⟩
    | none =>
      obtain ⟨column', h | ⟨-, h⟩⟩ := double_unescaped he
      · rw [h] at hx
        obtain rfl : c = x := Option.some.inj hx
        obtain ⟨-, h1, h2, -, -⟩ := unescaped he
        exact ⟨h1, h2, fun h => by rw [h]; rfl⟩
      · obtain ⟨u, hu⟩ := exists_continued indent (some c)
        rw [h, hu] at hx
        obtain rfl : x = '\\' := (Option.some.inj hx).symm
        exact ⟨hb.1, hb.2.1, fun h => absurd h hb.2.2⟩

theorem beginsWord_double (hw : ∀ c ∈ t, c.isLone = false) (hs : t.head? ≠ some (.char ' ')) :
    BeginsWord (double fold indent column isFirst fresh t) := by
  intro x hx
  obtain ⟨hb, ht, hc⟩ := head_double hw x hx
  have hx' : x ≠ ' ' := fun h => hs (hc h)
  simp [isTabOrSpace, ht, hx', hb]

/-- A space before a spelling that begins with no break is one more space of it. -/
theorem spells_space {w : Text} (h : Spells true w t)
    (hw : ∀ x ∈ w.head?, isBreak x = false ∧ x ≠ '\t') :
    Spells true (.char ' ' :: w) (.char ' ' :: t) := by
  have one (hb : BeginsWord w) : Spells true (.char ' ' :: w) (.char ' ' :: t) := by
    simpa [spaces] using Spells.spaces Nat.one_pos hb h
  by_cases hx : w.head? = some (.char ' ')
  · cases h with
    | @spaces _ n w t hn hb h =>
      simpa [Written.spaces, List.replicate_succ] using Spells.spaces (Nat.succ_pos n) hb h
    | close => exact absurd hx (by decide)
    | @plain _ x w t ho hg hq he h =>
      obtain rfl : x = ' ' := Option.some.inj hx
      exact absurd hg (by decide)
    | @escape y e w t he h =>
      obtain ⟨u, rfl⟩ := he.exists_cons
      exact absurd hx (by simp)
    | continued => exact absurd hx (by simp)
    | @breaks _ b bs w t n hb hn hw h =>
      obtain rfl : b = ' ' := Option.some.inj hx
      exact absurd (hb (.char ' ') (by simp)).2.1 (by decide)
  · refine one fun x hx' => ?_
    obtain ⟨hb, ht⟩ := hw x hx'
    have hs : x ≠ ' ' := by
      rintro rfl
      exact hx hx'
    simp [isTabOrSpace, ht, hs, hb]

theorem spells_unescaped {w : Text} (hc : escape? c = none) (hs : c ≠ ' ') (h : Spells true w t) :
    Spells true (c :: w) (c :: t) ∧ BeginsWord (c :: w) := by
  obtain ⟨ho, hb, ht, hq, hbk⟩ := unescaped hc
  have hg : (isTabOrSpace c || isBreak c) = false := by simp [isTabOrSpace, hs, ht, hb]
  refine ⟨.plain ho hg hq (fun _ => hbk) h, ?_⟩
  rintro x ⟨⟩
  simpa using hg

/-- Where a line is continued with a space, the space is escaped. -/
theorem spells_continued_space {w : Text} (hi : 0 < indent) (h : Spells true w t) :
    Spells true ((continued indent (some (.char ' '))).1 ++ .char ' ' :: w) (.char ' ' :: t) := by
  have he : Escapes [.char '\\', .char ' '] ' ' := .short (by decide) (by decide)
  have hb : BeginsWord (.char '\\' :: .char ' ' :: w) := by
    rintro x ⟨⟩
    decide
  simpa [continued, Text.ofString] using Spells.continued hi hb (.escape he h)

theorem spells_continued {w : Text} {next : Option CodePoint} (hi : 0 < indent)
    (hn : next ≠ some (.char ' ')) (hb : BeginsWord w) (h : Spells true w t) :
    Spells true ((continued indent next).1 ++ w) t := by
  simpa [continued, hn, Text.ofString] using Spells.continued hi hb h

/-- Where the indentation is within the width, or no escape stands before a space, what is written
between double quotes spells its text. -/
theorem spells_double (hw : ∀ c ∈ t, c.isLone = false) (hi : fold = true → 0 < indent)
    (hs : fold = true → indent < width ∨
      ScalarStyle.adjacent isEscaped ScalarStyle.isSpace t = false) :
    Spells true (double fold indent column isFirst fresh t) t := by
  -- Behind an escape that ends its line the space that follows is read with it, hence the lengths.
  induction hn : t.length using Nat.strongRecOn generalizing t column isFirst fresh with
  | ind n ih =>
  cases t with
  | nil => exact .close true
  | cons c r =>
    have hwr : ∀ d ∈ r, d.isLone = false := fun d hd => hw d (by simp [hd])
    have ihr (column : Nat) (isFirst fresh : Bool) :
        Spells true (double fold indent column isFirst fresh r) r :=
      ih r.length (by simp [← hn]) hwr (fun hf => (hs hf).imp_right adjacent_tail) rfl
    cases he : escape? c with
    | some e =>
      have he' := escapes_of_written (hw c (by simp)) he
      rcases double_escaped he with h | ⟨hf, hr, h⟩
      · rw [h]
        exact .escape he' (ihr _ _ _)
      obtain ⟨d, r, rfl⟩ := List.exists_cons_of_ne_nil hr
      rw [h, List.append_assoc]
      refine .escape he' ?_
      by_cases hd : d = ' '
      · subst hd
        have hiw : indent < width := (hs hf).resolve_right fun h => by
          simp [ScalarStyle.adjacent, isEscaped, he, ScalarStyle.isSpace] at h
        have ih' : Spells true (double fold indent (indent + 1 + 1) false false r) r :=
          ih r.length (by rw [← hn, List.length_cons, List.length_cons]; omega)
            (fun d hd => hwr d (by simp [hd])) (fun _ => .inl hiw) rfl
        have hsp := spells_continued_space (hi hf) ih'
        rw [← double_space hiw] at hsp
        exact hsp
      · have hc : (d :: r).head? ≠ some (.char ' ') := by simpa using hd
        exact spells_continued (hi hf) hc (beginsWord_double hwr hc) (ihr _ false true)
    | none =>
      obtain ⟨column', h | ⟨hf, h⟩⟩ := double_unescaped he <;> rw [h] <;> by_cases hc : c = ' '
      · subst hc
        exact spells_space (ihr _ _ _) fun x hx =>
          ⟨(head_double hwr x hx).1, (head_double hwr x hx).2.1⟩
      · exact (spells_unescaped he hc (ihr _ _ _)).1
      · subst hc
        exact spells_continued_space (hi hf) (ihr column' false false)
      · obtain ⟨hp, hb⟩ := spells_unescaped he hc (ihr column' false false)
        exact spells_continued (hi hf) (by simpa using hc) hb hp

end Double

end Written

end RouteAtlas.Yaml
