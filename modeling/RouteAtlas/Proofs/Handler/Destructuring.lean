import Mathlib.Tactic.Common
import RouteAtlas.Proofs.Handler.Statements

/-!
# Finding destructuring in a handler body

A match begins at the keyword of a statement or nowhere. The searches for the carrier and for the
wrapper find their own statements, and neither takes one of the other.
-/

namespace RouteAtlas.Source

/-- How words are read: a keyword as itself, and any word as text that agrees with it. -/
structure Reads (eats : Text → Text → Option Text) : Prop where
  keyword : ∀ v ∈ keywords, ∀ w ∈ keywords, ∀ t, eats v (w ++ t) = if v = w then some t else none
  agree : ∀ {w t r : Text}, eats w t = some r → ∃ s, t = s ++ r ∧ Text.Agree w s

theorem reads_after : Reads Text.after where
  keyword := by
    intro v hv w hw t
    simp only [keywords, List.mem_cons, List.not_mem_nil, or_false] at hv hw
    rcases hv with rfl | rfl | rfl <;> rcases hw with rfl | rfl | rfl <;> first
      | exact Text.after_append _ t
      | rfl
  agree := by
    intro w t r h
    exact ⟨w, Text.eq_append_of_after h, Text.agree_refl w⟩

theorem reads_afterAgreeing : Reads Text.afterAgreeing where
  keyword := by
    intro v hv w hw t
    simp only [keywords, List.mem_cons, List.not_mem_nil, or_false] at hv hw
    rcases hv with rfl | rfl | rfl <;> rcases hw with rfl | rfl | rfl <;> first
      | exact Text.afterAgreeing_append (Text.agree_refl _) t
      | rfl
  agree := Text.agree_of_afterAgreeing

def opensKeyword (c : CodePoint) : Bool :=
  keywords.any fun w => w.head?.any fun d : CodePoint => d.agrees c

theorem opensKeyword_iff {c : CodePoint} :
    opensKeyword c ↔ ∃ w ∈ keywords, ∃ d ∈ w.head?, d.agrees c := by
  simp [opensKeyword, Option.any_eq_true]

theorem opensKeyword_of_isBlank {c : CodePoint} (h : c.isBlank) : opensKeyword c = false := by
  rw [← Bool.not_eq_true, opensKeyword_iff]
  rintro ⟨w, hw, d, hd, ha⟩
  have hk : ∀ w ∈ keywords, ∀ d ∈ w.head?, d.isAscii ∧ d.isName := by decide
  obtain ⟨h₁, h₂⟩ := hk w hw d hd
  exact CodePoint.not_agrees_of_isBlank h₁ h₂ h ha

section Pattern

variable {eats : Text → Text → Option Text} {subject t u : Text} {before : Option CodePoint}

def subject? (eats : Text → Text → Option Text) (subject t : Text) : Option Text := do
  let t ← eats subject t
  if t.nameAhead then none else some t

theorem exists_of_destructuring (hr : Reads eats) {o : Text × Text}
    (h : destructuring eats subject before t = some o) :
    ∃ w ∈ keywords, ∃ s r, ∃ gap : Gap, Text.Agree w s ∧ t = s ++ (gap.1 ++ .char '{' :: r) := by
  simp only [destructuring, Option.bind_eq_bind, Option.bind_eq_some_iff] at h
  obtain ⟨t₁, h₁, t₂, h₂, -⟩ := h
  have hw : ∃ w ∈ keywords, eats w t = some t₁ := by
    simp only [Option.orElse_eq_orElse, Option.orElse_eq_or, Option.or_eq_some_iff] at h₁
    rcases h₁ with h | ⟨-, h | ⟨-, h⟩⟩
    · exact ⟨"const", by decide, h⟩
    · exact ⟨"let", by decide, h⟩
    · exact ⟨"var", by decide, h⟩
  obtain ⟨w, hw, hk⟩ := hw
  obtain ⟨s, rfl, ha⟩ := hr.agree hk
  obtain ⟨gap, hgap, hl⟩ := Text.exists_append_trimLeft t₁
  rw [Text.eq_append_of_after h₂] at hl
  exact ⟨w, hw, s, t₂, ⟨gap, hgap⟩, ha, by rw [hl]; rfl⟩

theorem eats_keyword (hr : Reads eats) (w : Keyword) (t : Text) :
    (eats "const" (w.1 ++ t) <|> eats "let" (w.1 ++ t) <|> eats "var" (w.1 ++ t)) = some t := by
  obtain ⟨w, hw⟩ := w
  have hk := fun v hv => hr.keyword v hv w hw t
  rw [hk "const" (by decide), hk "let" (by decide), hk "var" (by decide)]
  simp only [keywords, List.mem_cons, List.not_mem_nil, or_false] at hw
  rcases hw with rfl | rfl | rfl <;> rfl

/-- A written destructuring is read up to its subject. -/
theorem destructuring_render {g : Grammar} (hr : Reads eats) (b : Binding g) (s t : Text) :
    destructuring eats subject before (b.render s ++ t) =
      (Text.afterBlanks (subject? eats subject) (b.behindEquals.1 ++ (s ++ t))).map
        (b.inside, ·) := by
  have hk := eats_keyword hr b.keyword
  have hb : ∀ (gap : Gap) (c : Char) (r : Text), CodePoint.isBlank (.char c) = false →
      Text.trimLeft (gap.1 ++ .char c :: r) = .char c :: r := fun gap c r hc => by
    rw [Text.trimLeft_append gap.2, Text.trimLeft_cons hc]
  have hopen : ∀ r, Text.after "\x7b" (.char '{' :: r) = some r := Text.after_append "\x7b"
  have hclose : ∀ r, Text.after "\x7d" (.char '}' :: r) = some r := Text.after_append "\x7d"
  have hequals : ∀ r, Text.after "=" (.char '=' :: r) = some r := Text.after_append "="
  have hi : ∀ r : Text, ∀ c ∈ (.char '}' :: r : Text).head?, notBrace c = false := by
    intro r c hc
    obtain rfl := Option.some.inj hc
    decide
  have hbody := fun r => Text.takeWhile_append_of_stop b.notBrace_inside (hi r)
  have hrest := fun r => Text.dropWhile_append_of_stop b.notBrace_inside (hi r)
  simp only [Binding.render, List.append_assoc, List.cons_append, destructuring, hk,
    Option.bind_eq_bind, Option.bind_some]
  rw [hb _ _ _ (by decide), hopen, Option.bind_some, hbody, hrest, hclose, Option.bind_some,
    hb _ _ _ (by decide), hequals, Option.bind_some]
  exact (Option.map_eq_bind (f := fun r => (b.inside, r))).symm

theorem refuses_destructuring (hr : Reads eats) {c : CodePoint} (hc : opensKeyword c = false) :
    Text.Refuses (destructuring eats subject) c := by
  intro before t
  rw [Option.eq_none_iff_forall_not_mem]
  intro o ho
  obtain ⟨w, hw, s, r, gap, ha, hs⟩ := exists_of_destructuring hr ho
  have hk : ∀ w ∈ keywords, w ≠ [] := by decide
  cases ha with
  | nil => exact hk _ hw rfl
  | @cons d e _ _ hd _ =>
    obtain rfl := (List.cons.inj hs).1
    have ho := opensKeyword_iff.2 ⟨_, hw, d, rfl, hd⟩
    simp [hc] at ho

/-- Without a brace before the next semicolon there is nothing to be found. -/
theorem destructuring_eq_none_of_not_mem (hr : Reads eats) (hu : .char '{' ∉ u) (t : Text) :
    destructuring eats subject before (u ++ .char ';' :: t) = none := by
  rw [Option.eq_none_iff_forall_not_mem]
  intro o ho
  obtain ⟨w, hw, s, r, gap, ha, hs⟩ := exists_of_destructuring hr ho
  have hk : ∀ w ∈ keywords, ∀ d ∈ w, ¬ d.agrees (.char ';') := by decide
  rw [← List.append_assoc] at hs
  rcases Text.mem_or_mem_of_append_eq (by decide) hs with h | h
  · rcases List.mem_append.1 h with h | h
    · obtain ⟨d, hd, hda⟩ := ha.exists_of_mem h
      exact hk w hw d hd hda
    · exact absurd rfl (CodePoint.ne_of_class (Text.forall_of_isBlank gap.2 _ h)
        (d := .char ';') (by decide))
  · exact hu h

theorem misses_of_not_mem (hr : Reads eats) (hu : .char '{' ∉ u) :
    Text.Misses (destructuring eats subject) before u (.char ';' :: t) := by
  induction u generalizing before with
  | nil => trivial
  | cons c u ih =>
    exact ⟨destructuring_eq_none_of_not_mem hr hu t, ih fun h => hu (by simp [h])⟩

theorem subject?_of_isBlank (hr : Reads eats) (hs : ∃ d ∈ subject.head?, d.isAscii ∧ d.isName)
    {c : CodePoint} (hc : c.isBlank) (t : Text) : subject? eats subject (c :: t) = none := by
  obtain ⟨d, hd, ha, hn⟩ := hs
  cases he : eats subject (c :: t) with
  | none => simp [subject?, he]
  | some r =>
    obtain ⟨s, hs, hw⟩ := hr.agree he
    cases hw with
    | nil => cases hd
    | @cons e c' _ _ hec _ =>
      obtain rfl := Option.some.inj hd
      obtain rfl := (List.cons.inj hs).1
      exact absurd hec (CodePoint.not_agrees_of_isBlank ha hn hc)

/-- A subject is not read where another name stands. -/
theorem subject?_eq_none (hr : Reads eats) {name : Text} {stop : CodePoint}
    (hn : ∀ c ∈ name, c.isName) (hs : ∀ d ∈ subject, ¬ d.agrees stop)
    (ha : ¬ Text.Agree subject name) (t : Text) :
    subject? eats subject (name ++ stop :: t) = none := by
  cases he : eats subject (name ++ stop :: t) with
  | none => simp [subject?, he]
  | some r =>
    obtain ⟨s, hs', hw⟩ := hr.agree he
    rcases List.append_eq_append_iff.1 hs' with ⟨u, rfl, hu⟩ | ⟨u, rfl, hu⟩
    · cases u with
      | nil => exact absurd (by simpa using hw) ha
      | cons c u =>
        obtain rfl := (List.cons.inj hu).1
        obtain ⟨d, hd, hda⟩ := hw.exists_of_mem (c := stop) (by simp)
        exact absurd hda (hs d hd)
    · cases u with
      | nil => exact absurd (by simpa using hw) ha
      | cons c u =>
        have hc : c.isName := hn c (by simp)
        rw [subject?, he, hu]
        simp [Text.nameAhead, hc]

end Pattern

section Search

variable {g : Grammar} {eats : Text → Text → Option Text} {subject : Text}
  {before : Option CodePoint}

/-- What is found behind a keyword depends on the subject only. -/
theorem destructuring_binding (hr : Reads eats)
    (hs : ∃ d ∈ subject.head?, d.isAscii ∧ d.isName) (b : Binding g) {s : Text} (t : Text)
    (hb : ∀ c ∈ (s ++ t).head?, c.isBlank = false) :
    destructuring eats subject before (b.render s ++ t) =
      (subject? eats subject (s ++ t)).map (b.inside, ·) := by
  rw [destructuring_render hr]
  have hgap := Text.forall_of_isBlank b.behindEquals.2
  cases he : subject? eats subject (s ++ t) with
  | none =>
    have hn := Text.afterRun_append_of_eq_none hgap hb he fun c r hc =>
      subject?_of_isBlank hr hs hc r
    rw [Text.afterBlanks, hn]
  | some r =>
    rw [Text.afterBlanks, Text.afterRun_append_of_eq_some hgap hb he]

theorem lookup_eq_none (hg : g.IsApart) (hr : Reads eats) (a : Lookup) (t : Text) :
    destructuring eats subject before (a.render g.carrier ++ .char ';' :: t) = none :=
  destructuring_eq_none_of_not_mem hr
    (fun h => absurd (hg.lookup_notBrace a _ h) (by decide)) t

theorem isBlank_head_of_names {s : Text} (hs : ∀ c ∈ s, c.isName) (t : Text) :
    ∀ c ∈ (s ++ .char ';' :: t).head?, c.isBlank = false := by
  intro c hc
  cases s with
  | nil =>
    obtain rfl := Option.some.inj hc
    decide
  | cons d s =>
    obtain rfl := Option.some.inj hc
    exact CodePoint.isBlank_of_isName (hs d (by simp))

theorem isBlank_head_carrier (hg : g.IsApart) (t : Text) :
    ∀ c ∈ (g.carrier ++ t).head?, c.isBlank = false := by
  obtain ⟨c, r, hc, hn⟩ := hg.exists_cons_carrier
  intro d hd
  obtain rfl : c = d := by simpa [hc] using hd
  exact CodePoint.isBlank_of_isNameStart hn

theorem not_agrees_stop {c : CodePoint} (hc : c.isAscii) (hn : c.isName) {stop : CodePoint}
    (hs : stop.isAscii) (hsn : stop.isName = false) : ¬ c.agrees stop := by
  intro h
  rw [CodePoint.isName_eq_of_agrees hc hs h, hsn] at hn
  cases hn

theorem not_agree_variant (hg : g.IsApart) (w : Variant g) : ¬ Text.Agree g.carrier w.1 := by
  intro h
  have hp : .char '.' ∉ g.carrier := by
    intro hc
    obtain ⟨d, hd, ha⟩ := h.symm.exists_of_mem hc
    exact not_agrees_stop (List.all_eq_true.1 w.2.1 d hd) (hg.forall_variant w d hd) (by decide)
      (by decide) ha
  have hu : g.carrier.upTo '.' = g.carrier := by
    rw [Text.upTo, List.takeWhile_eq_self_iff]
    intro c hc
    simp only [bne_iff_ne]
    rintro rfl
    exact hp hc
  have hl := (Text.agree_iff_lower_eq hg.carrierAscii w.2.1).1 h
  exact hg.apart (by rw [hu, hl, w.2.2])

theorem not_agree_first (hg : g.IsApart) : ¬ Text.Agree g.wrapper (g.carrier.upTo '.') := by
  intro h
  have ha : Text.isAscii (g.carrier.upTo '.') := by
    rw [Text.isAscii, List.all_eq_true]
    intro c hc
    exact (hg.forall_carrier c (List.takeWhile_subset _ hc)).1
  exact hg.apart ((Text.agree_iff_lower_eq hg.wrapperAscii ha).1 h).symm

theorem destructuring_carrier (hg : g.IsApart) (before : Option CodePoint) (form : Form g)
    (t : Text) :
    destructuring Text.after g.carrier before (form.render ++ .char ';' :: t) =
      form.carried?.map fun b => (b.inside, .char ';' :: t) := by
  obtain ⟨c, r, hc, hn⟩ := hg.exists_cons_carrier
  have hs : ∃ d ∈ g.carrier.head?, d.isAscii ∧ d.isName :=
    ⟨c, by simp [hc], (hg.forall_carrier c (by simp [hc])).1, CodePoint.isName_of_isNameStart hn⟩
  cases form with
  | carried b =>
    have hb := isBlank_head_carrier hg (.char ';' :: t)
    have he : subject? Text.after g.carrier (g.carrier ++ .char ';' :: t) =
        some (.char ';' :: t) := by
      rw [subject?, Text.after_append]
      rfl
    exact (destructuring_binding reads_after hs b _ hb).trans (by rw [he]; rfl)
  | wrapped b w =>
    have hw := hg.forall_variant w
    have hstop : ∀ d ∈ g.carrier, ¬ d.agrees (.char ';') := by
      intro d hd
      obtain ⟨ha, rfl | hn⟩ := hg.forall_carrier d hd
      · decide
      · exact not_agrees_stop ha hn (by decide) (by decide)
    have he := subject?_eq_none reads_after hw hstop (not_agree_variant hg w) t
    exact (destructuring_binding reads_after hs b _ (isBlank_head_of_names hw t)).trans
      (by rw [he]; rfl)
  | accessed a => exact lookup_eq_none hg reads_after a t

theorem destructuring_wrapper (hg : g.IsApart) (before : Option CodePoint) (form : Form g)
    (t : Text) :
    destructuring Text.afterAgreeing g.wrapper before (form.render ++ .char ';' :: t) =
      form.wrapped?.map fun b => (b.inside, .char ';' :: t) := by
  obtain ⟨c, r, hc, hn, -⟩ := Text.exists_cons_of_isIdentifier hg.wrapper
  have hs : ∃ d ∈ g.wrapper.head?, d.isAscii ∧ d.isName :=
    ⟨c, by simp [hc], hg.forall_wrapper c (by simp [hc])⟩
  cases form with
  | carried b =>
    obtain ⟨rest, hrest, hfirst, hpoint⟩ := hg.exists_carrier_eq
    have hnames := Text.forall_isName_of_isIdentifier hfirst
    have he : subject? Text.afterAgreeing g.wrapper (g.carrier ++ .char ';' :: t) = none := by
      have hstop : ∀ stop : CodePoint, stop.isAscii → stop.isName = false →
          ∀ d ∈ g.wrapper, ¬ d.agrees stop := fun stop ha hsn d hd =>
        not_agrees_stop (hg.forall_wrapper d hd).1 (hg.forall_wrapper d hd).2 ha hsn
      rw [hrest]
      cases rest with
      | nil =>
        rw [List.append_nil]
        exact subject?_eq_none reads_afterAgreeing hnames (hstop _ (by decide) (by decide))
          (not_agree_first hg) t
      | cons p rest =>
        obtain rfl := hpoint p (by simp)
        rw [List.append_assoc]
        exact subject?_eq_none reads_afterAgreeing hnames (hstop _ (by decide) (by decide))
          (not_agree_first hg) _
    have hb := isBlank_head_carrier hg (.char ';' :: t)
    exact (destructuring_binding reads_afterAgreeing hs b _ hb).trans (by rw [he]; rfl)
  | wrapped b w =>
    have he : subject? Text.afterAgreeing g.wrapper (w.1 ++ .char ';' :: t) =
        some (.char ';' :: t) := by
      rw [subject?, Text.afterAgreeing_append (hg.agree_variant w)]
      rfl
    have hb := isBlank_head_of_names (hg.forall_variant w) t
    exact (destructuring_binding reads_afterAgreeing hs b _ hb).trans (by rw [he]; rfl)
  | accessed a => exact lookup_eq_none hg reads_afterAgreeing a t

theorem Binding.misses_tail (hr : Reads eats) (b : Binding g) {s : Text} (hs : ∀ c ∈ s, notBrace c)
    (t : Text) : Text.Misses (destructuring eats subject) before (b.render s).tail
      (.char ';' :: t) := by
  -- up to the brace no character begins a keyword, and behind it there is no second brace
  have hk : ∀ w ∈ keywords, w ≠ [] ∧ ∀ c ∈ w.tail, opensKeyword c = false := by decide
  obtain ⟨hne, htail⟩ := hk _ b.keyword.2
  have he : (b.render s).tail = (b.keyword.1.tail ++ (b.behindKeyword.1 ++ [.char '{'])) ++
      (b.inside ++ .char '}' :: (b.beforeEquals.1 ++ .char '=' :: (b.behindEquals.1 ++ s))) := by
    rw [Binding.render, List.tail_append_of_ne_nil hne]
    simp
  have hheads : ∀ c ∈ b.keyword.1.tail ++ (b.behindKeyword.1 ++ [.char '{']),
      opensKeyword c = false := by
    have hgap := Text.forall_of_isBlank b.behindKeyword.2
    simp only [List.forall_mem_append, List.forall_mem_singleton]
    exact ⟨htail, fun c hc => opensKeyword_of_isBlank (hgap c hc), by decide⟩
  have hbody : .char '{' ∉ b.inside ++ .char '}' ::
      (b.beforeEquals.1 ++ .char '=' :: (b.behindEquals.1 ++ s)) := by
    simp only [List.mem_append, List.mem_cons, not_or]
    have hn : ∀ {u : Text}, (∀ c ∈ u, notBrace c) → .char '{' ∉ u := fun hu hm =>
      absurd (hu _ hm) (by decide)
    exact ⟨hn b.notBrace_inside, by decide, hn b.beforeEquals.notBrace, by decide,
      hn b.behindEquals.notBrace, hn hs⟩
  rw [he, Text.misses_append]
  exact ⟨Text.misses_of_refuses fun c hc => refuses_destructuring hr (hheads c hc),
    misses_of_not_mem hr hbody⟩

/-- Behind its first character a statement holds no match. -/
theorem misses_tail (subject : Text) (hg : g.IsApart) (hr : Reads eats)
    (before : Option CodePoint) (form : Form g) (t : Text) :
    Text.Misses (destructuring eats subject) before form.render.tail (.char ';' :: t) := by
  cases form with
  | carried b => exact b.misses_tail hr hg.carrier_notBrace t
  | wrapped b w =>
    exact b.misses_tail hr (fun c hc =>
      notBrace_of_class (hg.forall_variant w c hc) (by decide) (by decide)) t
  | accessed a =>
    refine misses_of_not_mem hr fun h => ?_
    exact absurd (hg.lookup_notBrace a _ (List.mem_of_mem_tail h)) (by decide)

theorem Form.render_ne_nil (form : Form g) : form.render ≠ [] := by
  have hk : ∀ w ∈ keywords, w ≠ [] := by decide
  cases form with
  | carried b => exact List.append_ne_nil_of_left_ne_nil (hk _ b.keyword.2) _
  | wrapped b w => exact List.append_ne_nil_of_left_ne_nil (hk _ b.keyword.2) _
  | accessed a => exact List.append_ne_nil_of_left_ne_nil (hk _ a.keyword.2) _

/-- A search that reads the chosen forms from their beginning finds them all, in order. -/
theorem occurrences_destructuring (hg : g.IsApart) (hr : Reads eats)
    {choose : Form g → Option (Binding g)}
    (hc : ∀ before form t, destructuring eats subject before (form.render ++ .char ';' :: t) =
      (choose form).map fun b => (b.inside, .char ';' :: t))
    (before : Option CodePoint) (tail : Gap) (ss : List (Statement g)) :
    Text.occurrencesFrom (destructuring eats subject) before 0 (bodyText tail ss) =
      (found choose tail ss).map fun o => (o.1.inside, o.2) := by
  refine occurrencesFrom_bodyText (fun c h => refuses_destructuring hr (opensKeyword_of_isBlank h))
    (refuses_destructuring hr (by decide)) (fun before form t => ?_) before tail ss
  refine ⟨form.render.getLast?.or before, ?_⟩
  have h := hc before form t
  cases hf : choose form with
  | some b =>
    rw [hf] at h
    exact Text.occurrencesFrom_append_of_eq_some form.render_ne_nil h
  | none =>
    have hm : Text.Misses (destructuring eats subject) before form.render (.char ';' :: t) := by
      obtain ⟨c, r, hcons⟩ := List.exists_cons_of_ne_nil form.render_ne_nil
      have ht := misses_tail subject hg hr (some c) form t
      rw [hf] at h
      rw [hcons] at h ht ⊢
      exact ⟨h, ht⟩
    exact Text.occurrencesFrom_append_of_misses hm

end Search

end RouteAtlas.Source
