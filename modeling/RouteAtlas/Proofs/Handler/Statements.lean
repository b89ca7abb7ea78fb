import Mathlib.Data.List.TakeWhile
import Mathlib.Tactic.Common
import RouteAtlas.Handler.Fields
import RouteAtlas.Proofs.Handler.CommaList
import RouteAtlas.Proofs.Text.Case

/-!
# Statements that read a request

A handler body is a sequence of statements, given by their parts: destructuring of the carrier or of
the wrapper, and access to a property under the carrier.
-/

namespace RouteAtlas

/-- The wrapper is an ASCII identifier, the carrier a chain of ASCII identifiers, and the first one
of the chain is not the wrapper in any case. -/
structure Grammar.IsApart (g : Grammar) : Prop where
  wrapper : g.wrapper.isIdentifier
  wrapperAscii : g.wrapper.isAscii
  carrier : ∀ name ∈ g.carrier.cut '.', name.isIdentifier
  carrierAscii : g.carrier.isAscii
  apart : (g.carrier.upTo '.').lower ≠ g.wrapper.lower

namespace Source

def keywords : List Text := ["const", "let", "var"]

abbrev Keyword := {t : Text // t ∈ keywords}

/-- A default value: balanced, without braces and without the text of the carrier. -/
abbrev Fallback (g : Grammar) :=
  {t : Text // Balanced false t ∧ (∀ c ∈ t, notBrace c) ∧ ¬ g.carrier <:+: t}

abbrev Variant (g : Grammar) := {t : Text // t.isAscii ∧ t.lower = g.wrapper.lower}

/-- An entry between the braces: a name, perhaps renamed and with a default, or the rest. -/
inductive Binder (g : Grammar) where
  | named (name : Identifier) (rename : Option (Gap × Gap × Identifier))
      (fallback : Option (Gap × Fallback g))
  | rest (name : Identifier)

namespace Binder

variable {g : Grammar}

def renameText : Option (Gap × Gap × Identifier) → Text
  | none => []
  | some (before, behind, target) => before.1 ++ .char ':' :: (behind.1 ++ target.1)

def fallbackText : Option (Gap × Fallback g) → Text
  | none => []
  | some (before, value) => before.1 ++ .char '=' :: value.1

def render : Binder g → Text
  | named name rename fallback => name.1 ++ (renameText rename ++ fallbackText fallback)
  | rest name => "..." ++ name.1

def name? : Binder g → Option Text
  | named name _ _ => some name.1
  | rest _ => none

end Binder

/-- Destructuring with a keyword, up to what is destructured. -/
structure Binding (g : Grammar) where
  keyword : Keyword
  behindKeyword : Gap
  binders : CommaList (Binder g)
  beforeEquals : Gap
  behindEquals : Gap

namespace Binding

variable {g : Grammar} (b : Binding g)

def inside : Text := b.binders.render Binder.render

def names : List Text := b.binders.parts.filterMap Binder.name?

def render (subject : Text) : Text :=
  b.keyword.1 ++ (b.behindKeyword.1 ++ .char '{' :: (b.inside ++ .char '}' ::
    (b.beforeEquals.1 ++ .char '=' :: (b.behindEquals.1 ++ subject))))

end Binding

structure Step where
  optional : Bool
  name : Identifier

def Step.mark (s : Step) : Text := if s.optional then ("?." : Text) else "."

def Step.render (s : Step) : Text := s.mark ++ s.name.1

/-- A variable that takes the value at the end of an access chain. -/
structure Lookup where
  keyword : Keyword
  behindKeyword : Gap
  target : Identifier
  beforeEquals : Gap
  behindEquals : Gap
  first : Step
  more : List Step

namespace Lookup

def chain (a : Lookup) : List Step := a.first :: a.more

def last (a : Lookup) : Text := (a.more.getLastD a.first).name.1

def render (a : Lookup) (carrier : Text) : Text :=
  a.keyword.1 ++ (a.behindKeyword.1 ++ (a.target.1 ++ (a.beforeEquals.1 ++ .char '=' ::
    (a.behindEquals.1 ++ (carrier ++ a.chain.flatMap Step.render)))))

end Lookup

inductive Form (g : Grammar) where
  | carried (b : Binding g)
  | wrapped (b : Binding g) (wrapper : Variant g)
  | accessed (a : Lookup)

def Form.render {g : Grammar} : Form g → Text
  | carried b => b.render g.carrier
  | wrapped b wrapper => b.render wrapper.1
  | accessed a => a.render g.carrier

/-- A statement with the white space before it, such as a line break and indentation. -/
structure Statement (g : Grammar) where
  lead : Gap
  form : Form g

def bodyText {g : Grammar} (tail : Gap) : List (Statement g) → Text
  | [] => tail.1
  | s :: ss => s.lead.1 ++ (s.form.render ++ .char ';' :: bodyText tail ss)

namespace Form

variable {g : Grammar}

def carried? : Form g → Option (Binding g)
  | carried b => some b
  | wrapped _ _ => none
  | accessed _ => none

def wrapped? : Form g → Option (Binding g)
  | carried _ => none
  | wrapped b _ => some b
  | accessed _ => none

def accessed? : Form g → Option Lookup
  | carried _ => none
  | wrapped _ _ => none
  | accessed a => some a

end Form

section Found

variable {g : Grammar} {α β : Type}

def found (choose : Form g → Option β) (tail : Gap) : List (Statement g) → List (β × Text)
  | [] => []
  | s :: ss =>
    match choose s.form with
    | some b => (b, .char ';' :: bodyText tail ss) :: found choose tail ss
    | none => found choose tail ss

theorem map_found (choose : Form g → Option β) (tail : Gap) (ss : List (Statement g)) :
    (found choose tail ss).map (·.1) = ss.filterMap (choose ·.form) := by
  induction ss with
  | nil => rfl
  | cons s ss ih =>
    cases hc : choose s.form with
    | none => simp [found, hc, ih]
    | some b => simp [found, hc, ih]

/-- A pattern that reads the chosen forms, and begins neither in white space nor at a semicolon,
finds the chosen forms of a body in order. -/
theorem occurrencesFrom_bodyText {p : Text.Pattern α} {choose : Form g → Option β} {read : β → α}
    (hblank : ∀ c : CodePoint, c.isBlank → Text.Refuses p c) (hsemi : Text.Refuses p (.char ';'))
    (hform : ∀ before form t, ∃ before',
      Text.occurrencesFrom p before 0 (form.render ++ .char ';' :: t) =
        ((choose form).map fun b => (read b, .char ';' :: t)).toList ++
          Text.occurrencesFrom p before' 0 (.char ';' :: t))
    (before : Option CodePoint) (tail : Gap) (ss : List (Statement g)) :
    Text.occurrencesFrom p before 0 (bodyText tail ss) =
      (found choose tail ss).map fun o => (read o.1, o.2) := by
  have hgap : ∀ (gap : Gap) (t : Text) (before : Option CodePoint),
      Text.Misses p before gap.1 t := fun gap t before =>
    Text.misses_of_refuses fun c hc => hblank c (Text.forall_of_isBlank gap.2 c hc)
  induction ss generalizing before with
  | nil =>
    have h := Text.occurrencesFrom_append_of_misses (hgap tail [] before)
    rw [List.append_nil] at h
    exact h
  | cons s ss ih =>
    have hskip : ∀ before, Text.Misses p before [.char ';'] (bodyText tail ss) := fun before =>
      Text.misses_of_refuses (by simpa using hsemi)
    obtain ⟨before', h⟩ := hform (s.lead.1.getLast?.or before) s.form (bodyText tail ss)
    have hnext := Text.occurrencesFrom_append_of_misses (hskip before')
    rw [List.singleton_append] at hnext
    rw [bodyText, Text.occurrencesFrom_append_of_misses (hgap s.lead _ before), h, hnext, ih, found]
    cases choose s.form <;> rfl

end Found

section Names

variable {g : Grammar}

theorem Binder.balanced (e : Binder g) : Balanced false e.render := by
  cases e with
  | named name rename fallback =>
    have hr : Balanced false (renameText rename) := by
      obtain _ | ⟨before, behind, target⟩ := rename
      · exact .nil
      · exact before.balanced.append (.plain (by decide) (behind.balanced.append target.balanced))
    have hf : Balanced false (fallbackText fallback) := by
      obtain _ | ⟨before, value⟩ := fallback
      · exact .nil
      · exact before.balanced.append (.plain (by decide) value.2.1)
    exact name.balanced.append (hr.append hf)
  | rest name => exact (Balanced.of_plain (t := "...") (by decide)).append name.balanced

theorem notBrace_of_class {p : CodePoint → Bool} {c : CodePoint} (h : p c)
    (hl : p (.char '{') = false) (hr : p (.char '}') = false) : notBrace c := by
  simp [notBrace, CodePoint.ne_of_class h hl, CodePoint.ne_of_class h hr]

theorem Gap.notBrace (gap : Gap) : ∀ c ∈ gap.1, notBrace c := fun c hc =>
  notBrace_of_class (Text.forall_of_isBlank gap.2 c hc) (by decide) (by decide)

theorem Identifier.notBrace (name : Identifier) : ∀ c ∈ name.1, notBrace c := fun c hc =>
  notBrace_of_class (name.forall_isName c hc) (by decide) (by decide)

theorem Step.notBrace_mark (s : Step) : ∀ c ∈ s.mark, Source.notBrace c := by
  unfold mark
  split <;> decide

theorem Binder.notBrace (e : Binder g) : ∀ c ∈ e.render, notBrace c := by
  cases e with
  | named name rename fallback =>
    have hr : ∀ c ∈ renameText rename, Source.notBrace c := by
      obtain _ | ⟨before, behind, target⟩ := rename
      · simp [renameText]
      · simp only [renameText, List.forall_mem_append, List.forall_mem_cons]
        exact ⟨before.notBrace, by decide, behind.notBrace, target.notBrace⟩
    have hf : ∀ c ∈ fallbackText fallback, Source.notBrace c := by
      obtain _ | ⟨before, value⟩ := fallback
      · simp [fallbackText]
      · simp only [fallbackText, List.forall_mem_append, List.forall_mem_cons]
        exact ⟨before.notBrace, by decide, value.2.2.1⟩
    simp only [render, List.forall_mem_append]
    exact ⟨name.notBrace, hr, hf⟩
  | rest name =>
    simp only [render, List.forall_mem_append]
    exact ⟨by decide, name.notBrace⟩

theorem Binding.notBrace_inside (b : Binding g) : ∀ c ∈ b.inside, notBrace c := by
  intro c hc
  rcases Text.mem_join hc with hc | ⟨t, ht, hc⟩
  · obtain rfl : c = .char ',' := by simpa [Text.ofString] using hc
    decide
  · rcases List.mem_append.1 ht with ht | ht
    · obtain ⟨p, -, rfl⟩ := List.mem_map.1 ht
      simp only [Padded.render, List.mem_append] at hc
      rcases hc with hc | hc | hc
      · exact p.lead.notBrace c hc
      · exact p.part.notBrace c hc
      · exact p.trail.notBrace c hc
    · obtain ⟨gap, -, rfl⟩ := List.mem_map.1 ht
      exact gap.notBrace c hc

theorem boundName?_of_isBlank {t : Text} (h : t.isBlank) : boundName? t = none := by
  simp [boundName?, Text.trim_of_isBlank h]

/-- A name is read alone or up to white space and a colon or an equals sign. -/
theorem boundName?_named {entry t : Text} (name : Identifier) (gap : Gap)
    (ht : ∀ c ∈ t.head?, c = .char ':' ∨ c = .char '=')
    (h : entry.trim = name.1 ++ (gap.1 ++ t)) : boundName? entry = some name.1 := by
  have hp : ∀ c ∈ name.1 ++ gap.1, decide ((c != .char ':') = true ∧ (c != .char '=') = true) := by
    intro c hc
    simp only [bne_iff_ne, decide_eq_true_eq]
    rcases List.mem_append.1 hc with hc | hc
    · have hn := name.forall_isName c hc
      exact ⟨CodePoint.ne_of_class hn (by decide), CodePoint.ne_of_class hn (by decide)⟩
    · have hb := Text.forall_of_isBlank gap.2 c hc
      exact ⟨CodePoint.ne_of_class hb (by decide), CodePoint.ne_of_class hb (by decide)⟩
  have hs : ∀ c ∈ t.head?, decide ((c != .char ':') = true ∧ (c != .char '=') = true) = false := by
    intro c hc
    rcases ht c hc with rfl | rfl <;> rfl
  have hu : (entry.trim.upTo '=').upTo ':' = name.1 ++ gap.1 := by
    rw [Text.upTo, Text.upTo, List.takeWhile_takeWhile, h, ← List.append_assoc]
    exact Text.takeWhile_append_of_stop hp hs
  obtain ⟨c, r, hn, hc, -⟩ := Text.exists_cons_of_isIdentifier name.2
  have hd : c ≠ .char '.' := CodePoint.ne_of_class hc (by decide)
  have hw : (entry.trim.isEmpty || entry.trim.startsWith "...") = false := by
    simp [h, hn, Text.startsWith, Text.ofString, List.isPrefixOf, hd.symm]
  simp only [boundName?, hw, hu, name.trim_append gap, name.2, Bool.false_eq_true, if_true,
    if_false]

theorem boundName?_rest {entry t : Text} (h : entry.trim = "..." ++ t) :
    boundName? entry = none := by
  have hs : Text.startsWith ("..." ++ t) "..." := Text.startsWith_append "..." t
  simp [boundName?, h, hs]

theorem boundName?_render (p : Padded (Binder g)) :
    boundName? (p.render Binder.render) = p.part.name? := by
  have ht := p.trim_render Binder.render
  obtain ⟨lead, binder, trail⟩ := p
  -- what follows the name is cut off, so only the first sign behind the name matters
  have hname : ∀ (name : Identifier) (gap : Gap) (stop : CodePoint) (t : Text),
      stop = .char ':' ∨ stop = .char '=' → binder.render = name.1 ++ (gap.1 ++ stop :: t) →
      boundName? (Padded.render Binder.render ⟨lead, binder, trail⟩) = some name.1 := by
    intro name gap stop t hstop hb
    have hblank : stop.isBlank = false := by
      rcases hstop with rfl | rfl <;> decide
    have hv := Text.trim_append_cons (name.isBlank_head_append gap.1) hblank t
    rw [List.append_assoc, List.append_assoc] at hv
    refine boundName?_named name gap ?_ (ht.trans ((congrArg Text.trim hb).trans hv))
    intro c hc
    obtain rfl : stop = c := by simpa using hc
    exact hstop
  cases binder with
  | named name rename fallback =>
    obtain _ | ⟨before, behind, target⟩ := rename
    · obtain _ | ⟨before, value⟩ := fallback
      · have hv := name.trim_append ⟨[], rfl⟩
        refine boundName?_named name ⟨[], rfl⟩ (t := []) (by simp) (ht.trans (hv.trans ?_))
        exact (List.append_nil _).symm
      · exact hname name before _ _ (.inr rfl) rfl
    · refine hname name before (.char ':') (behind.1 ++ (target.1 ++ Binder.fallbackText fallback))
        (.inl rfl) ?_
      simp [Binder.render, Binder.renameText]
  | rest name =>
    have hv := Text.trim_append_cons (s := "..") (c := .char '.') (by decide) (by decide) name.1
    exact boundName?_rest (ht.trans hv)

theorem Binding.boundNames_inside (b : Binding g) : boundNames b.inside = b.names :=
  CommaList.filterMap_pieces_render Binder.balanced (fun _ => boundName?_of_isBlank)
    boundName?_render b.binders

end Names

end Source

namespace Grammar.IsApart

variable {g : Grammar} (h : g.IsApart)

include h

theorem forall_wrapper : ∀ c ∈ g.wrapper, c.isAscii ∧ c.isName := fun c hc =>
  ⟨List.all_eq_true.1 h.wrapperAscii c hc, Text.forall_isName_of_isIdentifier h.wrapper c hc⟩

theorem forall_carrier : ∀ c ∈ g.carrier, c.isAscii ∧ (c = .char '.' ∨ c.isName) := fun c hc =>
  ⟨List.all_eq_true.1 h.carrierAscii c hc, (Text.eq_or_mem_of_mem hc).imp id fun ⟨p, hp, hm⟩ =>
    Text.forall_isName_of_isIdentifier (h.carrier p hp) c hm⟩

/-- The carrier is an identifier, and a point comes next if anything does. -/
theorem exists_carrier_eq : ∃ rest, g.carrier = g.carrier.upTo '.' ++ rest ∧
    (g.carrier.upTo '.').isIdentifier ∧ ∀ c ∈ rest.head?, c = .char '.' := by
  obtain ⟨ps, hp⟩ := Text.exists_cut_eq_upTo_cons (.char '.') g.carrier
  refine ⟨g.carrier.dropWhile (· != .char '.'), List.takeWhile_append_dropWhile.symm,
    h.carrier _ (by simp [hp]), fun c hc => ?_⟩
  have hd := List.head?_dropWhile_not (p := (· != CodePoint.char '.')) (l := g.carrier)
  rw [Option.mem_def.1 hc] at hd
  simpa using hd

theorem exists_cons_carrier : ∃ c r, g.carrier = c :: r ∧ c.isNameStart := by
  obtain ⟨rest, he, hi, -⟩ := h.exists_carrier_eq
  obtain ⟨c, r, hc, hs, -⟩ := Text.exists_cons_of_isIdentifier hi
  exact ⟨c, r ++ rest, by rw [he, hc]; rfl, hs⟩

theorem agree_variant (w : Source.Variant g) : Text.Agree g.wrapper w.1 :=
  (Text.agree_iff_lower_eq h.wrapperAscii w.2.1).2 w.2.2.symm

theorem forall_variant (w : Source.Variant g) : ∀ c ∈ w.1, c.isName := by
  intro c hc
  obtain ⟨d, hd, ha⟩ := (h.agree_variant w).exists_of_mem hc
  obtain ⟨h₁, h₂⟩ := h.forall_wrapper d hd
  rwa [← CodePoint.isName_eq_of_agrees h₁ (List.all_eq_true.1 w.2.1 c hc) ha]

theorem carrier_notBrace : ∀ c ∈ g.carrier, Source.notBrace c := by
  intro c hc
  rcases (h.forall_carrier c hc).2 with rfl | hn
  · decide
  · exact Source.notBrace_of_class hn (by decide) (by decide)

theorem lookup_notBrace (a : Source.Lookup) : ∀ c ∈ a.render g.carrier, Source.notBrace c := by
  have hk : ∀ w ∈ Source.keywords, ∀ c ∈ w, Source.notBrace c := by decide
  have hs : ∀ c ∈ a.chain.flatMap Source.Step.render, Source.notBrace c := by
    intro c hc
    obtain ⟨step, -, hc⟩ := List.mem_flatMap.1 hc
    rcases List.mem_append.1 hc with hc | hc
    · exact step.notBrace_mark c hc
    · exact step.name.notBrace c hc
  simp only [Source.Lookup.render, List.forall_mem_append, List.forall_mem_cons]
  exact ⟨hk _ a.keyword.2, a.behindKeyword.notBrace, a.target.notBrace, a.beforeEquals.notBrace,
    by decide, a.behindEquals.notBrace, h.carrier_notBrace, hs⟩

end Grammar.IsApart

end RouteAtlas
