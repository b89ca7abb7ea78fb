import Mathlib.Data.List.Basic
import Mathlib.Tactic.Common
import RouteAtlas.Proofs.Owner.Declarations
import RouteAtlas.Proofs.Text.Order

/-!
# Handlers of a controller file

The handlers of a file of declarations and export lists are the declared names that end in the
suffix and the names that the lists export, each once.
-/

namespace RouteAtlas.Owner

/-- White space within a line. -/
abbrev Blanks := {t : Text // t.isBlank ∧ .char '\n' ∉ t}

abbrev SomeBlanks := {t : Text // t ≠ [] ∧ t.isBlank ∧ .char '\n' ∉ t}

/-- A letter or a low line with word characters behind it. -/
def IsIdentifier (t : Text) : Prop := ∃ c r, t = c :: r ∧ (c.isLatin ∨ c = '_') ∧ ∀ d ∈ r, d.isWord

abbrev Identifier := {t : Text // IsIdentifier t}

def keywords : List Text := ["export", "const", "function", "def"]

/-- What stands behind a declaration or a list on its line. -/
abbrev Tail := {t : Text // .char '\n' ∉ t ∧ ∀ k ∈ keywords, ¬ k <:+: t}

inductive Kind where
  | const
  | function
  | definition
  deriving DecidableEq

namespace Kind

def word : Kind → Text
  | const => "const"
  | function => "function"
  | definition => "def"

def mark : Kind → CodePoint
  | const => '='
  | function => '('
  | definition => '('

end Kind

def optionalWord (w : Text) : Option SomeBlanks → Text
  | none => []
  | some gap => w ++ gap.1

/-- The declaration of a name; a `def` is not exported. -/
structure Declaration where
  indent : Blanks
  exported : Option SomeBlanks
  async : Option SomeBlanks
  kind : Kind
  behindWord : SomeBlanks
  name : Identifier
  beforeMark : Blanks
  tail : Tail
  notExported : kind = .definition → exported = none

namespace Declaration

variable (d : Declaration)

def marked : Text := d.beforeMark.1 ++ d.kind.mark :: d.tail.1

def core : Text := d.kind.word ++ (d.behindWord.1 ++ (d.name.1 ++ d.marked))

def render : Text :=
  d.indent.1 ++ (optionalWord "export" d.exported ++ (optionalWord "async" d.async ++ d.core))

end Declaration

structure Rename where
  before : SomeBlanks
  behind : SomeBlanks
  name : Identifier

/-- A name in an export list, perhaps renamed, with the white space around it. -/
structure Item where
  lead : Blanks
  original : Identifier
  rename : Option Rename
  trail : Blanks

namespace Item

def renameText : Option Rename → Text
  | none => []
  | some r => r.before.1 ++ ("as" ++ (r.behind.1 ++ r.name.1))

def core (i : Item) : Text := i.original.1 ++ renameText i.rename

def render (i : Item) : Text := i.lead.1 ++ (i.core ++ i.trail.1)

/-- Whether the suffix stands in an item: in its name, in the new name or in the word between. -/
def Shows (suffix : Text) (i : Item) : Prop :=
  suffix <:+: i.original.1 ∨
    ∃ r, i.rename = some r ∧ (suffix <:+: r.name.1 ∨ suffix <:+: "as")

end Item

structure ExportList where
  indent : Blanks
  beforeBrace : Blanks
  first : Item
  more : List Item
  tail : Tail

namespace ExportList

variable (l : ExportList)

def items : List Item := l.first :: l.more

def body : Text := Text.join "," (l.items.map Item.render)

def render : Text :=
  l.indent.1 ++ ("export" ++ (l.beforeBrace.1 ++ .char '{' :: (l.body ++ .char '}' :: l.tail.1)))

end ExportList

inductive Line where
  | blank (gap : Blanks)
  | declaration (d : Declaration)
  | list (l : ExportList)

def Line.render : Line → Text
  | blank gap => gap.1
  | declaration d => d.render
  | list l => l.render

def sourceText (lines : List Line) : Text := Text.join "\n" (lines.map Line.render)

def behind (lines : List Line) : Text := if lines = [] then [] else .char '\n' :: sourceText lines

theorem sourceText_cons (l : Line) (ls : List Line) :
    sourceText (l :: ls) = l.render ++ behind ls := by
  cases ls with
  | nil => simp [sourceText, Text.join, behind]
  | cons m ls => exact Text.join_cons_cons _ _ _ _

section Characters

variable {c : CodePoint}

theorem isWord_of_isLatin (h : c.isLatin) : c.isWord :=
  of_within (p := fun n => within n CodePoint.wordRanges) (by decide +kernel) h

theorem Identifier.forall_isWord (name : Identifier) : ∀ c ∈ name.1, c.isWord := by
  obtain ⟨c, r, hn, hc, hr⟩ := name.2
  rw [hn]
  refine List.forall_mem_cons.2 ⟨?_, hr⟩
  rcases hc with hc | rfl
  · exact isWord_of_isLatin hc
  · decide

theorem Identifier.ne_nil (name : Identifier) : name.1 ≠ [] := by
  obtain ⟨c, r, hn, -⟩ := name.2
  simp [hn]

theorem keywords_latin : ∀ k ∈ keywords, ∀ c ∈ k, c.isLatin := by decide

theorem keywords_ne_nil : ∀ k ∈ keywords, k ≠ [] := by decide

theorem not_mem_keyword {k : Text} (hk : k ∈ keywords) (h : c.isWord = false) : c ∉ k := by
  intro hc
  simp [isWord_of_isLatin (keywords_latin k hk c hc)] at h

theorem not_mem_keyword_of_isBlank {k : Text} (hk : k ∈ keywords) (h : c.isBlank) : c ∉ k :=
  not_mem_keyword hk (CodePoint.isWord_of_isBlank h)

theorem mem_keywords_of_mem_declarationWords {k : Text} (h : k ∈ declarationWords) :
    k ∈ keywords := List.mem_cons_of_mem _ h

end Characters

theorem trimLeft_append_word {gap x t : Text} (hb : gap.isBlank) (hne : x ≠ [])
    (hx : ∀ c ∈ x, c.isWord) : (gap ++ (x ++ t)).trimLeft = x ++ t := by
  obtain ⟨c, x, rfl⟩ := List.exists_cons_of_ne_nil hne
  exact (Text.trimLeft_append hb _).trans
    (Text.trimLeft_cons (CodePoint.isBlank_of_isWord (hx c (by simp))) _)

section Standing

variable {k v t : Text}

theorem stands_of_blanks {gap : Text} (hk : k ∈ keywords) (hb : gap.isBlank)
    (h : Text.Stands k v (gap ++ t)) : Text.Stands k v t := by
  rcases List.eq_nil_or_concat gap with rfl | ⟨gap, c, rfl⟩
  · exact h
  · have hw : ∀ e ∈ gap.concat c, e ∉ k := fun e he =>
      not_mem_keyword_of_isBlank hk (Text.forall_of_isBlank hb e he)
    have hs : Text.Stands k v ([] ++ (gap.concat c ++ t)) := h
    refine (hs.of_append (keywords_ne_nil k hk) (by simp) hw).resolve_left ?_
    rintro ⟨v', hv, -⟩
    exact keywords_ne_nil k hk (List.infix_nil.1 hv.isInfix)

theorem stands_of_append_blanks {w : Text} {gap : SomeBlanks} (hk : k ∈ keywords)
    (h : Text.Stands k v (w ++ (gap.1 ++ t))) :
    (∃ v', Text.Stands k v' w ∧ v = v' ++ (gap.1 ++ t)) ∨ Text.Stands k v t :=
  h.of_append (keywords_ne_nil k hk) gap.2.1 fun c hc =>
    not_mem_keyword_of_isBlank hk (Text.forall_of_isBlank gap.2.2.1 c hc)

theorem eq_nil_of_stands (h : Text.Stands k v k) : v = [] := by
  obtain ⟨u, h⟩ := h
  have := congrArg List.length h
  simp only [List.length_append] at this
  exact List.length_eq_zero_iff.1 (by omega)

theorem stands_optionalWord {w : Text} {gap : Option SomeBlanks} (hk : k ∈ keywords)
    (h : Text.Stands k v (optionalWord w gap ++ t)) :
    (∃ g v', gap = some g ∧ Text.Stands k v' w ∧ v = v' ++ (g.1 ++ t)) ∨ Text.Stands k v t := by
  cases gap with
  | none => exact .inr h
  | some g =>
    rw [optionalWord, List.append_assoc] at h
    refine (stands_of_append_blanks hk h).imp_left ?_
    rintro ⟨v', hs, hv⟩
    exact ⟨g, v', rfl, hs, hv⟩

end Standing

namespace Declaration

variable {k v : Text} (d : Declaration)

theorem isMark_mark : IsMark d.kind.mark := by
  cases d.kind <;> simp [Kind.mark, IsMark]

/-- A keyword in a declaration is its export word, its declaration word or a part of the name. -/
inductive KeywordAt (k : Text) : Text → Prop
  | exported {gap t : Text} {c : CodePoint} (hk : k = "export") (hb : gap.isBlank)
      (hc : c.isLatin) : KeywordAt k (gap ++ c :: t)
  | own (hk : k = d.kind.word) : KeywordAt k (d.behindWord.1 ++ (d.name.1 ++ d.marked))
  | inName {n : Text} (hn : ∀ c ∈ n, c.isWord) : KeywordAt k (n ++ d.marked)

theorem exists_letter : ∃ c t, optionalWord "async" d.async ++ d.core = c :: t ∧ c.isLatin := by
  have hw : ∃ c t, d.kind.word = c :: t ∧ c.isLatin := by
    cases d.kind
    · exact ⟨'c', "onst", by decide, by decide⟩
    · exact ⟨'f', "unction", by decide, by decide⟩
    · exact ⟨'d', "ef", by decide, by decide⟩
  cases d.async with
  | none =>
    obtain ⟨c, t, hw, hc⟩ := hw
    exact ⟨c, t ++ (d.behindWord.1 ++ (d.name.1 ++ d.marked)), by simp [optionalWord, core, hw], hc⟩
  | some g => exact ⟨'a', "sync" ++ g.1 ++ d.core, rfl, by decide⟩

theorem keywordAt_of_stands (hk : k ∈ keywords) (h : Text.Stands k v d.render) :
    d.KeywordAt k v := by
  have hexport : ∀ k ∈ keywords, k <:+: ("export" : Text) → k = "export" := by decide +kernel
  have hasync : ∀ k ∈ keywords, ¬ k <:+: ("async" : Text) := by decide +kernel
  have hword : ∀ k ∈ keywords, k <:+: d.kind.word → k = d.kind.word := by
    cases d.kind <;> decide +kernel
  rcases stands_optionalWord hk (stands_of_blanks hk d.indent.2.1 h) with
    ⟨g, v', -, hs, rfl⟩ | h
  · obtain rfl := hexport k hk hs.isInfix
    obtain rfl := eq_nil_of_stands hs
    obtain ⟨c, t, ht, hc⟩ := d.exists_letter
    rw [List.nil_append, ht]
    exact .exported rfl g.2.2.1 hc
  rcases stands_optionalWord hk h with ⟨g, v', -, hs, rfl⟩ | h
  · exact absurd hs.isInfix (hasync k hk)
  rcases stands_of_append_blanks hk h with ⟨v', hs, rfl⟩ | h
  · obtain rfl := hword k hk hs.isInfix
    obtain rfl := eq_nil_of_stands hs
    exact .own rfl
  have he : d.name.1 ++ d.marked = d.name.1 ++ ((d.beforeMark.1 ++ [d.kind.mark]) ++ d.tail.1) := by
    simp [marked]
  have hm : ∀ c ∈ d.beforeMark.1 ++ [d.kind.mark], c ∉ k := by
    intro c hc
    rcases List.mem_append.1 hc with hc | hc
    · exact not_mem_keyword_of_isBlank hk (Text.forall_of_isBlank d.beforeMark.2.1 c hc)
    · exact not_mem_keyword hk (List.mem_singleton.1 hc ▸ d.isMark_mark.isWord)
  rw [he] at h
  rcases h.of_append (keywords_ne_nil k hk) (by simp) hm with ⟨v', ⟨u, hs⟩, rfl⟩ | h
  · have hn : v' ++ ((d.beforeMark.1 ++ [d.kind.mark]) ++ d.tail.1) = v' ++ d.marked := by
      simp [marked]
    rw [hn]
    exact .inName fun c hc => d.name.forall_isWord c (by simp [hs, hc])
  · exact absurd h.isInfix (d.tail.2.2 k hk)

theorem marked_append (t : Text) :
    d.marked ++ t = d.beforeMark.1 ++ d.kind.mark :: (d.tail.1 ++ t) := by
  simp [marked]

theorem trimLeft_marked_append (t : Text) :
    (d.marked ++ t).trimLeft = d.kind.mark :: (d.tail.1 ++ t) := by
  rw [marked_append, Text.trimLeft_append d.beforeMark.2.1,
    Text.trimLeft_cons d.isMark_mark.isBlank]

/-- The name that follows a declaration word in a declaration is the declared one. -/
theorem name_eq_of_names {x r t : Text} (hk : k ∈ declarationWords) (h : d.KeywordAt k v)
    (hn : Names IsMark x r (v ++ t)) : x = d.name.1 := by
  generalize hv : v ++ t = s at hn
  obtain @⟨gap, gap', m, hg, hb, hne, hx, hb', hm⟩ := hn
  cases h with
  | exported hk' => exact absurd hk (hk' ▸ by decide)
  | own =>
    have ht := congrArg Text.trimLeft hv
    rw [List.append_assoc, List.append_assoc, trimLeft_append_word d.behindWord.2.2.1 d.name.ne_nil
      d.name.forall_isWord, trimLeft_append_word hb hne hx, marked_append] at ht
    have hw := congrArg (List.takeWhile CodePoint.isWord) ht
    rw [Text.takeWhile_append_of_stop d.name.forall_isWord
      (isWord_head?_gap_append d.beforeMark.2.1 d.isMark_mark),
      Text.takeWhile_append_of_stop hx (isWord_head?_gap_append hb' hm)] at hw
    exact hw.symm
  | @inName n hn =>
    exfalso
    cases n with
    | nil =>
      have ht := congrArg Text.trimLeft hv
      rw [List.nil_append, trimLeft_marked_append, trimLeft_append_word hb hne hx] at ht
      obtain ⟨c, x, rfl⟩ := List.exists_cons_of_ne_nil hne
      have hc := hx c (by simp)
      rw [← (List.cons.inj ht).1, d.isMark_mark.isWord] at hc
      cases hc
    | cons c n =>
      obtain ⟨e, gap, rfl⟩ := List.exists_cons_of_ne_nil hg
      obtain rfl := (List.cons.inj hv).1
      have hc := CodePoint.isBlank_of_isWord (hn c (by simp))
      simp [Text.forall_of_isBlank hb c (by simp)] at hc

/-- No brace follows an export word in a declaration. -/
theorem not_brace_of_keywordAt {gap t r : Text} (h : d.KeywordAt "export" v) (hb : gap.isBlank) :
    v ++ t ≠ gap ++ .char '{' :: r := by
  intro hv
  have ht := congrArg Text.trimLeft hv
  rw [Text.trimLeft_append hb, Text.trimLeft_cons (by decide)] at ht
  have hbrace : (.char '{' : CodePoint).isWord = false := by decide
  cases h with
  | @exported gap' t' c _ hb' hc =>
    have hw := isWord_of_isLatin hc
    rw [List.append_assoc, Text.trimLeft_append hb', List.cons_append,
      Text.trimLeft_cons (CodePoint.isBlank_of_isWord hw)] at ht
    rw [(List.cons.inj ht).1, hbrace] at hw
    cases hw
  | own hk =>
    revert hk
    cases d.kind <;> decide
  | @inName n hn =>
    cases n with
    | nil =>
      rw [List.nil_append, trimLeft_marked_append] at ht
      have hm := d.isMark_mark
      rw [(List.cons.inj ht).1] at hm
      exact absurd hm (by decide)
    | cons c n =>
      have hw := hn c (by simp)
      rw [List.cons_append, List.cons_append,
        Text.trimLeft_cons (CodePoint.isBlank_of_isWord hw)] at ht
      rw [(List.cons.inj ht).1, hbrace] at hw
      cases hw

end Declaration

namespace Item

theorem forall_core (i : Item) : ∀ c ∈ i.core, c.isBlank ∨ c.isWord := by
  have has : ∀ c ∈ ("as" : Text), c.isWord := by decide
  intro c hc
  rcases List.mem_append.1 hc with hc | hc
  · exact .inr (i.original.forall_isWord c hc)
  cases hr : i.rename with
  | none => simp [hr, renameText] at hc
  | some r =>
    simp only [hr, renameText, List.mem_append] at hc
    rcases hc with hc | hc | hc | hc
    · exact .inl (Text.forall_of_isBlank r.before.2.2.1 c hc)
    · exact .inr (has c hc)
    · exact .inl (Text.forall_of_isBlank r.behind.2.2.1 c hc)
    · exact .inr (r.name.forall_isWord c hc)

theorem forall_render (i : Item) : ∀ c ∈ i.render, c.isBlank ∨ c.isWord := by
  intro c hc
  simp only [render, List.mem_append] at hc
  rcases hc with hc | hc | hc
  · exact .inl (Text.forall_of_isBlank i.lead.2.1 c hc)
  · exact i.forall_core c hc
  · exact .inl (Text.forall_of_isBlank i.trail.2.1 c hc)

theorem not_mem_render {c : CodePoint} (i : Item) (hb : c.isBlank = false) (hw : c.isWord = false) :
    c ∉ i.render := by
  intro hc
  rcases i.forall_render c hc with h | h
  · simp [h] at hb
  · simp [h] at hw

end Item

namespace ExportList

variable {k v x r t : Text} (l : ExportList)

theorem not_mem_body {c : CodePoint} (hb : c.isBlank = false) (hw : c.isWord = false)
    (hc : c ≠ ',') : c ∉ l.body := by
  intro h
  rcases Text.mem_join h with h | ⟨t, ht, h⟩
  · exact hc (by simpa [Text.ofString] using h)
  · obtain ⟨i, -, rfl⟩ := List.mem_map.1 ht
    exact i.not_mem_render hb hw h

/-- In the items up to the closing brace no name has its mark behind it: the first mark and the
brace exclude each other. -/
theorem not_names_of_suffix (h : v <:+ l.body) : ¬ Names IsMark x r (v ++ .char '}' :: t) := by
  intro hn
  generalize hv : v ++ .char '}' :: t = s at hn
  obtain @⟨gap, gap', m, -, hb, -, hx, hb', hm⟩ := hn
  have hne : (.char '}' : CodePoint) ≠ m := by
    rintro rfl
    exact absurd hm (by decide)
  have hv : v ++ .char '}' :: t = (gap ++ (x ++ gap')) ++ m :: r := by simpa using hv
  rcases Text.mem_or_mem_of_append_eq hne hv with hc | hc
  · simp only [List.mem_append] at hc
    rcases hc with hc | hc | hc
    · exact absurd (Text.forall_of_isBlank hb _ hc) (by decide)
    · exact absurd (hx _ hc) (by decide)
    · exact absurd (Text.forall_of_isBlank hb' _ hc) (by decide)
  · have hcomma : m ≠ ',' := by
      rintro rfl
      exact absurd hm (by decide)
    exact l.not_mem_body hm.isBlank hm.isWord hcomma (h.subset hc)

/-- No name that is declared follows a declaration word in an export list. -/
theorem not_names_of_stands (hk : k ∈ declarationWords) (h : Text.Stands k v l.render) :
    ¬ Names IsMark x r (v ++ t) := by
  have hkw := mem_keywords_of_mem_declarationWords hk
  have hexport : ∀ k ∈ declarationWords, ¬ k <:+: ("export" : Text) := by decide +kernel
  have h := stands_of_blanks hkw l.indent.2.1 h
  have he : ("export" : Text) ++
        (l.beforeBrace.1 ++ .char '{' :: (l.body ++ .char '}' :: l.tail.1)) =
      ("export" : Text) ++
        ((l.beforeBrace.1 ++ [.char '{']) ++ (l.body ++ .char '}' :: l.tail.1)) := by
    simp
  have hg : ∀ c ∈ l.beforeBrace.1 ++ [.char '{'], c ∉ k := by
    intro c hc
    rcases List.mem_append.1 hc with hc | hc
    · exact not_mem_keyword_of_isBlank hkw (Text.forall_of_isBlank l.beforeBrace.2.1 c hc)
    · exact not_mem_keyword hkw (List.mem_singleton.1 hc ▸ by decide)
  rw [he] at h
  rcases h.of_append (keywords_ne_nil k hkw) (by simp) hg with ⟨v', hs, -⟩ | h
  · exact absurd hs.isInfix (hexport k hk)
  rcases h.of_append_cons (not_mem_keyword hkw (by decide)) with ⟨v', ⟨u, hs⟩, rfl⟩ | h
  · rw [List.append_assoc, List.cons_append]
    exact l.not_names_of_suffix ⟨u ++ k, by simpa using hs.symm⟩
  · exact absurd h.isInfix (l.tail.2.2 k hkw)

end ExportList

section Declared

variable {k v x r t suffix : Text}

theorem Line.exists_declaration {l : Line} (hk : k ∈ declarationWords)
    (h : Text.Stands k v l.render) (hn : Names IsMark x r (v ++ t)) :
    ∃ d, l = .declaration d ∧ d.name.1 = x := by
  have hkw := mem_keywords_of_mem_declarationWords hk
  cases l with
  | blank gap =>
    have hs : Text.Stands k v (gap.1 ++ []) := by rwa [List.append_nil]
    exact absurd (List.infix_nil.1 (stands_of_blanks hkw gap.2.1 hs).isInfix)
      (keywords_ne_nil k hkw)
  | declaration d => exact ⟨d, rfl, (d.name_eq_of_names hk (d.keywordAt_of_stands hkw h) hn).symm⟩
  | list l => exact absurd hn (l.not_names_of_stands hk h)

theorem exists_declaration_of_stands {lines : List Line} (hk : k ∈ declarationWords)
    (h : Text.Stands k v (sourceText lines)) (hn : Names IsMark x r v) :
    ∃ d, .declaration d ∈ lines ∧ d.name.1 = x := by
  have hkw := mem_keywords_of_mem_declarationWords hk
  induction lines with
  | nil => exact absurd (List.infix_nil.1 h.isInfix) (keywords_ne_nil k hkw)
  | cons l ls ih =>
    have hl : (∃ t v', Text.Stands k v' l.render ∧ v = v' ++ t) ∨
        Text.Stands k v (sourceText ls) := by
      rw [sourceText_cons, behind] at h
      split at h
      · rw [List.append_nil] at h
        exact .inl ⟨[], v, h, by simp⟩
      · rcases h.of_append_cons (not_mem_keyword hkw (by decide)) with ⟨v', hs, hv⟩ | h
        · exact .inl ⟨_, v', hs, hv⟩
        · exact .inr h
    rcases hl with ⟨t, v', hs, rfl⟩ | h
    · obtain ⟨d, rfl, hx⟩ := Line.exists_declaration hk hs hn
      exact ⟨d, by simp, hx⟩
    · obtain ⟨d, hd, hx⟩ := ih h
      exact ⟨d, by simp [hd], hx⟩

theorem exists_sourceText_eq {l : Line} {lines : List Line} (h : l ∈ lines) :
    ∃ u ls, sourceText lines = u ++ (l.render ++ behind ls) ∧
      u.getLast?.all fun c : CodePoint => c == '\n' := by
  induction lines with
  | nil => cases h
  | cons m ls ih =>
    rcases List.mem_cons.1 h with rfl | h
    · exact ⟨[], ls, sourceText_cons l ls, rfl⟩
    · obtain ⟨u, rest, he, hu⟩ := ih h
      refine ⟨m.render ++ .char '\n' :: u, rest, ?_, ?_⟩
      · rw [sourceText_cons, behind, if_neg (List.ne_nil_of_mem h), he]
        simp
      · cases hl : u.getLast? with
        | none => simp [List.getLast?_append, List.getLast?_cons, hl]
        | some c => simpa [List.getLast?_append, List.getLast?_cons, hl] using hu

theorem Declaration.names (d : Declaration) {p : CodePoint → Prop} (hm : p d.kind.mark) (t : Text) :
    Names p d.name.1 (d.tail.1 ++ t) (d.behindWord.1 ++ (d.name.1 ++ (d.marked ++ t))) := by
  rw [d.marked_append]
  exact .intro d.behindWord.2.1 d.behindWord.2.2.1 d.name.ne_nil d.name.forall_isWord
    d.beforeMark.2.1 hm

theorem forms_find_declaration (d : Declaration) (hs : ∀ c ∈ suffix, c.isWord)
    (hx : Suffixed suffix d.name.1) {u : Text} (hu : u.getLast?.all fun c : CodePoint => c == '\n')
    (t : Text) :
    ∃ p ∈ forms suffix, ∃ v s, u ++ (d.render ++ t) = v ++ s ∧
      p v.getLast? s = some (d.name.1, d.tail.1 ++ t) := by
  have hany : ∀ w : Text, w = "const" ∨ w = "function" → d.kind.word = w →
      ∃ p ∈ forms suffix, ∃ v s, u ++ (d.render ++ t) = v ++ s ∧
        p v.getLast? s = some (d.name.1, d.tail.1 ++ t) := by
    intro w hw hk
    refine ⟨fun _ => declaredAnyhow? suffix, by simp [forms],
      u ++ (d.indent.1 ++ (optionalWord "export" d.exported ++ optionalWord "async" d.async)),
      w ++ (d.behindWord.1 ++ (d.name.1 ++ (d.marked ++ t))), ?_, ?_⟩
    · simp [Declaration.render, Declaration.core, hk]
    · exact declaredAnyhow?_append hw hs hx (d.names (by cases d.kind <;> decide) t)
  cases hk : d.kind with
  | const => exact hany "const" (.inl rfl) (hk ▸ rfl)
  | function => exact hany "function" (.inr rfl) (hk ▸ rfl)
  | definition =>
    refine ⟨defined? suffix, by simp [forms], u, d.render ++ t, rfl, ?_⟩
    have hn := d.names (p := (· ∈ [(.char '(' : CodePoint)])) (by rw [hk]; decide) t
    cases ha : d.async with
    | none =>
      have he : d.render ++ t =
          d.indent.1 ++ ("def" ++ (d.behindWord.1 ++ (d.name.1 ++ (d.marked ++ t)))) := by
        simp [Declaration.render, Declaration.core, d.notExported hk, ha, hk, optionalWord,
          Kind.word]
      rw [he]
      exact defined?_append hu d.indent.2.1 hs hx hn
    | some g =>
      have he : d.render ++ t = d.indent.1 ++ ("async" ++ (g.1 ++ ("def" ++
          (d.behindWord.1 ++ (d.name.1 ++ (d.marked ++ t)))))) := by
        simp [Declaration.render, Declaration.core, d.notExported hk, ha, hk, optionalWord,
          Kind.word]
      rw [he]
      exact defined?_async_append hu d.indent.2.1 g.2.1 g.2.2.1 hs hx hn

theorem mem_declared_iff {lines : List Line} (hs : ∀ c ∈ suffix, c.isWord) :
    x ∈ (forms suffix).flatMap (fun p => (Text.occurrences p (sourceText lines)).map (·.1)) ↔
      ∃ d, .declaration d ∈ lines ∧ d.name.1 = x ∧ Suffixed suffix x := by
  rw [List.mem_flatMap]
  constructor
  · rintro ⟨p, hp, h⟩
    obtain ⟨u, s, r, hus, h⟩ :=
      (mem_occurrences_iff fun before t x r h => (declares_of_mem_forms hs hp h).1).1 h
    obtain ⟨hd, hx⟩ := declares_of_mem_forms hs hp h
    obtain @⟨a, k, v, -, hk, hn⟩ := hd
    have hst : Text.Stands k v (sourceText lines) := ⟨u ++ a, by simp [hus]⟩
    obtain ⟨d, hd, hdx⟩ := exists_declaration_of_stands hk hst hn
    exact ⟨d, hd, hdx, hx⟩
  · rintro ⟨d, hd, rfl, hx⟩
    obtain ⟨u, ls, he, hu⟩ := exists_sourceText_eq hd
    obtain ⟨p, hp, v, s, hvs, h⟩ := forms_find_declaration d hs hx hu (behind ls)
    refine ⟨p, hp, (mem_occurrences_iff fun before t x r h =>
      (declares_of_mem_forms hs hp h).1).2 ⟨v, s, _, he.trans hvs, h⟩⟩

end Declared

section Lists

variable {k v x r t u body suffix : Text} {before : Option CodePoint}

theorem exportList_eq_some (h : exportList before t = some (body, r)) :
    ∃ gap, t = "export" ++ (gap ++ .char '{' :: (body ++ .char '}' :: r)) ∧ gap.isBlank := by
  obtain ⟨s, hs, h⟩ := Option.bind_eq_some_iff.1 h
  obtain ⟨s', hs', h⟩ := Option.bind_eq_some_iff.1 h
  obtain ⟨-, -, h⟩ := Option.bind_eq_some_iff.1 h
  obtain ⟨r', hr, h⟩ := Option.bind_eq_some_iff.1 h
  obtain ⟨rfl, rfl⟩ := Prod.mk.inj (Option.some.inj h)
  obtain ⟨gap, hb, he⟩ := Text.exists_append_trimLeft s
  refine ⟨gap, ?_, hb⟩
  obtain ⟨w, hw⟩ : s'.upTo '}' <+: s' := List.takeWhile_prefix _
  generalize s'.upTo '}' = body at hw hr ⊢
  rw [← hw, List.drop_left] at hr
  rw [Text.eq_append_of_after hs, he, Text.eq_append_of_after hs', ← hw,
    Text.eq_append_of_after hr]
  rfl

theorem exportList_append {gap : Text} (hb : gap.isBlank) (hne : body ≠ [])
    (hm : .char '}' ∉ body) :
    exportList before ("export" ++ (gap ++ .char '{' :: (body ++ .char '}' :: r))) =
      some (body, r) := by
  have ht : (gap ++ .char '{' :: (body ++ .char '}' :: r)).trimLeft =
      .char '{' :: (body ++ .char '}' :: r) :=
    (Text.trimLeft_append hb _).trans (Text.trimLeft_cons (by decide) _)
  have ha : Text.after "\x7b" (.char '{' :: (body ++ .char '}' :: r)) =
      some (body ++ .char '}' :: r) := Text.after_append "\x7b" _
  have ha' : Text.after "\x7d" (.char '}' :: r) = some r := Text.after_append "\x7d" _
  have hu : (body ++ .char '}' :: r).upTo '}' = body :=
    Text.takeWhile_append_of_stop (fun c hc => by simpa using ne_of_mem_of_not_mem hc hm) (by simp)
  simp [exportList, ht, ha, ha', hu, hne, guard]

theorem refuses_exportList {c : CodePoint} (hc : c ≠ 'e') : Text.Refuses exportList c := by
  intro before t
  rw [Option.eq_none_iff_forall_ne_some]
  rintro ⟨body, r⟩ h
  obtain ⟨gap, he, -⟩ := exportList_eq_some h
  exact hc (List.cons.inj he).1

theorem exists_of_append_eq (hk : .char '\n' ∉ k) (ht : ∀ c ∈ t.head?, c = .char '\n')
    (h : u ++ t = k ++ x) : ∃ v, u = k ++ v ∧ x = v ++ t := by
  rcases List.append_eq_append_iff.1 h with ⟨y, rfl, rfl⟩ | ⟨y, rfl, rfl⟩
  · cases y with
    | nil => exact ⟨[], by simp, rfl⟩
    | cons c y => exact absurd (ht c (by simp)) (by rintro rfl; simp at hk)
  · exact ⟨y, rfl, rfl⟩

/-- Lists are not found in text where no brace follows an export word. -/
theorem misses_exportList (ht : ∀ c ∈ t.head?, c = .char '\n')
    (h : ∀ v, Text.Stands "export" v u → ∀ gap r : Text, gap.isBlank →
      v ++ t ≠ gap ++ .char '{' :: r) :
    Text.Misses exportList before u t := by
  refine Text.misses_iff.2 fun v c w he => ?_
  rw [Option.eq_none_iff_forall_ne_some]
  rintro ⟨body, r⟩ hr
  obtain ⟨gap, he', hb⟩ := exportList_eq_some hr
  obtain ⟨v', hv, hx⟩ := exists_of_append_eq (u := c :: w) (by decide) ht he'
  exact h v' ⟨v, by rw [he, hv]⟩ gap _ hb hx.symm

theorem Tail.misses_exportList (tail : Tail) (ht : ∀ c ∈ t.head?, c = .char '\n') :
    Text.Misses exportList before tail.1 t :=
  Owner.misses_exportList ht fun _ hs => absurd hs.isInfix (tail.2.2 _ (by simp [keywords]))

theorem Blanks.misses_exportList (gap : Blanks) : Text.Misses exportList before gap.1 t :=
  Text.misses_of_refuses fun c hc => refuses_exportList <| by
    rintro rfl
    exact absurd (Text.forall_of_isBlank gap.2.1 _ hc) (by decide)

theorem Declaration.misses_exportList (d : Declaration) (ht : ∀ c ∈ t.head?, c = .char '\n') :
    Text.Misses exportList before d.render t :=
  Owner.misses_exportList ht fun _ hs _ _ hb =>
    d.not_brace_of_keywordAt (d.keywordAt_of_stands (by simp [keywords]) hs) hb

def Line.bodies : Line → List Text
  | blank _ => []
  | declaration _ => []
  | list l => [l.body]

theorem Item.render_ne_nil (i : Item) : i.render ≠ [] := by
  simp [Item.render, Item.core, i.original.ne_nil]

theorem ExportList.body_ne_nil (l : ExportList) : l.body ≠ [] := by
  have hf := l.first.render_ne_nil
  unfold ExportList.body ExportList.items
  cases l.more with
  | nil => simpa [Text.join] using hf
  | cons i is => simp [Text.join_cons_cons, hf]

theorem Line.occurrencesFrom_exportList (l : Line) (before : Option CodePoint)
    (ht : ∀ c ∈ t.head?, c = .char '\n') :
    ∃ before', (Text.occurrencesFrom exportList before 0 (l.render ++ t)).map (·.1) =
      l.bodies ++ (Text.occurrencesFrom exportList before' 0 t).map (·.1) := by
  cases l with
  | blank gap =>
    exact ⟨_, congrArg _ (Text.occurrencesFrom_append_of_misses gap.misses_exportList)⟩
  | declaration d =>
    exact ⟨_, congrArg _ (Text.occurrencesFrom_append_of_misses (d.misses_exportList ht))⟩
  | list l =>
    let own : Text := ("export" : Text) ++ (l.beforeBrace.1 ++ .char '{' :: (l.body ++ [.char '}']))
    have he : l.render ++ t = l.indent.1 ++ (own ++ (l.tail.1 ++ t)) := by
      simp [ExportList.render, own]
    have hown : ∀ before, exportList before (own ++ (l.tail.1 ++ t)) =
        some (l.body, l.tail.1 ++ t) := by
      intro before
      have hr : own ++ (l.tail.1 ++ t) = "export" ++
          (l.beforeBrace.1 ++ .char '{' :: (l.body ++ .char '}' :: (l.tail.1 ++ t))) := by
        simp [own]
      rw [hr]
      exact exportList_append l.beforeBrace.2.1 l.body_ne_nil
        (l.not_mem_body (by decide) (by decide) (by decide))
    refine ⟨l.tail.1.getLast?.or (own.getLast?.or (l.indent.1.getLast?.or before)), ?_⟩
    rw [Line.render, he, Text.occurrencesFrom_append_of_misses l.indent.misses_exportList,
      Text.occurrencesFrom_append_of_eq_some (by simp [own, Text.ofString]) (hown _),
      Text.occurrencesFrom_append_of_misses (l.tail.misses_exportList ht)]
    rfl

theorem map_occurrences_exportList (lines : List Line) :
    (Text.occurrences exportList (sourceText lines)).map (·.1) = lines.flatMap Line.bodies := by
  have h : ∀ before, (Text.occurrencesFrom exportList before 0 (sourceText lines)).map (·.1) =
      lines.flatMap Line.bodies := by
    induction lines with
    | nil => exact fun _ => rfl
    | cons l ls ih =>
      intro before
      have ht : ∀ c ∈ (behind ls).head?, c = .char '\n' := by
        unfold behind
        split <;> simp
      obtain ⟨before', hl⟩ := l.occurrencesFrom_exportList before ht
      rw [sourceText_cons, hl, List.flatMap_cons]
      congr 1
      unfold behind
      split
      · rename_i hn
        rw [hn]
        rfl
      · have hr := Text.occurrencesFrom_append_of_misses (b := before') (t := sourceText ls)
          (Text.misses_of_refuses (u := [.char '\n'])
            (by simpa using refuses_exportList (by decide)))
        rw [List.singleton_append] at hr
        rw [hr, ih]
  exact h none

end Lists

section Items

variable {x suffix t : Text}

theorem Identifier.isIdentifier (name : Identifier) : Text.isIdentifier name.1 := by
  obtain ⟨c, r, hn, hc, hr⟩ := name.2
  have hs : c.isNameStart := by
    rcases hc with hc | rfl
    · simp [CodePoint.isNameStart, hc]
    · decide
  rw [hn, Text.isIdentifier, hs, Bool.true_and, List.all_eq_true]
  exact fun d hd => by simp [CodePoint.isName, hr d hd]

theorem Identifier.isBlank_of_mem (name : Identifier) : ∀ c ∈ name.1, c.isBlank = false :=
  fun c hc => CodePoint.isBlank_of_isWord (name.forall_isWord c hc)

theorem Identifier.isBlank_getLast?_append (name : Identifier) (t : Text) :
    ∀ c ∈ (t ++ name.1).getLast?, c.isBlank = false := by
  obtain ⟨s, c, hn⟩ := (List.eq_nil_or_concat name.1).resolve_left name.ne_nil
  have hc := name.isBlank_of_mem c (by simp [hn])
  simpa [hn] using hc

namespace Item

variable (i : Item)

theorem trim_render : i.render.trim = i.core := by
  rw [render, Text.trim_padded i.lead.2.1 i.trail.2.1]
  refine Text.trim_of_ends (isBlank_head?_append i.original.ne_nil i.original.forall_isWord _) ?_
  cases hr : i.rename with
  | none => simpa [core, hr, renameText] using i.original.isBlank_getLast?_append []
  | some r =>
    have he : i.core =
        (i.original.1 ++ (r.before.1 ++ (("as" : Text) ++ r.behind.1))) ++ r.name.1 := by
      simp [core, hr, renameText]
    rw [he]
    exact r.name.isBlank_getLast?_append _

theorem withoutAlias_core : withoutAlias i.core = i.original.1 := by
  have hr : withoutAlias (renameText i.rename) = [] := by
    cases i.rename with
    | none => rfl
    | some r =>
      obtain ⟨b, gap, hg⟩ : ∃ b, ∃ gap : Text, r.before.1 = b :: gap :=
        List.exists_cons_of_ne_nil r.before.2.1
      have hb := Text.forall_of_isBlank r.before.2.2.1
      rw [hg] at hb
      have ht : (gap ++ (("as" : Text) ++ (r.behind.1 ++ r.name.1))).trimLeft =
          "as" ++ (r.behind.1 ++ r.name.1) :=
        trimLeft_append_word (List.all_eq_true.2 fun c hc => hb c (by simp [hc])) (by decide)
          (by decide)
      have ha : aliasAhead ("as" ++ (r.behind.1 ++ r.name.1)) := by
        have hs := someBlanks?_append (t := r.name.1) r.behind.2.1 r.behind.2.2.1 (by
          simpa using isBlank_head?_append r.name.ne_nil r.name.forall_isWord [])
        rw [aliasAhead, Text.after_append, Option.bind_some, hs]
        rfl
      rw [renameText, hg, List.cons_append, withoutAlias, ht, hb b (by simp), ha]
      rfl
  have hx : ∀ x : Text, (∀ c ∈ x, c.isBlank = false) →
      withoutAlias (x ++ renameText i.rename) = x := by
    intro x hx
    induction x with
    | nil => exact hr
    | cons c x ih =>
      rw [List.cons_append, withoutAlias, hx c (by simp), ih fun d hd => hx d (by simp [hd])]
      rfl
  exact hx _ i.original.isBlank_of_mem

theorem infix_core_iff (hs : ∀ c ∈ suffix, c.isWord) : suffix <:+: i.core ↔ i.Shows suffix := by
  have hblank : ∀ gap : SomeBlanks, ∀ c ∈ gap.1, c ∉ suffix := fun gap c hc hcs => by
    have hw := CodePoint.isBlank_of_isWord (hs c hcs)
    simp [Text.forall_of_isBlank gap.2.2.1 c hc] at hw
  unfold Shows core
  cases i.rename with
  | none => simp [renameText]
  | some r =>
    simp only [renameText, Option.some.injEq, exists_eq_left']
    constructor
    · intro h
      refine (Text.infix_or_infix_of_append r.before.2.1 (hblank _) h).imp_right fun h => ?_
      exact (Text.infix_or_infix_of_append r.behind.2.1 (hblank _) h).symm
    · rintro (h | h | h)
      · exact h.trans (List.prefix_append _ _).isInfix
      · exact h.trans ⟨i.original.1 ++ (r.before.1 ++ (("as" : Text) ++ r.behind.1)), [], by simp⟩
      · exact h.trans ⟨i.original.1 ++ r.before.1, r.behind.1 ++ r.name.1, by simp⟩

theorem listed?_render (hs : ∀ c ∈ suffix, c.isWord) :
    listed? suffix i.render = some x ↔ i.original.1 = x ∧ i.Shows suffix := by
  have ht : i.original.1.trim = i.original.1 := Text.trim_of_forall i.original.isBlank_of_mem
  rw [← i.infix_core_iff hs, ← Text.occursIn_iff, listed?]
  simp [i.trim_render, i.withoutAlias_core, ht, i.original.isIdentifier, and_comm]

end Item

theorem ExportList.cut_body (l : ExportList) : l.body.cut ',' = l.items.map Item.render := by
  refine Text.cut_join (by simp [items]) fun t ht => ?_
  obtain ⟨i, -, rfl⟩ := List.mem_map.1 ht
  exact i.not_mem_render (by decide) (by decide)

theorem mem_listed_iff {lines : List Line} (hs : ∀ c ∈ suffix, c.isWord) :
    x ∈ (Text.occurrences exportList (sourceText lines)).flatMap
        (fun o => (o.1.cut ',').filterMap (listed? suffix)) ↔
      ∃ l, .list l ∈ lines ∧ ∃ i ∈ l.items, i.original.1 = x ∧ i.Shows suffix := by
  have hb : ∀ body, body ∈ lines.flatMap Line.bodies ↔ ∃ l, .list l ∈ lines ∧ l.body = body := by
    intro body
    rw [List.mem_flatMap]
    constructor
    · rintro ⟨l, hl, h⟩
      cases l with
      | list l => exact ⟨l, hl, (List.mem_singleton.1 h).symm⟩
      | blank gap => cases h
      | declaration d => cases h
    · rintro ⟨l, hl, rfl⟩
      exact ⟨.list l, hl, List.mem_singleton.2 rfl⟩
  have hf := List.flatMap_map (l := Text.occurrences exportList (sourceText lines)) (f := (·.1))
    (g := fun body => (body.cut ',').filterMap (listed? suffix))
  rw [← hf, map_occurrences_exportList, List.mem_flatMap]
  constructor
  · rintro ⟨body, h, hx⟩
    obtain ⟨l, hl, rfl⟩ := (hb body).1 h
    rw [l.cut_body] at hx
    obtain ⟨t, ht, hx⟩ := List.mem_filterMap.1 hx
    obtain ⟨i, hi, rfl⟩ := List.mem_map.1 ht
    exact ⟨l, hl, i, hi, (i.listed?_render hs).1 hx⟩
  · rintro ⟨l, hl, i, hi, hx⟩
    refine ⟨l.body, (hb _).2 ⟨l, hl, rfl⟩, ?_⟩
    rw [l.cut_body]
    exact List.mem_filterMap.2 ⟨_, List.mem_map_of_mem hi, (i.listed?_render hs).2 hx⟩

end Items

/-- The handlers of a file of declarations and lists, each once: the declared names that end in the
suffix and have something before it, and the original names of the list items that show it. -/
theorem handlerNames_sourceText (n : Naming) (lines : List Line)
    (hs : ∀ c ∈ n.handlerSuffix, c.isWord) :
    (handlerNames n (sourceText lines)).Nodup ∧
    ∀ x, x ∈ handlerNames n (sourceText lines) ↔
      (∃ d, .declaration d ∈ lines ∧ d.name.1 = x ∧ Suffixed n.handlerSuffix x) ∨
      ∃ l, .list l ∈ lines ∧ ∃ i ∈ l.items, i.original.1 = x ∧ i.Shows n.handlerSuffix := by
  refine ⟨Text.nodup_distinct _, fun x => ?_⟩
  rw [handlerNames, Text.mem_distinct, List.mem_append, mem_declared_iff hs, mem_listed_iff hs]

def noBlanks : Blanks := ⟨[], by decide⟩

def oneSpace : Blanks := ⟨" ", by decide⟩

def someSpace : SomeBlanks := ⟨" ", by decide⟩

def noTail : Tail := ⟨[], by decide⟩

def listName : Identifier :=
  ⟨"listController", 'l', "istController", by decide, by decide, by decide⟩

def fooName : Identifier := ⟨"foo", 'f', "oo", by decide, by decide, by decide⟩

def barName : Identifier := ⟨"bar", 'b', "ar", by decide, by decide, by decide⟩

def listDeclaration : Declaration :=
  ⟨noBlanks, some someSpace, some someSpace, .function, someSpace, listName, noBlanks, noTail,
    by decide⟩

def renamedList : ExportList :=
  ⟨noBlanks, oneSpace, ⟨oneSpace, fooName, some ⟨someSpace, someSpace, listName⟩, oneSpace⟩,
    [⟨oneSpace, barName, none, oneSpace⟩], noTail⟩

theorem handlerNames_sourceText_renamedList :
    (handlerNames {} (sourceText [.declaration listDeclaration, .list renamedList])).Nodup ∧
    listName.1 ∈ handlerNames {} (sourceText [.declaration listDeclaration, .list renamedList]) ∧
    fooName.1 ∈ handlerNames {} (sourceText [.declaration listDeclaration, .list renamedList]) ∧
    barName.1 ∉ handlerNames {} (sourceText [.declaration listDeclaration, .list renamedList]) := by
  obtain ⟨hn, hx⟩ := handlerNames_sourceText {} [.declaration listDeclaration, .list renamedList]
    (by decide)
  have hfoo : renamedList.first.Shows "Controller" :=
    .inr ⟨⟨someSpace, someSpace, listName⟩, rfl, .inl ⟨"list", [], by decide⟩⟩
  refine ⟨hn, (hx _).2 (.inl ⟨listDeclaration, by simp, rfl, "list", by decide, by decide⟩),
    (hx _).2
      (.inr ⟨renamedList, by simp, renamedList.first, by simp [ExportList.items], rfl, hfoo⟩),
    by decide +kernel⟩

def fooAsBar : ExportList :=
  ⟨noBlanks, oneSpace, ⟨oneSpace, fooName, some ⟨someSpace, someSpace, barName⟩, oneSpace⟩, [],
    noTail⟩

/-- A suffix that stands in the word `as` is shown by every item that is renamed. -/
theorem handlerNames_fooAsBar :
    sourceText [.list fooAsBar] = "export \x7b foo as bar \x7d" ∧
    ¬ ("s" : Text) <:+: fooName.1 ∧ ¬ ("s" : Text) <:+: barName.1 ∧
    handlerNames { handlerSuffix := "s" } (sourceText [.list fooAsBar]) = ["foo"] := by
  decide +kernel

end RouteAtlas.Owner
