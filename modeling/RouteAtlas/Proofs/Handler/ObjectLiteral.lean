import Mathlib.Data.Option.Basic
import Mathlib.Tactic.Common
import RouteAtlas.Handler.Fields
import RouteAtlas.Proofs.Handler.CommaList

/-!
# Keys of object literals

Reading the text of an object literal gives its keys, whatever the values are. The response fields
are the keys of the literal that the first response call sends.
-/

namespace RouteAtlas.Source

/-- A name start followed by name characters and hyphens. -/
def isKey : Text → Bool
  | [] => false
  | c :: r => c.isNameStart && r.all fun d => d.isName || d == '-'

abbrev Key := {t : Text // isKey t}

inductive KeyStyle where
  | bare
  | double
  | single

def KeyStyle.mark : KeyStyle → Text
  | bare => []
  | double => "\""
  | single => "'"

/-- An entry without the white space around it; that of a value belongs to the value. -/
inductive Property where
  | keyed (style : KeyStyle) (key : Key) (gap : Gap) (value : Expression)
  | shorthand (name : Identifier)
  | spread (value : Expression)

namespace Property

def render : Property → Text
  | keyed style key gap value =>
    style.mark ++ (key.1 ++ (style.mark ++ (gap.1 ++ .char ':' :: value.1)))
  | shorthand name => name.1
  | spread value => "..." ++ value.1

def key? : Property → Option Text
  | keyed _ key _ _ => some key.1
  | shorthand name => some name.1
  | spread _ => none

end Property

abbrev ObjectLiteral := CommaList Property

namespace ObjectLiteral

def inside (o : ObjectLiteral) : Text := CommaList.render Property.render o

def render (o : ObjectLiteral) : Text := .char '{' :: (o.inside ++ [.char '}'])

def keys (o : ObjectLiteral) : List Text := o.parts.filterMap Property.key?

end ObjectLiteral

section Keys

theorem not_more_of_gap (gap : Gap) (t : Text) :
    ∀ c ∈ (gap.1 ++ .char ':' :: t).head?, (c.isName || c == '-') = false := by
  intro c hc
  obtain ⟨g, hg⟩ := gap
  cases g with
  | nil =>
    obtain rfl : .char ':' = c := by simpa using hc
    decide
  | cons d g =>
    obtain rfl : d = c := by simpa using hc
    have hd : d.isBlank := Text.forall_of_isBlank hg d (by simp)
    have hm : d ≠ .char '-' := CodePoint.ne_of_class hd (by decide)
    simp [CodePoint.isName_of_isBlank hd, hm]

/-- A key is read up to what closes it, if a colon follows. -/
theorem keyBefore?_append (style : KeyStyle) (key : Key) (gap : Gap) (t : Text) :
    keyBefore? style.mark (key.1 ++ (style.mark ++ (gap.1 ++ .char ':' :: t))) = some key.1 := by
  obtain ⟨key, hk⟩ := key
  cases key with
  | nil => simp [isKey] at hk
  | cons c r =>
    simp only [isKey, Bool.and_eq_true, List.all_eq_true] at hk
    have hstop : ∀ d ∈ (style.mark ++ (gap.1 ++ .char ':' :: t)).head?,
        (d.isName || d == '-') = false := by
      cases style with
      | bare => exact not_more_of_gap gap t
      | double | single =>
        intro d hd
        obtain rfl := Option.some.inj hd
        decide
    have hgap : Text.trimLeft (gap.1 ++ .char ':' :: t) = .char ':' :: t := by
      rw [Text.trimLeft_append gap.2, Text.trimLeft_cons (by decide)]
    have hcolon : Text.after ":" (.char ':' :: t) = some t := Text.after_append ":" t
    simp only [List.cons_append, keyBefore?]
    rw [Text.takeWhile_append_of_stop hk.2 hstop, Text.dropWhile_append_of_stop hk.2 hstop]
    simp [hk.1, hgap, hcolon]

theorem keyBefore?_identifier (name : Identifier) : keyBefore? [] name.1 = none := by
  obtain ⟨name, hn⟩ := name
  cases name with
  | nil => rfl
  | cons c r =>
    simp only [Text.isIdentifier, Bool.and_eq_true, List.all_eq_true] at hn
    have hr : ∀ d ∈ r, (d.isName || d == '-') = true := fun d hd => by simp [hn.2 d hd]
    have hd : (r.dropWhile fun d : CodePoint => d.isName || d == '-') = [] := by
      simpa using Text.dropWhile_append_of_stop (t := []) hr (by simp)
    have hcolon : Text.after ":" (Text.trimLeft []) = none := rfl
    simp [keyBefore?, hd, Text.after_nil, hcolon]

theorem literalKey?_of_isBlank {t : Text} (h : t.isBlank) : literalKey? t = none := by
  simp [literalKey?, Text.trim_of_isBlank h]

/-- An entry that begins with a name start is a key without quotes or an identifier. -/
theorem literalKey?_of_isNameStart {entry t : Text} {c : CodePoint} (h : entry.trim = c :: t)
    (hc : c.isNameStart) : literalKey? entry =
      (keyBefore? [] (c :: t) <|> if Text.isIdentifier (c :: t) then some (c :: t) else none) := by
  have hp : Text.startsWith (c :: t) "..." = false := by
    have hd : c ≠ .char '.' := CodePoint.ne_of_class hc (by decide)
    simp [Text.startsWith, Text.ofString, List.isPrefixOf, hd.symm]
  rw [literalKey?, h]
  simp only [List.isEmpty_cons, hp, Bool.or_self, Bool.false_eq_true, if_false]
  split
  · rename_i he
    exact absurd (List.cons.inj he).1 (CodePoint.ne_of_class hc (by decide))
  · rename_i he
    exact absurd (List.cons.inj he).1 (CodePoint.ne_of_class hc (by decide))
  · rfl

theorem isBlank_head_mark_append (style : KeyStyle) (key : Key) (t : Text) :
    ∀ d ∈ (style.mark ++ (key.1 ++ t)).head?, d.isBlank = false := by
  obtain ⟨key, hk⟩ := key
  cases key with
  | nil => simp [isKey] at hk
  | cons c r =>
    simp only [isKey, Bool.and_eq_true] at hk
    cases style with
    | bare =>
      intro d hd
      obtain rfl := Option.some.inj hd
      exact CodePoint.isBlank_of_isNameStart hk.1
    | double | single =>
      intro d hd
      obtain rfl := Option.some.inj hd
      decide

theorem literalKey?_keyed {entry : Text} {style : KeyStyle} {key : Key} {gap : Gap} {t : Text}
    (h : entry.trim = style.mark ++ (key.1 ++ (style.mark ++ (gap.1 ++ .char ':' :: t)))) :
    literalKey? entry = some key.1 := by
  have hk := keyBefore?_append style key gap t
  cases style with
  | bare =>
    obtain ⟨key, hkey⟩ := key
    cases key with
    | nil => simp [isKey] at hkey
    | cons c r =>
      have hc : c.isNameStart := by
        simp only [isKey, Bool.and_eq_true] at hkey
        exact hkey.1
      rw [literalKey?_of_isNameStart h hc]
      exact congrArg (· <|> _) hk
  | double | single =>
    rw [literalKey?, h]
    exact congrArg (· <|> _) hk

theorem literalKey?_shorthand {entry : Text} {name : Identifier} (h : entry.trim = name.1) :
    literalKey? entry = some name.1 := by
  have hk := keyBefore?_identifier name
  obtain ⟨name, hn⟩ := name
  cases name with
  | nil => simp [Text.isIdentifier] at hn
  | cons c r =>
    have hc : c.isNameStart := by
      simp only [Text.isIdentifier, Bool.and_eq_true] at hn
      exact hn.1
    rw [literalKey?_of_isNameStart h hc, hk, if_pos hn]
    rfl

theorem literalKey?_spread {entry t : Text} (h : entry.trim = "..." ++ t) :
    literalKey? entry = none := by
  have hs : Text.startsWith ("..." ++ t) "..." := Text.startsWith_append "..." t
  simp [literalKey?, h, hs]

theorem literalKey?_render (p : Padded Property) :
    literalKey? (p.render Property.render) = p.part.key? := by
  have ht := p.trim_render Property.render
  obtain ⟨lead, property, trail⟩ := p
  cases property with
  | keyed style key gap value =>
    have hs := isBlank_head_mark_append style key (style.mark ++ gap.1)
    have hv := Text.trim_append_cons hs (c := .char ':') (by decide) value.1
    simp only [List.append_assoc] at hv
    exact literalKey?_keyed (ht.trans hv)
  | shorthand name =>
    refine literalKey?_shorthand (ht.trans (Text.trim_of_forall fun c hc => ?_))
    exact CodePoint.isBlank_of_isName (Text.forall_isName_of_isIdentifier name.2 c hc)
  | spread value =>
    have hv := Text.trim_append_cons (s := "..") (c := .char '.') (by decide) (by decide) value.1
    exact literalKey?_spread (ht.trans hv)

end Keys

theorem Key.plain (key : Key) : ∀ c ∈ key.1, isPlain c ∧ c ≠ .char '\\' := by
  obtain ⟨key, hk⟩ := key
  have hp : ∀ c ∈ key, c.isName || c == '-' := by
    cases key with
    | nil => simp
    | cons c r =>
      simp only [isKey, Bool.and_eq_true, List.all_eq_true] at hk
      intro d hd
      rcases List.mem_cons.1 hd with rfl | hd
      · simp [CodePoint.isName_of_isNameStart hk.1]
      · exact hk.2 d hd
  intro c hc
  have hm : c.isName || c == '-' := hp c hc
  exact ⟨isPlain_of (p := fun c => c.isName || c == '-') hm (by decide),
    CodePoint.ne_of_class (p := fun c => c.isName || c == '-') hm (by decide)⟩

theorem Property.balanced (p : Property) : Balanced false p.render := by
  cases p with
  | keyed style key gap value =>
    have hv : Balanced false (gap.1 ++ .char ':' :: value.1) :=
      gap.balanced.append (.plain (by decide) value.2)
    cases style with
    | bare => exact (Balanced.of_plain fun c hc => (key.plain c hc).1).append hv
    | double => exact .literal (by decide) (.of_plain (by decide) key.plain) hv
    | single => exact .literal (by decide) (.of_plain (by decide) key.plain) hv
  | shorthand name => exact name.balanced
  | spread value => exact (Balanced.of_plain (t := "...") (by decide)).append value.2

namespace ObjectLiteral

variable (o : ObjectLiteral)

theorem balanced : Balanced false o.render :=
  .group .curly (CommaList.balanced_render Property.balanced o) .nil

theorem trim_render : o.render.trim = o.render :=
  Text.trim_append_cons (s := .char '{' :: o.inside) (c := .char '}')
    (fun d hd => by obtain rfl := Option.some.inj hd; decide) (by decide) []

end ObjectLiteral

section Arguments

variable (o : Padded ObjectLiteral)

theorem literalKeys_render :
    literalKeys (o.render ObjectLiteral.render) = Text.distinct o.part.keys := by
  have hd : (o.part.render.drop 1).dropLast = o.part.inside := by
    rw [ObjectLiteral.render, List.drop_one, List.tail_cons, List.dropLast_concat]
  have hk := CommaList.filterMap_pieces_render Property.balanced
    (fun _ => literalKey?_of_isBlank) literalKey?_render o.part
  rw [literalKeys, o.trim_render, ObjectLiteral.trim_render, hd]
  exact congrArg Text.distinct hk

theorem isObjectLiteral_render : isObjectLiteral (o.render ObjectLiteral.render) := by
  have hl : o.part.render.getLast? = some (.char '}') := by
    rw [ObjectLiteral.render, ← List.cons_append, List.getLast?_concat]
  rw [isObjectLiteral, o.trim_render, ObjectLiteral.trim_render, hl]
  rfl

theorem isBlank_render : (o.render ObjectLiteral.render).isBlank = false := by
  have hc : CodePoint.isBlank (.char '{') = false := by decide
  simp [Padded.render, ObjectLiteral.render, hc]

end Arguments

section Calls

/-- Whether a call of `callee` stands behind `before`, with `rest` behind its parenthesis. -/
def CallAt (callee before rest source : Text) : Prop :=
  (∀ c ∈ before.getLast?, c.isName = false) ∧
    ∃ gap : Gap, source = before ++ (callee ++ (gap.1 ++ .char '(' :: rest))

/-- Whether the first call of `callee` has `rest` behind its parenthesis. -/
def FirstCall (callee rest source : Text) : Prop :=
  ∃ before, CallAt callee before rest source ∧
    ∀ before' rest', CallAt callee before' rest' source → before.length ≤ before'.length

def NoCall (callee source : Text) : Prop :=
  ∀ before rest, ¬ CallAt callee before rest source

variable {callee before rest source t : Text}

theorem call_eq_some : call callee before.getLast? t = some ((), rest) ↔
    CallAt callee before rest (before ++ t) := by
  have hg : (before.getLast?.all fun c : CodePoint => !c.isName) = true ↔
      ∀ c ∈ before.getLast?, c.isName = false := by
    cases before.getLast? <;> simp
  simp only [call, CallAt, Option.bind_eq_bind, Option.bind_eq_some_iff, Option.guard_eq_some', hg,
    exists_const, Option.pure_def, Option.some.injEq, Prod.mk.injEq, true_and,
    List.append_cancel_left_eq]
  constructor
  · rintro ⟨hb, t₁, h₁, t₂, h₂, rfl⟩
    obtain rfl := Text.eq_append_of_after h₁
    obtain ⟨gap, hgap, hl⟩ := Text.exists_append_trimLeft t₁
    rw [Text.eq_append_of_after h₂] at hl
    exact ⟨hb, ⟨gap, hgap⟩, by rw [hl]; rfl⟩
  · rintro ⟨hb, gap, rfl⟩
    refine ⟨hb, _, Text.after_append _ _, rest, ?_, rfl⟩
    rw [Text.trimLeft_append gap.2, Text.trimLeft_cons (by decide)]
    exact Text.after_append "(" rest

theorem misses_call_iff : Text.Misses (call callee) none before t ↔
    ∀ v r, CallAt callee v r (before ++ t) → before.length ≤ v.length := by
  rw [Text.misses_iff]
  constructor
  · intro h v r hc
    by_contra hl
    obtain ⟨-, gap, hs⟩ := id hc
    have hp : v <+: before := by
      have hv : v <+: before ++ t := ⟨_, hs.symm⟩
      exact List.prefix_of_prefix_length_le hv (List.prefix_append _ _) (by omega)
    obtain ⟨w, rfl⟩ := hp
    cases w with
    | nil => simp at hl
    | cons c w =>
      have hn := h v c w rfl
      rw [List.append_assoc] at hc
      have hm := call_eq_some.2 hc
      rw [Option.or_none] at hn
      exact absurd (hn.symm.trans hm) (by simp)
  · intro h v c w he
    rw [Option.or_none, Option.eq_none_iff_forall_not_mem]
    rintro ⟨⟨⟩, r⟩ hr
    have hc := call_eq_some.1 hr
    have hs : v ++ c :: (w ++ t) = before ++ t := by simp [he]
    have hl := h v r (hs ▸ hc)
    simp only [he, List.length_append, List.length_cons] at hl
    omega

theorem firstCall_iff : FirstCall callee rest source ↔
    ∃ more, Text.occurrences (call callee) source = ((), rest) :: more := by
  constructor
  · rintro ⟨before, hc, hf⟩
    obtain ⟨-, gap, rfl⟩ := id hc
    have hm := misses_call_iff.2 hf
    have hr := call_eq_some.2 hc
    have hu : callee ++ (gap.1 ++ [.char '(']) ≠ [] := by simp
    have he : callee ++ (gap.1 ++ .char '(' :: rest) =
        callee ++ (gap.1 ++ [.char '(']) ++ rest := by
      simp
    rw [Text.occurrences, Text.occurrencesFrom_append_of_misses hm, Option.or_none]
    rw [he] at hr ⊢
    exact ⟨_, Text.occurrencesFrom_append_of_eq_some hu hr⟩
  · rintro ⟨more, h⟩
    obtain ⟨before, t, rfl, hm, hr⟩ := Text.exists_misses_of_occurrencesFrom h
    rw [Option.or_none] at hr
    exact ⟨before, call_eq_some.1 hr, misses_call_iff.1 hm⟩

theorem noCall_iff : NoCall callee source ↔ Text.occurrences (call callee) source = [] := by
  constructor
  · refine fun h => Text.occurrences_eq_nil (misses_call_iff.2 fun v r hc => absurd ?_ (h v r))
    simpa using hc
  · intro h v r hc
    have hl := misses_call_iff.1 (Text.misses_of_occurrencesFrom h) v r (by simpa using hc)
    obtain ⟨-, gap, rfl⟩ := hc
    simp only [List.length_append, List.length_cons] at hl
    omega

end Calls

section Responses

def argumentText (args : List Text) (after : Text) : Text :=
  Text.join "," args ++ .char ')' :: after

theorem literalArgument?_argumentText {args : List Text} {i : Nat} {o : Padded ObjectLiteral}
    (ha : ∀ t ∈ args, Balanced false t) (hi : args[i]? = some (o.render ObjectLiteral.render))
    (after : Text) :
    literalArgument? i ((), argumentText args after) = some (o.render ObjectLiteral.render) := by
  have hne : args ≠ [] := by
    rintro rfl
    simp at hi
  rw [literalArgument?, argumentText, arguments_join hne ha,
    getElem?_dropBlankLast hi (isBlank_render o), Option.filter_some,
    if_pos (isObjectLiteral_render o)]

/-- The response fields are the keys of the literal that the first success call has as its second
argument; without success calls, of the one that the first raw call has as its first. -/
theorem responseFields_eq_keys (g : Grammar) (o : Padded ObjectLiteral) (more : List Expression)
    (after source : Text) :
    (∀ first : Expression,
      FirstCall g.successCall
        (argumentText (first.1 :: o.render ObjectLiteral.render :: more.map (·.1)) after) source →
      responseFields g source = Text.distinct o.part.keys) ∧
    (NoCall g.successCall source →
      FirstCall g.rawCall
        (argumentText (o.render ObjectLiteral.render :: more.map (·.1)) after) source →
      responseFields g source = Text.distinct o.part.keys) := by
  have hm : ∀ t ∈ more.map (·.1), Balanced false t := by
    intro t h
    obtain ⟨e, -, rfl⟩ := List.mem_map.1 h
    exact e.2
  have ho := o.balanced ObjectLiteral.render o.part.balanced
  have hk := literalKeys_render o
  constructor
  · intro first h
    obtain ⟨calls, hc⟩ := firstCall_iff.1 h
    have ha : ∀ t ∈ first.1 :: o.render ObjectLiteral.render :: more.map (·.1),
        Balanced false t := by
      simp only [List.forall_mem_cons]
      exact ⟨first.2, ho, hm⟩
    have hl := literalArgument?_argumentText (i := 1) ha rfl after
    have hr : responseLiteral? g source = some (o.render ObjectLiteral.render) := by
      rw [responseLiteral?, hc, List.findSome?_cons, hl]
      rfl
    rw [responseFields, hr]
    exact hk
  · intro hn h
    obtain ⟨calls, hc⟩ := firstCall_iff.1 h
    have ha : ∀ t ∈ o.render ObjectLiteral.render :: more.map (·.1), Balanced false t := by
      simp only [List.forall_mem_cons]
      exact ⟨ho, hm⟩
    have hl := literalArgument?_argumentText (i := 0) ha rfl after
    have hr : responseLiteral? g source = some (o.render ObjectLiteral.render) := by
      rw [responseLiteral?, noCall_iff.1 hn, hc, List.findSome?_cons, hl]
      rfl
    rw [responseFields, hr]
    exact hk

theorem balanced_quotedBrace : Balanced false " f(a, \"\x7d\")" := by
  have hq : LiteralBody (.char '"') "\x7d" := .plain (by decide) (by decide) .nil
  have hl : Balanced true (" \"\x7d\"" : Text) := .plain rfl (Balanced.literal rfl hq .nil)
  have hi : Balanced true ("a, \"\x7d\"" : Text) := .plain rfl (.comma hl)
  exact .plain rfl (.plain rfl (Balanced.group .round hi .nil))

def userLiteral : ObjectLiteral :=
  ⟨[⟨.space, .shorthand ⟨"id", rfl⟩, .empty⟩,
    ⟨.space, .keyed .single ⟨"full-name", rfl⟩ .empty
      ⟨" f(a, \"\x7d\")", balanced_quotedBrace⟩, .empty⟩,
    ⟨.space, .spread ⟨"record", .of_plain (by decide)⟩, .empty⟩,
    ⟨.space, .keyed .bare ⟨"id", rfl⟩ .space ⟨"2", .of_plain (by decide)⟩, .empty⟩],
  some .space⟩

theorem responseFields_eq_keys_userLiteral :
    responseFields {}
      "=> sendSuccess(res, \x7b id, 'full-name': f(a, \"\x7d\"), ...record, id :2, \x7d);" =
      ["id", "full-name"] ∧
    responseFields {}
      "res.json (\x7b id, 'full-name': f(a, \"\x7d\"), ...record, id :2, \x7d, 1);" =
      ["id", "full-name"] := by
  have hk : Text.distinct userLiteral.keys = ["id", "full-name"] := by decide
  constructor
  · refine ((responseFields_eq_keys {} ⟨.space, userLiteral, .empty⟩ [] ";" _).1
      ⟨"res", .of_plain (by decide)⟩ (firstCall_iff.2 ⟨[], ?_⟩)).trans hk
    decide
  · refine ((responseFields_eq_keys {} ⟨.empty, userLiteral, .empty⟩
      [⟨" 1", .of_plain (by decide)⟩] ";" _).2
      (noCall_iff.2 ?_) (firstCall_iff.2 ⟨[], ?_⟩)).trans hk
    · decide
    · decide

end Responses

end RouteAtlas.Source
