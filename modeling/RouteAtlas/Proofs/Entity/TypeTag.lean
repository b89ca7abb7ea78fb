import RouteAtlas.Entity.Schema
import RouteAtlas.Proofs.Pairs
import RouteAtlas.Proofs.Text.Case

/-!
# Tags written with noise

What is written around the name of a type is taken off, but for white space between the name and its
arguments: a tag is trimmed before its arguments are cut off.
-/

namespace RouteAtlas

namespace DataType

/-- Nothing, or a text before a point in which no parenthesis opens. -/
def IsQualifier (q : Text) : Prop := q = [] ∨ ∃ r : Text, .char '(' ∉ r ∧ q = r ++ "."

/-- A tag as it may be written for the name of a type: in capitals or small letters, behind a
qualifier, before arguments, and with white space around its parts. -/
structure WrittenTag (type : Text) where
  lead : {t : Text // t.isBlank}
  qualifier : {q : Text // IsQualifier q}
  name : {n : Text // n.lower = type}
  arguments : Option ({t : Text // t.isBlank} × Text)
  trail : {t : Text // t.isBlank}

namespace WrittenTag

variable {type : Text}

def gap (w : WrittenTag type) : Text :=
  match w.arguments with
  | none => []
  | some (gap, _) => gap

def argumentsText (w : WrittenTag type) : Text :=
  match w.arguments with
  | none => []
  | some (gap, t) => gap.1 ++ ("(" ++ t ++ ")" : Text)

def text (w : WrittenTag type) : Text :=
  w.lead.1 ++ (w.qualifier.1 ++ (w.name.1 ++ w.argumentsText) ++ w.trail.1)

end WrittenTag

section Qualifier

variable {q t : Text}

theorem isQualifier_nil : IsQualifier [] := .inl rfl

/-- White space before a qualifier or inside of it leaves it one. -/
theorem IsQualifier.exists_trimmed (h : IsQualifier q) : ∃ gap r, Text.isBlank gap ∧
    q = gap ++ r ∧ IsQualifier r ∧ ∀ c ∈ r.head?, c.isBlank = false := by
  rcases h with rfl | ⟨r, hr, rfl⟩
  · exact ⟨[], [], rfl, rfl, isQualifier_nil, by simp⟩
  · obtain ⟨gap, hg, he⟩ := Text.exists_append_trimLeft r
    have hn : .char '(' ∉ r.trimLeft := fun hm => hr (he ▸ List.mem_append_right gap hm)
    refine ⟨gap, r.trimLeft ++ ".", hg, by rw [← List.append_assoc, ← he], .inr ⟨_, hn, rfl⟩, ?_⟩
    intro c hc
    cases ht : r.trimLeft with
    | nil =>
      rw [ht] at hc
      obtain rfl : .char '.' = c := Option.some.inj hc
      rfl
    | cons e u =>
      refine Text.isBlank_head?_trimLeft r c ?_
      rw [ht] at hc ⊢
      exact hc

theorem IsQualifier.exists_lower (h : IsQualifier q) (t : Text) : ∃ r inWord, IsQualifier r ∧
    (q ++ t).lower = r ++ Text.lowerFrom inWord t := by
  rcases h with rfl | ⟨r, hr, rfl⟩
  · exact ⟨[], false, isQualifier_nil, rfl⟩
  · have hp : ∀ c : CodePoint, .char '(' ∈ c.lower → c = .char '(' := fun c =>
      CodePoint.eq_of_mem_lower (by decide) (by decide) (by decide) (by decide +kernel)
    obtain ⟨r', b, he, hn⟩ :=
      Text.exists_lowerFrom_append_of_not_mem hp (by decide) false hr ("." ++ t)
    obtain ⟨b', hd⟩ := Text.exists_lowerFrom_append (s := ".") b (by decide) t
    refine ⟨r' ++ ".", b', .inr ⟨r', hn, rfl⟩, ?_⟩
    rw [List.append_assoc, Text.lower, he, hd, List.append_assoc]
    rfl

theorem IsQualifier.afterLast_append (h : IsQualifier q) (ht : .char '.' ∉ t) :
    (q ++ t).afterLast '.' = t := by
  refine Text.afterLast_append ht ?_
  rcases h with rfl | ⟨r, -, rfl⟩
  · simp
  · intro c hc
    rw [List.getLast?_append] at hc
    exact (Option.some.inj hc).symm

theorem IsQualifier.not_mem (h : IsQualifier q) : .char '(' ∉ q := by
  rcases h with rfl | ⟨r, hr, rfl⟩
  · simp
  · simp [hr, Text.ofString]

end Qualifier

section Names

variable {type : Text} {d : DataType}

/-- The names of types are of characters that no reading of a tag takes off. -/
theorem plain_of_mem_names : ∀ e ∈ names, e.1 ≠ [] ∧
    ∀ c ∈ e.1, c.isAscii ∧ c.isBlank = false ∧ c ≠ '(' ∧ c ≠ '.' := by
  decide

theorem nodup_names : (names.map (·.1)).Nodup := by decide

theorem ofTag_of_mem_names : ∀ e ∈ names, ofTag e.1 = e.2 := by decide +kernel

theorem lookup_names (h : (type, d) ∈ names) : names.lookup type = some d :=
  (Pairs.lookup_eq_some_iff_mem nodup_names).2 h

theorem lookup_names_append {gap : Text} (hg : gap.isBlank) (hne : gap ≠ []) (t : Text) :
    names.lookup (t ++ gap) = none := by
  rw [← Option.not_isSome_iff_eq_none, Pairs.lookup_isSome_iff_mem_keys]
  intro hm
  obtain ⟨e, he, hk⟩ := List.mem_map.1 hm
  obtain ⟨c, u, rfl⟩ := List.exists_cons_of_ne_nil hne
  have hb : c.isBlank := Text.forall_of_isBlank hg c (by simp)
  have hn : c.isBlank = false := ((plain_of_mem_names e he).2 c (by simp [hk])).2.1
  simp [hb] at hn

end Names

namespace WrittenTag

variable {type : Text} {d : DataType}

theorem isBlank_gap (w : WrittenTag type) : w.gap.isBlank := by
  unfold gap
  split
  · rfl
  · rename_i g _ _
    exact g.2

theorem argumentsText_eq (w : WrittenTag type) : w.argumentsText = [] ∧ w.gap = [] ∨
    ∃ t : Text, w.argumentsText = w.gap ++ (CodePoint.char '(' :: (t ++ [CodePoint.char ')'])) := by
  unfold argumentsText gap
  cases w.arguments with
  | none => exact .inl ⟨rfl, rfl⟩
  | some a => exact .inr ⟨a.2, rfl⟩

/-- In lower case the arguments still begin with a parenthesis behind the white space. -/
theorem exists_lower_argumentsText (w : WrittenTag type) (inWord : Bool) :
    ∃ r : Text, (∀ c ∈ r.head?, c = .char '(') ∧
      Text.lowerFrom inWord w.argumentsText = w.gap ++ r := by
  rcases w.argumentsText_eq with ⟨ha, hg⟩ | ⟨t, ha⟩
  · exact ⟨[], by simp, by rw [ha, hg]; rfl⟩
  · obtain ⟨inWord', he⟩ := Text.exists_lowerFrom_append_of_isBlank inWord w.isBlank_gap
      (.char '(' :: (t ++ [.char ')']))
    refine ⟨.char '(' :: Text.lowerFrom false (t ++ [.char ')']), by simp, ?_⟩
    rw [ha, he]
    rfl

section Name

variable (h : (type, d) ∈ names) (w : WrittenTag type)
include h

theorem ne_sigma_of_mem_name : ∀ c ∈ w.name.1, c.toNat ≠ 0x3A3 := by
  have ha : Text.isAscii type := List.all_eq_true.2 fun c hc => ((plain_of_mem_names _ h).2 c hc).1
  have hn : Text.isAscii (Text.lowerFrom false w.name.1) := by
    rw [← Text.lower, w.name.2]
    exact ha
  exact Text.ne_sigma_of_isAscii_lowerFrom hn

theorem flatMap_lower_name : w.name.1.flatMap CodePoint.lower = type := by
  rw [← Text.lower_eq_flatMap (w.ne_sigma_of_mem_name h), w.name.2]

theorem name_ne_nil : w.name.1 ≠ [] := fun hn =>
  (plain_of_mem_names _ h).1 (by rw [← w.flatMap_lower_name h, hn]; rfl)

theorem isBlank_of_mem_name : ∀ c ∈ w.name.1, c.isBlank = false := by
  intro c hc
  by_contra hb
  have hl : c.lower = [c] := CodePoint.lower_of_isBlank (by simpa using hb)
  have hm : c ∈ type := by
    rw [← w.flatMap_lower_name h]
    exact List.mem_flatMap.2 ⟨c, hc, by simp [hl]⟩
  exact hb ((plain_of_mem_names _ h).2 c hm).2.1

theorem exists_trim_text : ∃ q, IsQualifier q ∧
    w.text.trim = q ++ (w.name.1 ++ w.argumentsText) := by
  obtain ⟨gap, q, hg, he, hq, hh⟩ := w.qualifier.2.exists_trimmed
  have hlead : Text.isBlank (w.lead.1 ++ gap) := by simp [w.lead.2, hg]
  have ht : w.text = (w.lead.1 ++ gap) ++ ((q ++ (w.name.1 ++ w.argumentsText)) ++ w.trail.1) := by
    simp [text, he]
  refine ⟨q, hq, ?_⟩
  rw [ht, Text.trim_padded hlead w.trail.2]
  refine Text.trim_of_ends ?_ ?_
  · obtain ⟨c, u, hn⟩ := List.exists_cons_of_ne_nil (w.name_ne_nil h)
    have hc := w.isBlank_of_mem_name h c (by simp [hn])
    cases q with
    | nil => simpa [hn] using hc
    | cons e q => exact hh
  · rcases w.argumentsText_eq with ⟨ha, -⟩ | ⟨t, ha⟩
    · obtain ⟨u, c, hn⟩ := (List.eq_nil_or_concat w.name.1).resolve_left (w.name_ne_nil h)
      have hc := w.isBlank_of_mem_name h c (by simp [hn])
      simpa [ha, hn] using hc
    · intro c hc
      have hp : w.argumentsText.getLast? = some (.char ')') := by
        rw [ha, ← List.cons_append, ← List.append_assoc, List.getLast?_append]
        rfl
      rw [← List.append_assoc, List.getLast?_append, hp] at hc
      exact (Option.some.inj hc) ▸ rfl

theorem not_mem_name_gap {c : CodePoint} (hc : c = .char '(' ∨ c = .char '.') :
    c ∉ type ++ w.gap := by
  intro hm
  rcases List.mem_append.1 hm with hm | hm
  · obtain ⟨-, -, hp, hd⟩ := (plain_of_mem_names _ h).2 c hm
    exact hc.elim hp hd
  · have hb := Text.forall_of_isBlank w.isBlank_gap c hm
    rcases hc with rfl | rfl <;> cases hb

/-- Reading a tag leaves of what stands around the name the white space before the arguments. -/
theorem nameOfTag_text : nameOfTag w.text = type ++ w.gap := by
  obtain ⟨q, hq, ht⟩ := w.exists_trim_text h
  obtain ⟨q', b, hq', hl⟩ := hq.exists_lower (w.name.1 ++ w.argumentsText)
  obtain ⟨b', hn⟩ := Text.exists_lowerFrom_append b (w.ne_sigma_of_mem_name h) w.argumentsText
  obtain ⟨r, hr, ha⟩ := w.exists_lower_argumentsText b'
  have hu : w.text.trim.lower = (q' ++ (type ++ w.gap)) ++ r := by
    rw [ht, hl, hn, ha, w.flatMap_lower_name h]
    simp
  have hp : .char '(' ∉ q' ++ (type ++ w.gap) := fun hm =>
    (List.mem_append.1 hm).elim hq'.not_mem (w.not_mem_name_gap h (.inl rfl))
  rw [nameOfTag, hu, Text.upTo_append hp hr,
    hq'.afterLast_append (w.not_mem_name_gap h (.inr rfl))]

end Name

end WrittenTag

/-- A tag is read as the name of a type that it is written for, whatever the case of its letters,
its qualifier, its arguments and the white space at its ends. Only white space before the
arguments is not taken off the name, and then the type is not known. -/
theorem ofTag_text {type : Text} {d : DataType} (h : (type, d) ∈ names) (w : WrittenTag type) :
    ofTag type = d ∧ (w.gap = [] → ofTag w.text = d) ∧ (w.gap ≠ [] → ofTag w.text = .string) := by
  refine ⟨ofTag_of_mem_names (type, d) h, fun hg => ?_, fun hg => ?_⟩
  · rw [ofTag, w.nameOfTag_text h, hg, List.append_nil, lookup_names h]
    rfl
  · rw [ofTag, w.nameOfTag_text h, lookup_names_append w.isBlank_gap hg]
    rfl

section Tags

theorem isBlank_nothing : Text.isBlank [] := rfl

theorem isBlank_space : Text.isBlank " " := rfl

theorem isQualifier_sequelize : IsQualifier "DataTypes.Sequelize." :=
  .inr ⟨"DataTypes.Sequelize", by decide, rfl⟩

theorem lower_decimal : Text.lower "DECIMAL" = "decimal" := by decide +kernel

theorem lower_integer : Text.lower "INTEGER" = "integer" := by decide +kernel

def decimalTag : WrittenTag "decimal" where
  lead := ⟨" ", isBlank_space⟩
  qualifier := ⟨"DataTypes.Sequelize.", isQualifier_sequelize⟩
  name := ⟨"DECIMAL", lower_decimal⟩
  arguments := some (⟨[], isBlank_nothing⟩, "10.2")
  trail := ⟨" ", isBlank_space⟩

theorem ofTag_text_decimal : (("decimal" : Text), DataType.number) ∈ names ∧ decimalTag.gap = [] ∧
    decimalTag.text = " DataTypes.Sequelize.DECIMAL(10.2) " ∧
    ofTag decimalTag.text = .number := by
  have h : (("decimal" : Text), DataType.number) ∈ names := by decide
  exact ⟨h, rfl, rfl, (ofTag_text h decimalTag).2.1 rfl⟩

def spacedTag : WrittenTag "integer" where
  lead := ⟨[], isBlank_nothing⟩
  qualifier := ⟨[], isQualifier_nil⟩
  name := ⟨"INTEGER", lower_integer⟩
  arguments := some (⟨" ", isBlank_space⟩, "10")
  trail := ⟨[], isBlank_nothing⟩

theorem ofTag_spacedArguments : spacedTag.text = "INTEGER (10)" ∧
    ofTag spacedTag.text = .string ∧ ofTag "integer" = .integer := by
  decide +kernel

end Tags

end DataType

end RouteAtlas
