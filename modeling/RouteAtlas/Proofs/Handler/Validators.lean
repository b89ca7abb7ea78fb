import Mathlib.Data.List.Induction
import Mathlib.Data.List.Nodup
import RouteAtlas.Handler.Analysis
import RouteAtlas.Proofs.Text.Search

/-!
# Validators of a chain

A library is detected in a text if one of its marks stands in it. A chain shows the libraries of its
sources in the order in which they are met.
-/

namespace RouteAtlas

namespace Text

variable {t r : Text}

theorem finds_iff {p : Text → Bool} : finds p t ↔ ∃ s, s <:+ t ∧ p s := by
  induction t with
  | nil => simp [finds]
  | cons c t ih => simp [finds, ih, List.suffix_cons_iff, or_and_right, exists_or]

theorem after_trimLeft_iff {c : CodePoint} (hc : c.isBlank = false) {w : Text} :
    after (c :: w) t.trimLeft = some r ↔ ∃ gap, gap.isBlank ∧ t = gap ++ (c :: w ++ r) := by
  constructor
  · intro h
    obtain ⟨gap, hg, ht⟩ := exists_append_trimLeft t
    exact ⟨gap, hg, ht.trans (by rw [eq_append_of_after h])⟩
  · rintro ⟨gap, hg, rfl⟩
    rw [trimLeft_append hg, List.cons_append, trimLeft_cons hc]
    exact after_append (c :: w) r

end Text

namespace Validator

def words : Validator → List Text
  | .joi => ["Joi.", "joi."]
  | .yup => ["yup.", "Yup."]
  | .expressValidator => ["express-validator", "check(", "body("]
  | .pydantic => ["pydantic", "BaseModel"]
  | .marshmallow => ["marshmallow"]

def IsMade (made : Text) : Prop :=
  made = [] ∨ ∃ inner : Text, inner.isBlank ∧ made = "(" ++ (inner ++ ")")

/-- A call of `load` on a schema, made on the spot or not. -/
def IsSchemaLoad (m : Text) : Prop :=
  ∃ made gap : Text, IsMade made ∧ gap.isBlank ∧ m = "Schema" ++ (made ++ (".load" ++ (gap ++ "(")))

/-- What a library is detected by. -/
def IsMark (v : Validator) (m : Text) : Prop := m ∈ v.words ∨ v = .marshmallow ∧ IsSchemaLoad m

section Marks

variable {v : Validator} {s t made : Text}

/-- Behind parentheses that make a schema, or at once where there are none. -/
theorem exists_made (t : Text) : ∃ made, IsMade made ∧
    t = made ++ ((Text.after "(" t).bind fun t => Text.after ")" t.trimLeft).getD t := by
  cases h : (Text.after "(" t).bind fun t => Text.after ")" t.trimLeft with
  | none => exact ⟨[], .inl rfl, rfl⟩
  | some u =>
    obtain ⟨w, hw, hu⟩ := Option.bind_eq_some_iff.1 h
    obtain ⟨inner, hi, rfl⟩ := (Text.after_trimLeft_iff (by decide)).1 hu
    exact ⟨_, .inr ⟨inner, hi, rfl⟩, by rw [Text.eq_append_of_after hw]; simp; rfl⟩

theorem getD_made (h : IsMade made) (t : Text) :
    ((Text.after "(" (made ++ (".load" ++ t))).bind fun t => Text.after ")" t.trimLeft).getD
      (made ++ (".load" ++ t)) = ".load" ++ t := by
  rcases h with rfl | ⟨inner, hi, rfl⟩
  · rfl
  · have hc : Text.after ")" (inner ++ (")" ++ (".load" ++ t))).trimLeft = some (".load" ++ t) :=
      (Text.after_trimLeft_iff (by decide)).2 ⟨inner, hi, rfl⟩
    simp [hc]

theorem schemaLoad_iff : schemaLoad s ↔ ∃ m, IsSchemaLoad m ∧ m <+: s := by
  unfold schemaLoad
  constructor
  · intro h
    split at h
    · cases h
    · rename_i t ht
      obtain rfl := Text.eq_append_of_after ht
      obtain ⟨r, hr⟩ := Option.isSome_iff_exists.1 h
      obtain ⟨u, hu, hr⟩ := Option.bind_eq_some_iff.1 hr
      obtain ⟨gap, hg, rfl⟩ := (Text.after_trimLeft_iff (by decide)).1 hr
      obtain ⟨made, hm, ht⟩ := exists_made t
      rw [Text.eq_append_of_after hu] at ht
      exact ⟨_, ⟨made, gap, hm, hg, rfl⟩, r, by rw [ht]; simp; rfl⟩
  · rintro ⟨_, ⟨made, gap, hm, hg, rfl⟩, r, rfl⟩
    have hl : Text.after "(" (gap ++ ("(" ++ r)).trimLeft = some r :=
      (Text.after_trimLeft_iff (by decide)).2 ⟨gap, hg, rfl⟩
    simp [getD_made hm, hl]

theorem finds_schemaLoad_iff : Text.finds schemaLoad s ↔ ∃ m, IsSchemaLoad m ∧ m <:+: s := by
  simp only [Text.finds_iff, schemaLoad_iff, List.infix_iff_prefix_suffix]
  constructor
  · rintro ⟨t, ht, m, hm, hp⟩
    exact ⟨m, hm, t, hp, ht⟩
  · rintro ⟨m, hm, t, hp, ht⟩
    exact ⟨t, ht, m, hm, hp⟩

theorem marks_iff : v.marks s ↔ ∃ m, IsMark v m ∧ m <:+: s := by
  cases v <;> simp [marks, IsMark, words, Text.occursIn_iff, finds_schemaLoad_iff, or_assoc]

theorem marks_nil (v : Validator) : v.marks [] = false := by
  cases v <;> rfl

theorem marks_mono (h : s <:+: t) (hs : v.marks s) : v.marks t := by
  obtain ⟨m, hm, hi⟩ := marks_iff.1 hs
  exact marks_iff.2 ⟨m, hm, hi.trans h⟩

end Marks

section Chains

variable {v : Validator} {found : List Validator} {source : Text} {sources : List Text}

theorem mem_all (v : Validator) : v ∈ all := by
  cases v <;> decide

theorem mem_add : v ∈ add found source ↔ v ∈ found ∨ v.marks source := by
  by_cases hv : v ∈ found <;> simp [add, mem_all, hv]

theorem mem_foldl_add :
    v ∈ sources.foldl add found ↔ v ∈ found ∨ ∃ source ∈ sources, v.marks source := by
  induction sources generalizing found with
  | nil => simp
  | cons source sources ih => rw [List.foldl_cons, ih, mem_add, or_assoc, List.exists_mem_cons_iff]

theorem mem_detect : v ∈ detect sources ↔ ∃ source ∈ sources, v.marks source := by
  simp [detect, mem_foldl_add]

theorem nodup_add (h : found.Nodup) (source : Text) : (add found source).Nodup := by
  have hall : all.Nodup := by decide
  apply List.nodup_append.2
  refine ⟨h, hall.filter _, ?_⟩
  rintro v hv w hw rfl
  have hn : v ∉ found ∧ v.marks source := by simpa using (List.mem_filter.1 hw).2
  exact hn.1 hv

theorem nodup_detect (sources : List Text) : (detect sources).Nodup := by
  have hrun (found : List Validator) (h : found.Nodup) : (sources.foldl add found).Nodup := by
    induction sources generalizing found with
    | nil => exact h
    | cons source sources ih => exact ih _ (nodup_add h source)
  exact hrun [] List.nodup_nil

/-- Sources add to what is found before what they show by themselves, without what is there. -/
theorem foldl_add (found : List Validator) (sources : List Text) :
    sources.foldl add found = found ++ (detect sources).filter (· ∉ found) := by
  induction sources using List.reverseRecOn with
  | nil => simp [detect]
  | append_singleton sources source ih =>
    have hd : detect (sources ++ [source]) = add (detect sources) source := by
      rw [detect, List.foldl_append]
      rfl
    rw [List.foldl_append, List.foldl_cons, List.foldl_nil, ih, hd, add, add, List.filter_append,
      List.filter_filter, List.append_assoc]
    congr 2
    -- the source adds the same to both runs: what it shows and neither has
    refine List.filter_congr fun v _ => ?_
    by_cases hv : v ∈ found <;> simp [hv]

theorem detect_append (xs ys : List Text) :
    detect (xs ++ ys) = detect xs ++ (detect ys).filter (· ∉ detect xs) := by
  rw [detect, List.foldl_append]
  exact foldl_add _ ys

/-- A source that is missing shows as little as an empty one. -/
theorem mem_ofSources {xs : List (Option Text)} :
    v ∈ ofSources xs ↔ ∃ source ∈ xs, v.marks (source.getD []) := by
  rw [ofSources, mem_detect]
  constructor
  · rintro ⟨s, hs, hv⟩
    exact ⟨some s, by simpa using hs, hv⟩
  · rintro ⟨_ | s, hs, hv⟩
    · simp [marks_nil] at hv
    · exact ⟨s, by simpa using hs, hv⟩

end Chains

/-- A chain shows the libraries of its first part and then those of the rest that are new, none
twice. They are the libraries of which a mark stands in a source, so none is lost when a source is
replaced by one that holds it. -/
theorem ofSources_append (xs ys : List (Option Text)) :
    ofSources (xs ++ ys) = ofSources xs ++ (ofSources ys).filter (· ∉ ofSources xs) ∧
    (ofSources xs).Nodup ∧
    (∀ v, v ∈ ofSources xs ↔ ∃ source, some source ∈ xs ∧ ∃ m, IsMark v m ∧ m <:+: source) ∧
    ∀ s t : Option Text, s.getD [] <:+: t.getD [] →
      ofSources (xs ++ s :: ys) ⊆ ofSources (xs ++ t :: ys) := by
  refine ⟨?_, nodup_detect _, fun v => ?_, fun s t h v hv => ?_⟩
  · rw [ofSources, List.filterMap_append]
    exact detect_append _ _
  · simp [ofSources, mem_detect, marks_iff]
  · obtain ⟨source, hs, hm⟩ := mem_ofSources.1 hv
    rcases List.mem_append.1 hs with hs | hs
    · exact mem_ofSources.2 ⟨source, by simp [hs], hm⟩
    · rcases List.mem_cons.1 hs with rfl | hs
      · exact mem_ofSources.2 ⟨t, by simp, marks_mono h hm⟩
      · exact mem_ofSources.2 ⟨source, by simp [hs], hm⟩

def signUpChain : List (Option Text) := [some "Joi.object(); joi.string()", none, some ""]

theorem ofSources_append_signUp :
    ofSources (signUpChain ++ [some ("check(id); Joi.any()" : Text)]) = [.joi, .expressValidator] ∧
    Text.ofString "Schema( ).load(" <:+: "new UserSchema( ).load(body)" ∧
    .marshmallow ∈ ofSources (signUpChain ++ [some ("Schema( ).load(" : Text)]) ∧
    .marshmallow ∈ ofSources (signUpChain ++ [some ("new UserSchema( ).load(body)" : Text)]) := by
  have ha := (ofSources_append signUpChain [some ("check(id); Joi.any()" : Text)]).1
  have hi : Text.ofString "Schema( ).load(" <:+: "new UserSchema( ).load(body)" :=
    ⟨"new User", "body)", rfl⟩
  have hm : .marshmallow ∈ ofSources (signUpChain ++ [some ("Schema( ).load(" : Text)]) := by decide
  have hs := (ofSources_append signUpChain []).2.2.2 (some ("Schema( ).load(" : Text)) (some _)
    hi hm
  exact ⟨ha.trans (by decide), hi, hm, hs⟩

end Validator
end RouteAtlas
