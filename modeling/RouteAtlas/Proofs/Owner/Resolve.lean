import Mathlib.Data.List.TakeWhile
import Mathlib.Tactic.Common
import RouteAtlas.Handler.Basic
import RouteAtlas.Owner.Resolve
import RouteAtlas.Proofs.Text.Case
import RouteAtlas.Proofs.Text.Search

/-!
# Who owns a route

The owner comes from the first source that knows one: the controllers under the name of the handler,
the same with the handler suffix, the path, the words of the name.
-/

namespace RouteAtlas

namespace Owner

section Segments

variable {s path : Text}

/-- A segment that stands for a parameter. -/
def IsPlaceholder (s : Text) : Prop := ∃ c r, s = c :: r ∧ (c = ':' ∨ c = '{' ∨ c = '<')

def IsLiteral (s : Text) : Prop := s ≠ [] ∧ ¬ IsPlaceholder s

def IsApi (s : Text) : Prop :=
  ∃ a p i : CodePoint, s = [a, p, i] ∧ (a = 'a' ∨ a = 'A') ∧ (p = 'p' ∨ p = 'P') ∧
    (i = 'i' ∨ i = 'I')

/-- A `v` in either case with nothing but decimal digits behind it. -/
def IsVersion (s : Text) : Prop :=
  ∃ c ds, s = c :: ds ∧ (c = 'v' ∨ c = 'V') ∧ ds ≠ [] ∧ ∀ d ∈ ds, d.isDigit

/-- A segment that does not say what a route is about. -/
def IsGeneric (s : Text) : Prop := IsApi s ∨ IsVersion s

theorem isLiteral_iff : isLiteral s ↔ IsLiteral s := by
  cases s with
  | nil => simp [isLiteral, IsLiteral]
  | cons c r =>
    have h : IsPlaceholder (c :: r) ↔ c = ':' ∨ c = '{' ∨ c = '<' := by
      simp only [IsPlaceholder, List.cons.injEq]
      exact ⟨fun ⟨_, _, ⟨rfl, rfl⟩, h⟩ => h, fun h => ⟨c, r, ⟨rfl, rfl⟩, h⟩⟩
    simp [isLiteral, IsLiteral, h, not_or, and_assoc]

theorem isApi_iff : IsApi s ↔ s.lower = "api" := by
  constructor
  · rintro ⟨a, p, i, rfl, rfl | rfl, rfl | rfl, rfl | rfl⟩ <;> decide
  · intro h
    obtain ⟨a, s, w, rfl, ha, h⟩ := Text.exists_of_lowerFrom_eq_cons h (by decide) (by decide)
    obtain ⟨p, s, w, rfl, hp, h⟩ := Text.exists_of_lowerFrom_eq_cons h (by decide) (by decide)
    obtain ⟨i, s, w, rfl, hi, h⟩ := Text.exists_of_lowerFrom_eq_cons h (by decide) (by decide)
    obtain rfl := Text.lowerFrom_eq_nil_iff.1 h
    exact ⟨a, p, i, rfl,
      CodePoint.eq_or_eq_of_mapped (by decide) (by decide) (by decide +kernel) ha,
      CodePoint.eq_or_eq_of_mapped (by decide) (by decide) (by decide +kernel) hp,
      CodePoint.eq_or_eq_of_mapped (by decide) (by decide) (by decide +kernel) hi⟩

theorem isVersion_of_digits (h : IsVersion s) : isVersion s := by
  obtain ⟨c, ds, rfl, hc, hne, hd⟩ := h
  obtain ⟨d, r, rfl⟩ := List.exists_cons_of_ne_nil hne
  have hr : (d :: r).dropWhile CodePoint.isDigit = [] := List.dropWhile_eq_nil_iff.2 hd
  rw [isVersion, CodePoint.agrees_v_iff.2 hc, hr]
  simp [hd d, atEnd]

theorem atEnd_iff {t : Text} (h : .char '\n' ∉ t) : atEnd t ↔ t = [] := by
  have hn : t ≠ "\n" := by
    rintro rfl
    exact h (by decide)
  simp [atEnd, hn]

theorem isVersion_iff (h : .char '\n' ∉ s) : isVersion s ↔ IsVersion s := by
  refine ⟨fun hv => ?_, isVersion_of_digits⟩
  cases s with
  | nil => cases hv
  | cons c r =>
    simp only [isVersion, Bool.and_eq_true, CodePoint.agrees_v_iff] at hv
    obtain ⟨⟨hc, hd⟩, he⟩ := hv
    have hn : .char '\n' ∉ r.dropWhile CodePoint.isDigit := fun hm =>
      h (List.mem_cons_of_mem _ ((List.dropWhile_suffix _).mem hm))
    refine ⟨c, r, rfl, hc, ?_, List.dropWhile_eq_nil_iff.1 ((atEnd_iff hn).1 he)⟩
    rintro rfl
    cases hd

theorem isMeaningful_of_isGeneric (h : IsGeneric s) : isMeaningful s = false := by
  rcases h with h | h
  · simp [isMeaningful, isApi_iff.1 h]
  · simp [isMeaningful, isVersion_of_digits h]

theorem isMeaningful_iff (h : .char '\n' ∉ s) : isMeaningful s ↔ ¬ IsGeneric s := by
  rw [IsGeneric, isApi_iff, ← isVersion_iff h]
  simp [isMeaningful]

/-- The segment that a path is known by: the first literal one that is not generic, or the first
literal one if all of them are generic. -/
inductive Leads (path : Text) : Text → Prop
  | telling (before : List Text) {s : Text} (after : List Text)
      (h : path.cut '/' = before ++ s :: after) (hl : IsLiteral s) (hg : ¬ IsGeneric s)
      (hb : ∀ r ∈ before, IsLiteral r → IsGeneric r) : Leads path s
  | generic (before : List Text) {s : Text} (after : List Text)
      (h : path.cut '/' = before ++ s :: after) (hl : IsLiteral s)
      (hb : ∀ r ∈ before, ¬ IsLiteral r) (hg : ∀ r ∈ path.cut '/', IsLiteral r → IsGeneric r) :
      Leads path s

def isTelling (s : Text) : Bool := isMeaningful s && isLiteral s

theorem isTelling_iff (h : .char '\n' ∉ s) : isTelling s ↔ IsLiteral s ∧ ¬ IsGeneric s := by
  rw [isTelling, Bool.and_eq_true, isMeaningful_iff h, isLiteral_iff, and_comm]

theorem pathSegment?_eq (path : Text) :
    pathSegment? path = ((path.cut '/').find? isTelling).or ((path.cut '/').find? isLiteral) := by
  simp only [pathSegment?, List.filter_filter, List.head?_filter, Option.orElse_eq_orElse,
    Option.orElse_eq_or]
  rfl

theorem pathSegment?_eq_none_iff :
    pathSegment? path = none ↔ ∀ r ∈ path.cut '/', ¬ IsLiteral r := by
  simp only [pathSegment?_eq, Option.or_eq_none_iff, List.find?_eq_none, isTelling,
    Bool.and_eq_true, isLiteral_iff]
  exact ⟨And.right, fun h => ⟨fun r hr hl => h r hr hl.2, h⟩⟩

theorem pathSegment?_eq_some_iff (h : .char '\n' ∉ path) :
    pathSegment? path = some s ↔ Leads path s := by
  have ht : ∀ r ∈ path.cut '/', isTelling r ↔ IsLiteral r ∧ ¬ IsGeneric r := fun r hr =>
    isTelling_iff fun hc => h (Text.mem_of_mem_of_mem_cut hr hc)
  have hn : ∀ r ∈ path.cut '/', isTelling r = false ↔ (IsLiteral r → IsGeneric r) := by
    intro r hr
    rw [← Bool.not_eq_true, ht r hr, not_and_not_right]
  rw [pathSegment?_eq, Option.or_eq_some_iff, List.find?_eq_some_iff_append,
    List.find?_eq_some_iff_append, List.find?_eq_none]
  simp only [Bool.not_eq_true, Bool.not_eq_eq_eq_not, Bool.not_true]
  constructor
  · rintro (⟨hs, before, after, he, hb⟩ | ⟨hg, hl, before, after, he, hb⟩)
    · obtain ⟨hl, hs⟩ := (ht s (by simp [he])).1 hs
      exact .telling before after he hl hs fun r hr => (hn r (by simp [he, hr])).1 (hb r hr)
    · exact .generic before after he (isLiteral_iff.1 hl)
        (fun r hr hr' => Bool.eq_false_iff.1 (hb r hr) (isLiteral_iff.2 hr'))
        fun r hr => (hn r hr).1 (hg r hr)
  · rintro (⟨before, after, he, hl, hg, hb⟩ | ⟨before, after, he, hl, hb, hg⟩)
    · exact .inl ⟨(ht s (by simp [he])).2 ⟨hl, hg⟩, before, after, he,
        fun r hr => (hn r (by simp [he, hr])).2 (hb r hr)⟩
    · exact .inr ⟨fun r hr => (hn r hr).2 (hg r hr), isLiteral_iff.2 hl, before, after, he,
        fun r hr => Bool.eq_false_iff.2 (mt isLiteral_iff.1 (hb r hr))⟩

end Segments

section Insertion

variable {s path path' : Text}

/-- Lists of which the second has further items with a property at any places. -/
inductive Interspersed {α : Type} (p : α → Prop) : List α → List α → Prop
  | nil : Interspersed p [] []
  | keep (x : α) {xs ys : List α} (h : Interspersed p xs ys) : Interspersed p (x :: xs) (x :: ys)
  | insert {y : α} (hy : p y) {xs ys : List α} (h : Interspersed p xs ys) :
      Interspersed p xs (y :: ys)

theorem Interspersed.filter_eq {α : Type} {p : α → Prop} {q : α → Bool} {xs ys : List α}
    (h : Interspersed p xs ys) (hq : ∀ y, p y → q y = false) : ys.filter q = xs.filter q := by
  induction h with
  | nil => rfl
  | keep x _ ih => rw [List.filter_cons, List.filter_cons, ih]
  | insert hy _ ih => rw [List.filter_cons, hq _ hy, ih]; rfl

theorem pathSegment?_of_interspersed
    (h : Interspersed (fun r => r = [] ∨ IsPlaceholder r) (path.cut '/') (path'.cut '/')) :
    pathSegment? path' = pathSegment? path := by
  have hf : (path'.cut '/').filter isLiteral = (path.cut '/').filter isLiteral := by
    refine h.filter_eq fun r hr => Bool.eq_false_iff.2 fun hl => ?_
    have hl := isLiteral_iff.1 hl
    exact hr.elim hl.1 hl.2
  rw [pathSegment?, pathSegment?, hf]

/-- A telling segment hides the generic ones. -/
theorem pathSegment?_of_mem (hs : s ∈ path.cut '/') (ht : isTelling s) :
    pathSegment? path = (path.cut '/').find? isTelling := by
  have hf : ((path.cut '/').find? isTelling).isSome := List.find?_isSome.2 ⟨s, hs, ht⟩
  rw [pathSegment?_eq, Option.or_of_isSome hf]

theorem pathSegment?_of_interspersed_generic (hs : s ∈ path.cut '/') (ht : isTelling s)
    (h : Interspersed IsGeneric (path.cut '/') (path'.cut '/')) :
    pathSegment? path' = pathSegment? path := by
  have hf : (path'.cut '/').filter isTelling = (path.cut '/').filter isTelling :=
    h.filter_eq fun r hr => by simp [isTelling, isMeaningful_of_isGeneric hr]
  have hs' : s ∈ path'.cut '/' := (List.mem_filter.1 (hf ▸ List.mem_filter.2 ⟨hs, ht⟩)).1
  rw [pathSegment?_of_mem hs ht, pathSegment?_of_mem hs' ht, ← List.head?_filter,
    ← List.head?_filter, hf]

theorem pathSegment?_of_cut_eq {before after after' : List Text} (ht : isTelling s)
    (h : path.cut '/' = before ++ s :: after) (h' : path'.cut '/' = before ++ s :: after') :
    pathSegment? path' = pathSegment? path := by
  have hs : s ∈ path.cut '/' := by simp [h]
  have hs' : s ∈ path'.cut '/' := by simp [h']
  rw [pathSegment?_of_mem hs ht, pathSegment?_of_mem hs' ht, h, h', List.find?_append,
    List.find?_append, List.find?_cons_of_pos ht, List.find?_cons_of_pos ht]

end Insertion

section Stem

variable {suffix name stem : Text}

/-- A name without the suffix at its end, which may be in any case and have a low line or a hyphen
before it. -/
inductive StemOf (suffix name : Text) : Text → Prop
  | marked {stem ending : Text} {m : CodePoint} (h : name = stem ++ m :: ending)
      (hm : m = '_' ∨ m = '-') (ha : Text.Agree suffix ending) : StemOf suffix name stem
  | bare {stem ending : Text} (h : name = stem ++ ending) (ha : Text.Agree suffix ending)
      (hm : ∀ m ∈ stem.getLast?, ¬ (m = '_' ∨ m = '-')) : StemOf suffix name stem
  | whole (h : ∀ stem ending, name = stem ++ ending → ¬ Text.Agree suffix ending) :
      StemOf suffix name name

open Classical in
theorem filter_atEnd_afterAgreeing {t : Text} (h : .char '\n' ∉ t) :
    (Text.afterAgreeing suffix t).filter atEnd =
      if Text.Agree suffix t then some [] else none := by
  split
  · rename_i ha
    have he := Text.afterAgreeing_append ha []
    rw [List.append_nil] at he
    rw [he]
    rfl
  · rename_i ha
    refine Option.filter_eq_none_iff.2 fun rest hs he => ha ?_
    obtain ⟨s, rfl, hs⟩ := Text.agree_of_afterAgreeing hs
    obtain rfl := (atEnd_iff fun hc => h (by simp [hc])).1 he
    rwa [List.append_nil]

open Classical in
theorem suffixEnd?_cons {c : CodePoint} {r : Text} (h : .char '\n' ∉ c :: r) :
    suffixEnd? suffix (c :: r) =
      if ((c = '_' ∨ c = '-') ∧ Text.Agree suffix r) ∨ Text.Agree suffix (c :: r) then some []
      else none := by
  have hr : .char '\n' ∉ r := fun hc => h (by simp [hc])
  simp only [suffixEnd?, filter_atEnd_afterAgreeing h, filter_atEnd_afterAgreeing hr,
    Option.orElse_eq_orElse, Option.orElse_eq_or]
  split_ifs <;> simp_all

theorem StemOf.cons {c : CodePoint} {r : Text} (h : StemOf suffix r stem)
    (hm : ¬ ((c = '_' ∨ c = '-') ∧ Text.Agree suffix r)) (hb : ¬ Text.Agree suffix (c :: r)) :
    StemOf suffix (c :: r) (c :: stem) := by
  cases h with
  | marked he hc ha => exact .marked (congrArg (c :: ·) he) hc ha
  | @bare stem ending he ha hc =>
    refine .bare (congrArg (c :: ·) he) ha ?_
    cases stem with
    | nil =>
      have hr : Text.Agree suffix r := he ▸ ha
      simpa using fun h => hm ⟨h, hr⟩
    | cons d stem => simpa [List.getLast?_cons_cons] using hc
  | whole hn =>
    refine .whole fun stem ending he ha => ?_
    cases stem with
    | nil => exact hb (he ▸ ha)
    | cons d stem => exact hn stem ending (List.cons.inj he).2 ha

theorem stemOf_dropSuffix (h : .char '\n' ∉ name) :
    StemOf suffix name (dropSuffix suffix name) := by
  induction name with
  | nil =>
    cases suffix with
    | nil =>
      have hs : StemOf [] [] [] := .bare rfl .nil (by simp)
      exact hs
    | cons c s =>
      refine .whole fun stem ending he ha => ?_
      obtain ⟨-, rfl⟩ := List.append_eq_nil_iff.1 he.symm
      cases ha
  | cons c r ih =>
    have hr : .char '\n' ∉ r := fun hc => h (by simp [hc])
    rw [dropSuffix, suffixEnd?_cons h]
    split_ifs with hs
    · rcases hs with ⟨hc, ha⟩ | ha
      · exact .marked (List.nil_append _).symm hc ha
      · exact .bare (List.nil_append _).symm ha (by simp)
    · obtain ⟨hm, hb⟩ := not_or.1 hs
      exact (ih hr).cons hm hb

theorem StemOf.unique {stem' : Text} (h : StemOf suffix name stem) (h' : StemOf suffix name stem') :
    stem = stem' := by
  have hmb : ∀ {s t u v : Text} {m : CodePoint}, name = s ++ m :: u → (m = '_' ∨ m = '-') →
      Text.Agree suffix u → name = t ++ v → Text.Agree suffix v →
      ¬ ∀ m ∈ t.getLast?, ¬ (m = '_' ∨ m = '-') := by
    intro s t u v m he hm ha he' ha' hl
    have he : s ++ [m] ++ u = t ++ v := by simpa using he.symm.trans he'
    obtain ⟨rfl, -⟩ := List.append_inj' he (ha.length_eq.symm.trans ha'.length_eq)
    exact hl m (by simp) hm
  cases h with
  | marked he hm ha =>
    cases h' with
    | marked he' hm' ha' =>
      exact (List.append_inj' (he.symm.trans he')
        (by simp [← ha.length_eq, ha'.length_eq])).1
    | bare he' ha' hl => exact absurd hl (hmb he hm ha he' ha')
    | whole hn => exact absurd ha (hn (_ ++ [_]) _ (by simpa using he))
  | bare he ha hl =>
    cases h' with
    | marked he' hm' ha' => exact absurd hl (hmb he' hm' ha' he ha)
    | bare he' ha' _ =>
      exact (List.append_inj' (he.symm.trans he') (ha.length_eq.symm.trans ha'.length_eq)).1
    | whole hn => exact absurd ha (hn _ _ he)
  | whole hn =>
    cases h' with
    | marked he' _ ha' => exact absurd ha' (hn (_ ++ [_]) _ (by simpa using he'))
    | bare he' ha' _ => exact absurd ha' (hn _ _ he')
    | whole _ => rfl

theorem titleWords_eq_nil_iff {t : Text} : titleWords t = [] ↔ words t = [] := by
  have hw : ∀ w ∈ words t, Text.capitalized w ≠ [] := fun w hw =>
    Text.capitalized_ne_nil (by simpa using (List.mem_filter.1 hw).2)
  unfold titleWords
  rcases hws : words t with _ | ⟨w, ws⟩
  · simp [Text.join]
  · have hn : Text.capitalized w ≠ [] := hw w (by simp [hws])
    cases ws with
    | nil => simpa [Text.join] using hn
    | cons v vs => simp [Text.join_cons_cons, hn]

end Stem

section Sources

variable {n : Naming} {map : ControllerMap} {name path tag : Text}

def Tagged (map : ControllerMap) (name tag : Text) : Prop := map.lookup name = some tag ∧ tag ≠ []

/-- A name that a map has, with the handler suffix or without it. -/
def Known (n : Naming) (map : ControllerMap) (name : Text) : Prop :=
  name ≠ [] ∧ ∃ tag, Tagged map name tag ∨ Tagged map (name ++ n.handlerSuffix) tag

/-- The sources of an owner, each with what all sources before it lack. No map is asked for a
handler that has no name. -/
inductive Owns (n : Naming) (map : ControllerMap) (name path : Text) : Text → Prop
  | named {tag : Text} (hn : name ≠ []) (ht : Tagged map name tag) : Owns n map name path tag
  | suffixed {tag : Text} (hn : name ≠ []) (hu : ∀ t, ¬ Tagged map name t)
      (ht : Tagged map (name ++ n.handlerSuffix) tag) : Owns n map name path tag
  | placed {s : Text} (hk : ¬ Known n map name) (hs : Leads path s) :
      Owns n map name path (withCapital s ++ tagSuffix)
  | worded {stem : Text} (hk : ¬ Known n map name) (hp : ∀ s ∈ path.cut '/', ¬ IsLiteral s)
      (hs : StemOf n.handlerSuffix name stem) (hw : words stem ≠ []) :
      Owns n map name path (titleWords stem ++ tagSuffix)
  | unknown {stem : Text} (hk : ¬ Known n map name) (hp : ∀ s ∈ path.cut '/', ¬ IsLiteral s)
      (hs : StemOf n.handlerSuffix name stem) (hw : words stem = []) :
      Owns n map name path fallback

theorem proper_eq_some_iff {t : Option Text} : proper t = some tag ↔ t = some tag ∧ tag ≠ [] := by
  simp [proper, Option.filter_eq_some_iff]

theorem byName?_eq_some_iff : byName? map name = some tag ↔ name ≠ [] ∧ Tagged map name tag := by
  simp [byName?, Tagged, proper_eq_some_iff]

theorem bySuffixedName?_eq_some_iff : bySuffixedName? n map name = some tag ↔
    name ≠ [] ∧ Tagged map (name ++ n.handlerSuffix) tag := by
  simp [bySuffixedName?, Tagged, proper_eq_some_iff]

theorem not_known_iff : ¬ Known n map name ↔
    byName? map name = none ∧ bySuffixedName? n map name = none := by
  simp only [Option.eq_none_iff_forall_ne_some, ne_eq, byName?_eq_some_iff,
    bySuffixedName?_eq_some_iff, Known]
  constructor
  · exact fun hk => ⟨fun t h => hk ⟨h.1, t, .inl h.2⟩, fun t h => hk ⟨h.1, t, .inr h.2⟩⟩
  · rintro ⟨hn, hs⟩ ⟨hne, t, h | h⟩
    · exact hn t ⟨hne, h⟩
    · exact hs t ⟨hne, h⟩

theorem byPath?_eq_none_iff : byPath? path = none ↔ ∀ s ∈ path.cut '/', ¬ IsLiteral s := by
  rw [byPath?, Option.map_eq_none_iff, pathSegment?_eq_none_iff]

theorem byPath?_of_leads {s : Text} (hp : .char '\n' ∉ path) (h : Leads path s) :
    byPath? path = some (withCapital s ++ tagSuffix) := by
  rw [byPath?, (pathSegment?_eq_some_iff hp).2 h]
  rfl

theorem byWords?_of_stemOf {stem : Text} (hn : .char '\n' ∉ name)
    (h : StemOf n.handlerSuffix name stem) : byWords? n name =
      if words stem = [] then none else some (titleWords stem ++ tagSuffix) := by
  rw [byWords?, (stemOf_dropSuffix hn).unique h]
  split
  · rename_i hw
    rw [titleWords_eq_nil_iff.2 hw]
    rfl
  · rename_i hw
    rw [proper_eq_some_iff.2 ⟨rfl, mt titleWords_eq_nil_iff.1 hw⟩]
    rfl

theorem Owns.eq_resolve (hn : .char '\n' ∉ name) (hp : .char '\n' ∉ path)
    (h : Owns n map name path tag) : resolve n map name path = tag := by
  unfold resolve
  cases h with
  | named hne ht =>
    rw [byName?_eq_some_iff.2 ⟨hne, ht⟩]
    rfl
  | suffixed hne hu ht =>
    have hb : byName? map name = none := Option.eq_none_iff_forall_ne_some.2 fun t h =>
      hu t (byName?_eq_some_iff.1 h).2
    rw [hb, bySuffixedName?_eq_some_iff.2 ⟨hne, ht⟩]
    rfl
  | placed hk hs =>
    obtain ⟨hb, hb'⟩ := not_known_iff.1 hk
    rw [hb, hb', byPath?_of_leads hp hs]
    rfl
  | worded hk hl hs hw =>
    obtain ⟨hb, hb'⟩ := not_known_iff.1 hk
    rw [hb, hb', byPath?_eq_none_iff.2 hl, byWords?_of_stemOf hn hs, if_neg hw]
    rfl
  | unknown hk hl hs hw =>
    obtain ⟨hb, hb'⟩ := not_known_iff.1 hk
    rw [hb, hb', byPath?_eq_none_iff.2 hl, byWords?_of_stemOf hn hs, if_pos hw]
    rfl

theorem exists_owns (n : Naming) (map : ControllerMap) (hn : .char '\n' ∉ name)
    (hp : .char '\n' ∉ path) : ∃ tag, Owns n map name path tag := by
  by_cases hk : Known n map name
  · obtain ⟨hne, tag, h⟩ := hk
    by_cases hu : ∃ t, Tagged map name t
    · obtain ⟨t, ht⟩ := hu
      exact ⟨t, .named hne ht⟩
    · have hu := not_exists.1 hu
      exact ⟨tag, .suffixed hne hu (h.resolve_left (hu tag))⟩
  · have hs : StemOf n.handlerSuffix name (dropSuffix n.handlerSuffix name) := stemOf_dropSuffix hn
    cases hl : pathSegment? path with
    | some s => exact ⟨_, .placed hk ((pathSegment?_eq_some_iff hp).1 hl)⟩
    | none =>
      by_cases hw : words (dropSuffix n.handlerSuffix name) = []
      · exact ⟨_, .unknown hk (pathSegment?_eq_none_iff.1 hl) hs hw⟩
      · exact ⟨_, .worded hk (pathSegment?_eq_none_iff.1 hl) hs hw⟩

theorem append_tagSuffix_ne_nil (t : Text) : t ++ tagSuffix ≠ [] := by
  have hs : tagSuffix ≠ [] := by decide
  simp [hs]

theorem resolve_ne_nil (n : Naming) (map : ControllerMap) (name path : Text) :
    resolve n map name path ≠ [] := by
  unfold resolve
  cases hn : byName? map name with
  | some tag => exact (byName?_eq_some_iff.1 hn).2.2
  | none =>
    cases hs : bySuffixedName? n map name with
    | some tag => exact (bySuffixedName?_eq_some_iff.1 hs).2.2
    | none =>
      cases hp : byPath? path with
      | some tag =>
        obtain ⟨segment, -, rfl⟩ := Option.map_eq_some_iff.1 hp
        exact append_tagSuffix_ne_nil _
      | none =>
        cases hw : byWords? n name with
        | some tag =>
          obtain ⟨words, -, rfl⟩ := Option.map_eq_some_iff.1 hw
          exact append_tagSuffix_ne_nil _
        | none =>
          change fallback ≠ []
          decide

theorem resolve_of_pathSegment?_eq {path' : Text} (h : pathSegment? path' = pathSegment? path) :
    resolve n map name path' = resolve n map name path := by
  rw [resolve, resolve, byPath?, byPath?, h]

end Sources

/-- The owner of a route is a tag that is not empty, from the first source that knows one.
Placeholders and further slashes in a path never change it. In a path with a literal segment that is
not generic neither do generic segments at any place, nor does what comes behind that segment. -/
theorem resolve_owns (n : Naming) (map : ControllerMap) (h : Handler) (path : Text)
    (hn : .char '\n' ∉ h.name) (hp : .char '\n' ∉ path) :
    resolve n map h.name path ≠ [] ∧
    (∀ tag, Owns n map h.name path tag ↔ resolve n map h.name path = tag) ∧
    (∀ path', Interspersed (fun s => s = [] ∨ IsPlaceholder s) (path.cut '/') (path'.cut '/') →
      resolve n map h.name path' = resolve n map h.name path) ∧
    ∀ before s after, path.cut '/' = before ++ s :: after → IsLiteral s → ¬ IsGeneric s →
      (∀ path', Interspersed IsGeneric (path.cut '/') (path'.cut '/') →
        resolve n map h.name path' = resolve n map h.name path) ∧
      ∀ path' after', path'.cut '/' = before ++ s :: after' →
        resolve n map h.name path' = resolve n map h.name path := by
  refine ⟨resolve_ne_nil n map h.name path, fun tag => ⟨Owns.eq_resolve hn hp, ?_⟩,
    fun path' hi => resolve_of_pathSegment?_eq (pathSegment?_of_interspersed hi),
    fun before s after he hl hg => ?_⟩
  · rintro rfl
    obtain ⟨tag, ho⟩ := exists_owns n map hn hp
    exact ho.eq_resolve hn hp ▸ ho
  · have hs : s ∈ path.cut '/' := by simp [he]
    have ht : isTelling s :=
      (isTelling_iff fun hc => hp (Text.mem_of_mem_of_mem_cut hs hc)).2 ⟨hl, hg⟩
    exact ⟨fun path' hi =>
        resolve_of_pathSegment?_eq (pathSegment?_of_interspersed_generic hs ht hi),
      fun path' after' he' => resolve_of_pathSegment?_eq (pathSegment?_of_cut_eq ht he he')⟩

def listing : Handler := .declared (some "list") none

theorem resolve_owns_listing :
    Owns {} [("list", [])] listing.name "/api/users" "Users Controller" ∧
    resolve {} [("list", [])] listing.name "/\x7borg\x7d/api//users" = "Users Controller" ∧
    resolve {} [("list", [])] listing.name "/v2/api/users" = "Users Controller" ∧
    resolve {} [("list", [])] listing.name "/api/users/7/orders" = "Users Controller" := by
  have hr : resolve {} [("list", [])] listing.name "/api/users" = "Users Controller" := by decide
  have hc : Text.cut '/' "/api/users" = ["", "api", "users"] := by decide
  have hp : IsPlaceholder "\x7borg\x7d" := ⟨'\x7b', "org\x7d", by decide, by simp⟩
  have hv : IsVersion "v2" := ⟨'v', "2", by decide, by simp, by decide, by decide⟩
  obtain ⟨-, ho, hi, hl⟩ :=
    resolve_owns {} [("list", [])] listing "/api/users" (by decide) (by decide)
  obtain ⟨hg, ha⟩ := hl ["", "api"] "users" [] hc (isLiteral_iff.1 (by decide))
    ((isTelling_iff (by decide)).1 (by decide)).2
  have hi := hi "/\x7borg\x7d/api//users" (by
    have h : Text.cut '/' "/\x7borg\x7d/api//users" = ["", "\x7borg\x7d", "api", "", "users"] := by
      decide
    rw [hc, h]
    exact .keep _ (.insert (.inr hp) (.keep _ (.insert (.inl (by decide)) (.keep _ .nil)))))
  have hg := hg "/v2/api/users" (by
    have h : Text.cut '/' "/v2/api/users" = ["", "v2", "api", "users"] := by decide
    rw [hc, h]
    exact .keep _ (.insert (.inr hv) (.keep _ (.keep _ .nil))))
  exact ⟨(ho _).2 hr, hi.trans hr, hg.trans hr, (ha _ ["7", "orders"] (by decide)).trans hr⟩

def anonymous : Handler := .declared (some "<lambda>") none

/-- Behind no name the suffix alone is not looked up, although controllers can export it. -/
theorem resolve_anonymous :
    (∀ t, ¬ Tagged [("Controller", "Base Controller")] anonymous.name t) ∧
    Tagged [("Controller", "Base Controller")] (anonymous.name ++ ({} : Naming).handlerSuffix)
      "Base Controller" ∧
    resolve {} [("Controller", "Base Controller")] anonymous.name "/users" =
      "Users Controller" := by
  have hn : List.lookup anonymous.name [(("Controller" : Text), ("Base Controller" : Text))] =
    none := by decide
  refine ⟨fun t ht => ?_, ⟨by decide, by decide⟩, by decide⟩
  rw [Tagged, hn] at ht
  cases ht.1

end Owner

end RouteAtlas
