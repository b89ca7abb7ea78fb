import Mathlib.Data.List.Nodup
import RouteAtlas.Entity.Schema
import RouteAtlas.Proofs.Text.Search

/-!
# Entities that a path names

A path names an entity if the singular of its name occurs in it. A path that holds more finds an
entity that stands no later in the catalog.
-/

namespace RouteAtlas.Entity

/-- What is left of a text without `w` at its end; a text that ends otherwise is left as it is. -/
def Strips (w t r : Text) : Prop := t = r ++ w ∨ ¬ w <:+ t ∧ r = t

def IsSingular (name s : Text) : Prop := ∃ u, Strips "model" name.lower u ∧ Strips "s" u s

/-- Whether a path names what is called so. A name whose singular is empty is never meant. -/
def Names (path name : Text) : Prop := ∃ s, IsSingular name s ∧ s ≠ [] ∧ s <:+: path.lower

section Names

variable {path longer name s t r w : Text}

theorem strips_iff :
    (if t.endsWith w then t.take (t.length - w.length) else t) = r ↔ Strips w t r := by
  by_cases h : w <:+ t
  · obtain ⟨u, rfl⟩ := h
    have hw : Text.endsWith (u ++ w) w := List.isSuffixOf_iff_suffix.2 ⟨u, rfl⟩
    simp [Strips, hw]
  · have hw : ¬ t.endsWith w := fun hw => h (List.isSuffixOf_iff_suffix.1 hw)
    have hn : t ≠ r ++ w := fun hr => h ⟨r, hr.symm⟩
    simp [Strips, hw, hn, h, eq_comm]

theorem stem_eq_iff : stem name = s ↔ IsSingular name s := by
  simp only [stem, IsSingular, strips_iff]
  simp only [← strips_iff (w := "model"), exists_eq_left']

theorem owns_iff : owns path name ↔ Names path name := by
  simp only [owns, Names, ← stem_eq_iff, Text.occursIn_iff, exists_eq_left', Bool.and_eq_true,
    Bool.not_eq_true', List.isEmpty_eq_false_iff]

instance : Decidable (Names path name) := decidable_of_iff _ owns_iff

theorem Names.mono (h : Names path name) (hl : path.lower <:+: longer.lower) :
    Names longer name := by
  obtain ⟨s, hs, hne, hi⟩ := h
  exact ⟨s, hs, hne, hi.trans hl⟩

end Names

variable {path longer : Text} {catalog : List Entity} {e : Entity}

theorem exists_of_matching (h : matching path catalog = some e) :
    ∃ i, ∃ hi : i < catalog.length, catalog[i] = e ∧ Names path e.name ∧
      ∀ j (hj : j < i), ¬ Names path catalog[j].name := by
  obtain ⟨he, i, hi, hie, hn⟩ := List.find?_eq_some_iff_getElem.1 h
  exact ⟨i, hi, hie, owns_iff.1 he, fun j hj hm => by simpa [owns_iff.2 hm] using hn j hj⟩

theorem matching_of_least {i : Nat} {hi : i < catalog.length} (hm : Names path catalog[i].name)
    (hn : ∀ j (hj : j < i), ¬ Names path catalog[j].name) :
    matching path catalog = some catalog[i] :=
  List.find?_eq_some_iff_getElem.2 ⟨owns_iff.2 hm, i, hi, rfl, fun j hj => by
    simpa [← owns_iff] using hn j hj⟩

theorem isSome_matching_of_mem (he : e ∈ catalog) (hm : Names path e.name) :
    (matching path catalog).isSome :=
  List.find?_isSome.2 ⟨e, he, owns_iff.2 hm⟩

/-- The entity that a path finds is the first that it names. A path that holds all of another one
finds an entity that stands no later, and entities added at the end change no entity found. -/
theorem matching_least (path : Text) (catalog : List Entity)
    (hd : (catalog.map Entity.name).Nodup) :
    (∀ i (hi : i < catalog.length), matching path catalog = some catalog[i] ↔
      Names path catalog[i].name ∧ ∀ j (hj : j < i), ¬ Names path catalog[j].name) ∧
    (∀ longer : Text, path.lower <:+: longer.lower → ∀ i (hi : i < catalog.length),
      matching path catalog = some catalog[i] →
        ∃ j, ∃ hj : j ≤ i, matching longer catalog = some catalog[j]) ∧
    ∀ more e, matching path catalog = some e → matching path (catalog ++ more) = some e := by
  refine ⟨fun i hi => ⟨fun h => ?_, fun h => matching_of_least h.1 h.2⟩, ?_, ?_⟩
  · obtain ⟨k, hk, hki, hm, hn⟩ := exists_of_matching h
    obtain rfl := (List.Nodup.getElem_inj_iff (hd.of_map _)).1 hki
    exact ⟨hm, hn⟩
  · intro longer hl i hi h
    obtain ⟨-, -, -, hp, -⟩ := exists_of_matching h
    have hm : Names longer catalog[i].name := hp.mono hl
    obtain ⟨e, he⟩ := Option.isSome_iff_exists.1
      (isSome_matching_of_mem (List.getElem_mem hi) hm)
    obtain ⟨j, hj, rfl, -, hn⟩ := exists_of_matching he
    exact ⟨j, Nat.le_of_not_lt fun hij => hn i hij hm, he⟩
  · intro more e h
    rw [matching, List.find?_append, ← matching, h, Option.some_or]

/-- Of these names the first three have an empty singular. -/
def shopCatalog : List Entity :=
  [⟨"SModel", []⟩, ⟨"Model", []⟩, ⟨"S", []⟩, ⟨"Users", []⟩, ⟨"MessageModel", []⟩,
   ⟨"UserModels", []⟩]

theorem matching_least_shop :
    matching "/models/Messages" shopCatalog = some ⟨"MessageModel", []⟩ ∧
    (∃ j, ∃ hj : j ≤ 4, matching "/models/Messages/user" shopCatalog =
      some (shopCatalog.get ⟨j, Nat.lt_of_le_of_lt hj (by decide)⟩)) ∧
    matching "/models/Messages" (shopCatalog ++ [⟨"Messages", []⟩]) =
      some ⟨"MessageModel", []⟩ := by
  have h := matching_least "/models/Messages" shopCatalog (by decide)
  have hm : matching "/models/Messages" shopCatalog = some ⟨"MessageModel", []⟩ :=
    (h.1 4 (by decide)).2 (by decide)
  exact ⟨hm, h.2.1 "/models/Messages/user" (by decide) 4 (by decide) hm, h.2.2 _ _ hm⟩

end RouteAtlas.Entity
