import Mathlib.Data.List.Forall2
import Mathlib.Tactic.Common
import RouteAtlas.Proofs.Json.Data
import RouteAtlas.Value.Basic

/-!
# Values that stand for documents

A loaded value stands for a document if it has the same parts in the same order at every level,
wherever these are kept.
-/

namespace RouteAtlas

namespace Collections

mutual

/-- A value of collections stands for a document, the order of keys included. -/
def Denotes (cs : Collections) (v : Value) : Json → Prop
  | .null => v = .null
  | .bool b => v = .bool b
  | .int n => v = .int n
  | .float x => v = .float x
  | .str t => v = .str t
  | .list js => ∃ vs, cs.items? v = some vs ∧ DenoteItems cs vs js
  | .obj fs => ∃ es, cs.entries? v = some es ∧ DenoteFields cs es fs
  | .shared _ j => Denotes cs v j

def DenoteItems (cs : Collections) : List Value → List Json → Prop
  | [], [] => True
  | v :: vs, j :: js => Denotes cs v j ∧ DenoteItems cs vs js
  | _, _ => False

def DenoteFields (cs : Collections) : List (Value × Value) → List (Text × Json) → Prop
  | [], [] => True
  | (k, v) :: es, (t, j) :: fs => k = .str t ∧ Denotes cs v j ∧ DenoteFields cs es fs
  | _, _ => False

end

def Extends (cs cs' : Collections) : Prop :=
  ∀ (i : Nat) (c : Collection), cs[i]? = some c → cs'[i]? = some c

theorem Extends.refl (cs : Collections) : cs.Extends cs := fun _ _ h => h

theorem Extends.trans {cs cs' cs'' : Collections} (h : cs.Extends cs') (h' : cs'.Extends cs'') :
    cs.Extends cs'' := fun i c hc => h' i c (h i c hc)

theorem extends_push (cs : Collections) (c : Collection) : cs.Extends (cs.push c) := by
  intro i d hd
  obtain ⟨hi, he⟩ := Array.getElem?_eq_some_iff.1 hd
  rw [Array.getElem?_push_lt hi, he]

theorem get?_push (cs : Collections) (c : Collection) :
    get? (cs.push c) (.collection cs.size) = some c := Array.getElem?_push_size

section

variable {cs cs' : Collections}

theorem Extends.get? (h : cs.Extends cs') {v : Value} {c : Collection} (hc : cs.get? v = some c) :
    cs'.get? v = some c := by
  cases v with
  | collection place => exact h place c hc
  | _ => cases hc

theorem items?_eq_some {v : Value} {vs : List Value} :
    cs.items? v = some vs ↔ cs.get? v = some (.list vs) := by
  unfold items?
  split <;> simp_all

theorem entries?_eq_some {v : Value} {es : List (Value × Value)} :
    cs.entries? v = some es ↔ cs.get? v = some (.map es) := by
  unfold entries?
  split <;> simp_all

mutual

theorem Denotes.mono (h : cs.Extends cs') {v : Value} {j : Json} (hv : cs.Denotes v j) :
    cs'.Denotes v j := by
  cases j with
  | list js =>
    obtain ⟨vs, hvs, hd⟩ := hv
    exact ⟨vs, items?_eq_some.2 (h.get? (items?_eq_some.1 hvs)), DenoteItems.mono h hd⟩
  | obj fs =>
    obtain ⟨es, hes, hd⟩ := hv
    exact ⟨es, entries?_eq_some.2 (h.get? (entries?_eq_some.1 hes)), DenoteFields.mono h hd⟩
  | shared _ j => exact Denotes.mono h (j := j) hv
  | _ => exact hv

theorem DenoteItems.mono (h : cs.Extends cs') {vs : List Value} {js : List Json}
    (hv : cs.DenoteItems vs js) : cs'.DenoteItems vs js := by
  cases vs with
  | nil =>
    cases js with
    | nil => trivial
    | cons j js => exact hv
  | cons v vs =>
    cases js with
    | nil => exact hv
    | cons j js => exact ⟨Denotes.mono h hv.1, DenoteItems.mono h hv.2⟩

theorem DenoteFields.mono (h : cs.Extends cs') {es : List (Value × Value)}
    {fs : List (Text × Json)} (hv : cs.DenoteFields es fs) : cs'.DenoteFields es fs := by
  cases es with
  | nil =>
    cases fs with
    | nil => trivial
    | cons f fs => exact hv
  | cons e es =>
    cases fs with
    | nil => exact hv
    | cons f fs => exact ⟨hv.1, Denotes.mono h hv.2.1, DenoteFields.mono h hv.2.2⟩

end

mutual

/-- A document that is added stands where it is put, and what is there already stays. -/
theorem denotes_addJson (cs : Collections) (j : Json) :
    cs.Extends (cs.addJson j).2 ∧ (cs.addJson j).2.Denotes (cs.addJson j).1 j := by
  cases j with
  | list js =>
    obtain ⟨he, hd⟩ := denoteItems_addItems cs js
    have hp := extends_push (cs.addItems js).2 (.list (cs.addItems js).1)
    exact ⟨he.trans hp, (cs.addItems js).1, items?_eq_some.2 (get?_push _ _), hd.mono hp⟩
  | obj fs =>
    obtain ⟨he, hd⟩ := denoteFields_addFields cs fs
    have hp := extends_push (cs.addFields fs).2 (.map (cs.addFields fs).1)
    exact ⟨he.trans hp, (cs.addFields fs).1, entries?_eq_some.2 (get?_push _ _), hd.mono hp⟩
  | shared _ j => exact denotes_addJson cs j
  | _ => exact ⟨.refl cs, rfl⟩

theorem denoteItems_addItems (cs : Collections) (js : List Json) :
    cs.Extends (cs.addItems js).2 ∧ (cs.addItems js).2.DenoteItems (cs.addItems js).1 js := by
  cases js with
  | nil => exact ⟨.refl cs, trivial⟩
  | cons j js =>
    obtain ⟨he, hd⟩ := denotes_addJson cs j
    obtain ⟨he', hd'⟩ := denoteItems_addItems (cs.addJson j).2 js
    exact ⟨he.trans he', hd.mono he', hd'⟩

theorem denoteFields_addFields (cs : Collections) (fs : List (Text × Json)) :
    cs.Extends (cs.addFields fs).2 ∧
      (cs.addFields fs).2.DenoteFields (cs.addFields fs).1 fs := by
  cases fs with
  | nil => exact ⟨.refl cs, trivial⟩
  | cons f fs =>
    obtain ⟨k, j⟩ := f
    obtain ⟨he, hd⟩ := denotes_addJson cs j
    obtain ⟨he', hd'⟩ := denoteFields_addFields (cs.addJson j).2 fs
    exact ⟨he.trans he', rfl, hd.mono he', hd'⟩

end

mutual

theorem denotes_unmarked {v : Value} {j : Json} : cs.Denotes v j.unmarked ↔ cs.Denotes v j := by
  cases j with
  | list js => simp only [Json.unmarked, Denotes, denoteItems_unmarked]
  | obj fs => simp only [Json.unmarked, Denotes, denoteFields_unmarked]
  | shared _ j => exact denotes_unmarked (j := j)
  | _ => rfl

theorem denoteItems_unmarked {vs : List Value} {js : List Json} :
    cs.DenoteItems vs (Json.unmarkedItems js) ↔ cs.DenoteItems vs js := by
  cases vs with
  | nil => cases js <;> rfl
  | cons v vs =>
    cases js with
    | nil => rfl
    | cons j js =>
      exact and_congr denotes_unmarked denoteItems_unmarked

theorem denoteFields_unmarked {es : List (Value × Value)} {fs : List (Text × Json)} :
    cs.DenoteFields es (Json.unmarkedFields fs) ↔ cs.DenoteFields es fs := by
  cases es with
  | nil => cases fs <;> rfl
  | cons e es =>
    cases fs with
    | nil => rfl
    | cons f fs =>
      exact and_congr Iff.rfl (and_congr denotes_unmarked denoteFields_unmarked)

end

theorem denoteFields_iff {es : List (Value × Value)} {fs : List (Text × Json)} :
    cs.DenoteFields es fs ↔
      List.Forall₂ (fun e f => e.1 = .str f.1 ∧ cs.Denotes e.2 f.2) es fs := by
  induction es generalizing fs with
  | nil => cases fs <;> simp [DenoteFields]
  | cons e es ih => cases fs <;> simp [DenoteFields, ih, and_assoc]

/-- What stands under a text key stands for what the document has under it. -/
theorem DenoteFields.rel_entry? {es : List (Value × Value)}
    {fs : List (Text × Json)} (h : cs.DenoteFields es fs) (key : Text) :
    Option.Rel cs.Denotes (Value.entry? es key) (fs.lookup key) := by
  have hf := denoteFields_iff.1 h
  clear h
  induction hf with
  | nil => exact .none
  | @cons e f es fs he _ ih =>
    obtain ⟨k, v⟩ := e
    obtain ⟨t, j⟩ := f
    obtain ⟨rfl, hv⟩ := he
    have hs : (Value.str t).sameKey (.str key) = (t == key) := rfl
    by_cases hk : t = key
    · subst hk
      have he : Value.entry? ((.str t, v) :: es) t = some v := by simp [Value.entry?, hs]
      rw [he, List.lookup_cons_self]
      exact .some hv
    · simpa [Value.entry?, hs, hk, List.lookup_cons, beq_false_of_ne (Ne.symm hk)] using ih

theorem Denotes.exists_entries {v : Value} {j : Json} (h : cs.Denotes v j)
    {fs : List (Text × Json)} (hj : j.bare = .obj fs) :
    ∃ es, cs.entries? v = some es ∧ cs.DenoteFields es fs := by
  induction j using Json.bare.induct with
  | case1 _ j ih => exact ih h hj
  | case2 j hs =>
    rw [Json.bare] at hj
    · subst hj
      exact h
    · exact hs

end

end Collections

namespace Loaded

def Denotes (d : Loaded) (j : Json) : Prop := d.collections.Denotes d.root j

theorem denotes_ofJson (j : Json) : (ofJson j).Denotes j := (Collections.denotes_addJson #[] j).2

theorem Denotes.exists_entries {d : Loaded} {j : Json} (h : d.Denotes j) {fs : List (Text × Json)}
    (hj : j.bare = .obj fs) : ∃ es, d.entries? = some es := by
  obtain ⟨es, hes, -⟩ := Collections.Denotes.exists_entries h hj
  exact ⟨es, hes⟩

end Loaded

end RouteAtlas
