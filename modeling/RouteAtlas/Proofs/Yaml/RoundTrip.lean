import RouteAtlas.Proofs.Yaml.Making
import RouteAtlas.Proofs.Yaml.NodeReading

/-!
# Objects that are written as YAML and loaded again

An object each of whose texts comes back from its lines is loaded from its text.
-/

namespace RouteAtlas

namespace Json

open Yaml

mutual

/-- A value whose texts come back from behind a line that is indented to a column. -/
def Keeps (indent : Nat) : Json → Prop
  | .str t => KeepsText (indent + 2) t
  | .list vs => ItemsKeep (indent + 2) vs
  | .obj fs => FieldsKeep (indent + 2) fs
  | .shared _ v => Keeps indent v
  | _ => True

def ItemsKeep (indent : Nat) : List Json → Prop
  | [] => True
  | v :: vs => Keeps indent v ∧ ItemsKeep indent vs

def FieldsKeep (indent : Nat) : List (Text × Json) → Prop
  | [] => True
  | (k, v) :: fs => KeepsKey indent k ∧ Keeps indent v ∧ FieldsKeep indent fs

end

mutual

def decidableKeeps (indent : Nat) : (v : Json) → Decidable (v.Keeps indent)
  | .null | .bool _ | .int _ | .float _ => .isTrue trivial
  | .str t => inferInstanceAs (Decidable (KeepsText (indent + 2) t))
  | .list vs => decidableItemsKeep (indent + 2) vs
  | .obj fs => decidableFieldsKeep (indent + 2) fs
  | .shared _ v => decidableKeeps indent v

def decidableItemsKeep (indent : Nat) : (vs : List Json) → Decidable (ItemsKeep indent vs)
  | [] => .isTrue trivial
  | v :: vs =>
    have := decidableKeeps indent v
    have := decidableItemsKeep indent vs
    inferInstanceAs (Decidable (v.Keeps indent ∧ ItemsKeep indent vs))

def decidableFieldsKeep (indent : Nat) :
    (fs : List (Text × Json)) → Decidable (FieldsKeep indent fs)
  | [] => .isTrue trivial
  | (k, v) :: fs =>
    have := decidableKeeps indent v
    have := decidableFieldsKeep indent fs
    inferInstanceAs (Decidable (KeepsKey indent k ∧ v.Keeps indent ∧ FieldsKeep indent fs))

end

instance (indent : Nat) (fs : List (Text × Json)) : Decidable (FieldsKeep indent fs) :=
  decidableFieldsKeep indent fs

end Json

namespace Yaml

open Outline

section Drawing

variable {again : List Nat}

mutual

theorem keeps_draw {v : Json} {indent : Nat} (hd : v.IsData) (hk : v.Keeps indent)
    (written : List Nat) (anchor : Option Nat) : (draw again written anchor v).1.Keeps indent := by
  cases v with
  | float x => exact hd.elim
  | str t => exact hk
  | list vs =>
    rw [draw]
    exact keepsItems_draw hd hk written
  | obj fs =>
    rw [draw]
    exact keepsEntries_draw hd.2 hk written
  | shared m v =>
    cases hn : number? again m with
    | none =>
      rw [draw_shared_none hn]
      exact keeps_draw (v := v) hd hk _ _
    | some n =>
      by_cases hm : m ∈ written
      · rw [draw_shared_alias hn hm]
        trivial
      · rw [draw_shared_new hn hm]
        exact keeps_draw (v := v) hd hk _ _
  | _ => trivial

theorem keepsItems_draw {vs : List Json} {indent : Nat} (hd : Json.ItemsAreData vs)
    (hk : Json.ItemsKeep indent vs) (written : List Nat) :
    KeepsItems indent (drawItems again written vs).1 := by
  cases vs with
  | nil => trivial
  | cons v vs =>
    rw [drawItems]
    exact ⟨keeps_draw hd.1 hk.1 written none, keepsItems_draw hd.2 hk.2 _⟩

theorem keepsEntries_draw {fs : List (Text × Json)} {indent : Nat} (hd : Json.FieldsAreData fs)
    (hk : Json.FieldsKeep indent fs) (written : List Nat) :
    KeepsEntries indent (drawFields again written fs).1 := by
  cases fs with
  | nil => trivial
  | cons f fs =>
    obtain ⟨k, v⟩ := f
    rw [drawFields]
    exact ⟨hk.1, keeps_draw hd.2.1 hk.2.1 written none, keepsEntries_draw hd.2.2 hk.2.2 _⟩

end

end Drawing

section Objects

variable {env : Nat → Json} {v : Json} {fs : List (Text × Json)}

theorem eq_or_shared_of_bare (hv : v.bare = .obj fs) (hs : v.Shares env) :
    v = .obj fs ∨ ∃ m, v = .shared m (.obj fs) ∧ env m = .obj fs := by
  cases v with
  | obj gs => exact .inl hv
  | shared m w =>
    obtain ⟨he, hw, -⟩ := hs
    obtain rfl : w = .obj fs := hw.symm.trans hv
    exact .inr ⟨m, rfl, he⟩
  | _ => cases hv

/-- The outline of an object is that of its fields: the object is deeper than what is shared in it,
and has no label. -/
theorem exists_ofJson (hv : v.bare = .obj fs) (hs : v.Shares env) : ∃ again,
    (∀ m ∈ again, isCollection (env m)) ∧ Json.FieldsShare env fs ∧
      ofJson v = .map none (drawFields again [] fs).1 := by
  have hempty (met : List Nat) : Census.IsSound env (Json.fieldsDepth fs) ⟨met, []⟩ := by
    rintro m ⟨⟩
  rcases eq_or_shared_of_bare hv hs with rfl | ⟨m, rfl, he⟩
  · have hsound := isSound_surveyFields hs (Nat.le_refl _) (hempty [])
    exact ⟨_, fun m hm => (hsound m hm).1, hs, rfl⟩
  · have hs : Json.FieldsShare env fs := hs.2.2
    have hsound := isSound_surveyFields hs (Nat.le_refl _) (hempty [m])
    have hm : m ∉ (surveyFields ⟨[m], []⟩ fs).again := by
      intro hm
      have hdepth := (hsound m hm).2
      rw [he] at hdepth
      exact Nat.lt_irrefl _ hdepth
    have hn : number? (surveyFields ⟨[m], []⟩ fs).again m = none := by simp [number?, hm]
    refine ⟨_, fun k hk => (hsound k hk).1, hs, ?_⟩
    have hsurvey : survey ⟨[], []⟩ (.shared m (.obj fs)) = surveyFields ⟨[m], []⟩ fs := by
      simp [survey, isCollection]
    rw [ofJson, hsurvey, draw_shared_none hn]
    rfl

end Objects

section Graphs

open Node Node.Reader

variable {s s' : Reading} {p fuel : Nat}

theorem document_map (es : List (Text × Outline))
    (h : read true false (fuel + 1) (s.on (valueTokens .item (.map none es) ++ [.streamEnd])) =
      .ok (p, s'.on [.streamEnd])) :
    document (fuel + 1) (s.on (valueTokens .item (.map none es) ++ [.streamEnd])) =
      .ok (p, s'.on [.streamEnd]) := by
  obtain ⟨t, r, hts, ht⟩ : ∃ t r, valueTokens .item (.map none es) = t :: r ∧
      (t = .flowMapping ∨ t = .blockMapping) := by
    cases es with
    | nil => exact ⟨_, _, rfl, .inl rfl⟩
    | cons e es => exact ⟨_, _, rfl, .inr rfl⟩
  have hend : documentEnd (fuel + 1) (s'.on [.streamEnd]) = .ok ((), s'.on [.streamEnd]) := rfl
  rw [hts, List.cons_append] at h ⊢
  rw [document]
  rcases ht with rfl | rfl
  · rw [bind_eq (peek_on (by rintro e ⟨⟩))]
    dsimp only
    rw [bind_eq h, bind_eq hend]
    rfl
  · rw [bind_eq (peek_on (by rintro e ⟨⟩))]
    dsimp only
    rw [bind_eq h, bind_eq hend]
    rfl

theorem exists_graph {env : Nat → Json} {v : Json} {fs : List (Text × Json)} (hv : v.bare = .obj fs)
    (hd : v.IsData) (hs : v.Shares env) (hk : Json.FieldsKeep 0 fs) (hdepth : v.depth ≤ maxDepth) :
    ∃ g, Graph.ofText (toText v) = .ok g ∧ Places.Denotes (g.nodes[·]?) g.root v := by
  obtain ⟨again, hagain, hshare, hdraw⟩ := exists_ofJson hv hs
  have hdata : (Json.obj fs).IsData := hv ▸ Json.isData_bare.2 hd
  rw [← v.depth_bare, hv] at hdepth
  have htokens : Token.ofText (toText v) =
      valueTokens .item (draw again [] none (.obj fs)).1 ++ [.streamEnd] := by
    rw [toText, hdraw, ofText_documentText none (keepsEntries_draw hdata.2 hk []), draw]
  let start : Reading := { tokens := [], handles := usualHandles }
  have hready : Ready again env [] [] (Json.obj fs).inner start :=
    ⟨by simp, fun _ _ h => (by cases h), by simp⟩
  obtain ⟨p, s', hread, -, hp⟩ := reads_value hagain hdata (v := .obj fs) hshare [] [] .item start
    [.streamEnd] (4 * (Token.ofText (toText v)).length + 4) hready
    ((Nat.zero_add _).le.trans hdepth) (fun h => absurd rfl h)
    (by rw [htokens, List.length_append]; omega)
  have hknown : (known [] s'.nodes).Extends (s'.nodes[·]?) := fun p n h => by simpa [known] using h
  refine ⟨⟨s'.nodes, p⟩, ?_, Places.denotes_bare.1 (hv ▸ hp.mono hknown)⟩
  have hdocument := document_map (drawFields again [] fs).1 (by rw [draw] at hread; exact hread)
  rw [htokens, draw] at hdocument
  rw [Graph.ofText, htokens, draw]
  exact congrArg (Except.map _) hdocument

end Graphs

section Texts

variable {env : Nat → Json} {v : Json} {fs : List (Text × Json)}

theorem allOrdinary_toText (hv : v.bare = .obj fs) (hd : v.IsData) (hs : v.Shares env)
    (hk : Json.FieldsKeep 0 fs) : AllOrdinary (toText v) := by
  have hdata : (Json.obj fs).IsData := hv ▸ Json.isData_bare.2 hd
  obtain ⟨again, -, -, hdraw⟩ := exists_ofJson hv hs
  rw [toText, hdraw]
  exact allOrdinary_documentText none (keepsEntries_draw hdata.2 hk [])

/-- An object that is kept is loaded from its text. -/
theorem exists_load (hv : v.bare = .obj fs) (hd : v.IsData) (hs : v.Shares env)
    (hk : Json.FieldsKeep 0 fs) (hdepth : v.depth ≤ Node.Reader.maxDepth) :
    ∃ d, load (toText v) = .ok d ∧ d.Denotes v := by
  obtain ⟨g, hg, hden⟩ := exists_graph hv hd hs hk hdepth
  obtain ⟨d, hload, hd⟩ := load_of_denotes hd hden
  refine ⟨d, ?_, hd⟩
  rw [load, hg]
  exact hload

end Texts

end Yaml

end RouteAtlas
