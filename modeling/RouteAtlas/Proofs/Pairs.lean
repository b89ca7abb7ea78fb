import Mathlib.Data.List.Nodup
import RouteAtlas.Pairs
import RouteAtlas.Proofs.Text.Order

/-!
# Keys and values of pairs

The keys of pairs stand in the order in which they were first put, each once; of the values put
under one key the last one is found.
-/

namespace RouteAtlas.Pairs

variable {β : Type}

theorem keys_put (ps : List (Text × β)) (k : Text) (v : β) :
    (put ps k v).map (·.1) =
      if k ∈ ps.map (·.1) then ps.map (·.1) else ps.map (·.1) ++ [k] := by
  induction ps with
  | nil => rfl
  | cons p r ih =>
    obtain ⟨a, b⟩ := p
    by_cases h : a = k
    · simp [put, h]
    · have hm : k ∈ ((a, b) :: r).map (·.1) ↔ k ∈ r.map (·.1) := by
        simp [Ne.symm h]
      rw [if_congr hm rfl rfl]
      simp only [put, h, if_false, List.map_cons, ih]
      split <;> rfl

theorem keys_foldl_put (ps m : List (Text × β)) (ks : List Text)
    (hm : m.map (·.1) = Text.distinct ks) :
    (ps.foldl (fun m p => put m p.1 p.2) m).map (·.1) =
      Text.distinct (ks ++ ps.map (·.1)) := by
  induction ps using List.reverseRecOn with
  | nil => simpa using hm
  | append_singleton ps p ih =>
    rw [List.foldl_append, List.foldl_cons, List.foldl_nil, keys_put, ih, List.map_append,
      ← List.append_assoc]
    exact (Text.distinct_append_singleton _ p.1).symm

theorem keys_ofList (ps : List (Text × β)) :
    (ofList ps).map (·.1) = Text.distinct (ps.map (·.1)) :=
  keys_foldl_put ps [] [] rfl

theorem nodup_keys_ofList (ps : List (Text × β)) : ((ofList ps).map (·.1)).Nodup := by
  rw [keys_ofList]
  exact Text.nodup_distinct _

theorem put_of_not_mem {ps : List (Text × β)} {k : Text} (h : k ∉ ps.map (·.1)) (v : β) :
    put ps k v = ps ++ [(k, v)] := by
  induction ps with
  | nil => rfl
  | cons p r ih =>
    obtain ⟨a, b⟩ := p
    simp only [List.map_cons, List.mem_cons, not_or] at h
    simp [put, Ne.symm h.1, ih h.2]

theorem ofList_of_nodup {ps : List (Text × β)} (h : (ps.map (·.1)).Nodup) : ofList ps = ps := by
  induction ps using List.reverseRecOn with
  | nil => rfl
  | append_singleton ps p ih =>
    rw [List.map_append, List.nodup_append] at h
    have hp : p.1 ∉ (ofList ps).map (·.1) := by
      rw [ih h.1]
      intro hm
      exact h.2.2 p.1 hm p.1 (by simp) rfl
    have ho : ofList (ps ++ [p]) = put (ofList ps) p.1 p.2 := by simp [ofList]
    rw [ho, put_of_not_mem hp, ih h.1]

theorem lookup_eq_some_iff_mem {ps : List (Text × β)} (h : (ps.map (·.1)).Nodup) {k : Text}
    {v : β} : ps.lookup k = some v ↔ (k, v) ∈ ps := by
  induction ps with
  | nil => simp
  | cons p r ih =>
    obtain ⟨a, b⟩ := p
    rw [List.map_cons, List.nodup_cons] at h
    by_cases hk : k = a
    · subst hk
      have hn : (k, v) ∉ r := fun hv => h.1 (List.mem_map.2 ⟨_, hv, rfl⟩)
      simp [hn, eq_comm]
    · simp [List.lookup_cons, beq_false_of_ne hk, hk, ih h.2]

theorem lookup_isSome_iff_mem_keys {ps : List (Text × β)} {k : Text} :
    (ps.lookup k).isSome ↔ k ∈ ps.map (·.1) := by
  simp only [List.lookup_isSome_iff, List.mem_map, beq_iff_eq]
  exact exists_congr fun p => and_congr_right fun _ => eq_comm

theorem lookup_map_values {γ : Type} (f : β → γ) (ps : List (Text × β)) (k : Text) :
    (ps.map fun p => (p.1, f p.2)).lookup k = (ps.lookup k).map f := by
  induction ps with
  | nil => rfl
  | cons p r ih =>
    rw [List.map_cons, List.lookup_cons, List.lookup_cons, ih]
    split <;> rfl

theorem lookup_foldl_put {ps : List (Text × β)} (h : (ps.map (·.1)).Nodup) (m : List (Text × β))
    (k : Text) :
    (ps.foldl (fun m p => put m p.1 p.2) m).lookup k = (ps.lookup k).or (m.lookup k) := by
  induction ps generalizing m with
  | nil => simp
  | cons p r ih =>
    obtain ⟨a, b⟩ := p
    rw [List.map_cons, List.nodup_cons] at h
    rw [List.foldl_cons, ih h.2, get?_put]
    by_cases hk : k = a
    · subst hk
      have hn : r.lookup k = none := by
        rw [← Option.not_isSome_iff_eq_none, lookup_isSome_iff_mem_keys]
        exact h.1
      simp [hn]
    · simp [List.lookup_cons, beq_false_of_ne hk, hk]

theorem mem_of_lookup_ofList {ps : List (Text × β)} {k : Text} {v : β}
    (h : (ofList ps).lookup k = some v) : (k, v) ∈ ps := by
  induction ps using List.reverseRecOn with
  | nil => simp [ofList] at h
  | append_singleton ps p ih =>
    have hp : ofList (ps ++ [p]) = put (ofList ps) p.1 p.2 := by simp [ofList]
    rw [hp, get?_put] at h
    split at h
    · rename_i hk
      obtain rfl := Option.some.inj h
      simp [hk]
    · simp [ih h]

theorem mem_of_mem_ofList {ps : List (Text × β)} {p : Text × β} (h : p ∈ ofList ps) : p ∈ ps :=
  mem_of_lookup_ofList ((lookup_eq_some_iff_mem (nodup_keys_ofList ps)).2 h)

end RouteAtlas.Pairs
