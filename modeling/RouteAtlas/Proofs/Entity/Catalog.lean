import RouteAtlas.Entity.Catalog
import RouteAtlas.Proofs.Pairs
import RouteAtlas.Proofs.Session

/-!
# Entities of a catalog

No entity of a catalog has two fields of one name. Reading a catalog never fails, and depends on the
text of its file alone.
-/

namespace RouteAtlas.Catalog

variable {cs : Collections}

theorem nodup_fieldTexts {es : List (Value × Value)} {fields : List (Text × Text)}
    (h : fieldTexts cs es = .ok fields) : (fields.map (·.1)).Nodup := by
  obtain ⟨ps, -, h⟩ := bind_eq_ok.1 h
  rw [← Except.ok.inj h]
  exact Pairs.nodup_keys_ofList ps

theorem nodup_mappingOnly {e : Value × Value} {name : Text} {fields : List (Text × Text)}
    (h : mappingOnly cs e = .ok (some (name, fields))) : (fields.map (·.1)).Nodup := by
  unfold mappingOnly at h
  split at h
  · cases h
  · obtain ⟨fs, hf, h⟩ := bind_eq_ok.1 h
    obtain ⟨t, -, h⟩ := bind_eq_ok.1 h
    cases h
    exact nodup_fieldTexts hf

theorem nodup_remembered {e : Value × Value} {name : Text} {fields : List (Text × Text)}
    {s s' : Session} (h : (remembered cs e).outcome s = (.ok (some (name, fields)), s')) :
    (fields.map (·.1)).Nodup := by
  obtain ⟨found, t, hf, h⟩ := Action.outcome_bind_eq_ok.1 h
  cases found with
  | some entity =>
    cases h
    exact nodup_mappingOnly (congrArg Prod.fst hf)
  | none =>
    obtain ⟨shown, t', -, h⟩ := Action.outcome_bind_eq_ok.1 h
    obtain ⟨_, t'', -, h⟩ := Action.outcome_bind_eq_ok.1 h
    cases h

theorem nodup_of_mapM {es : List (Value × Value)}
    {found : List (Option (Text × List (Text × Text)))} (h : es.mapM (mappingOnly cs) = .ok found) :
    ∀ e ∈ Pairs.ofList (found.filterMap id), (e.2.map (·.1)).Nodup := by
  intro e he
  have hm : some e ∈ found := by simpa using Pairs.mem_of_mem_ofList he
  obtain ⟨x, -, hx⟩ := exists_of_mapM_eq_ok h hm
  exact nodup_mappingOnly hx

theorem nodup_ofFile {fs : Files.System} {path : Files.Path}
    {entities : List (Text × List (Text × Text))} (h : ofFile fs path = .ok entities) :
    ∀ e ∈ entities, (e.2.map (·.1)).Nodup := by
  unfold ofFile at h
  split at h
  case h_1 =>
    obtain ⟨t, -, h⟩ := bind_eq_ok.1 h
    dsimp only at h
    -- A blank file and one that can be loaded are read in the same way.
    split at h
    · obtain ⟨d, -, h⟩ := bind_eq_ok.1 h
      split at h
      · obtain ⟨found, hf, h⟩ := bind_eq_ok.1 h
        exact Except.ok.inj h ▸ nodup_of_mapM hf
      · cases h
    · split at h
      · obtain ⟨d, -, h⟩ := bind_eq_ok.1 h
        split at h
        · obtain ⟨found, hf, h⟩ := bind_eq_ok.1 h
          exact Except.ok.inj h ▸ nodup_of_mapM hf
        · cases h
      · cases h
      · cases h
  all_goals cases h

theorem nodup_fetch {c : Catalog} {entities : List (Text × List (Text × Text))} {s s' : Session}
    (h : c.fetch.outcome s = (.ok entities, s')) : ∀ e ∈ entities, (e.2.map (·.1)).Nodup := by
  cases c with
  | memory d =>
    simp only [fetch] at h
    split at h
    · obtain ⟨found, t, hf, h⟩ := Action.outcome_bind_eq_ok.1 h
      cases h
      intro e he
      have hm : some e ∈ found := by simpa using Pairs.mem_of_mem_ofList he
      obtain ⟨x, -, u, u', hx⟩ := Action.exists_of_outcome_mapM_eq_ok hf hm
      exact nodup_remembered hx
    · rw [Action.outcome_throw] at h
      cases h
  | file path =>
    simp only [fetch] at h
    obtain ⟨fs, t, -, h⟩ := Action.outcome_bind_eq_ok.1 h
    exact nodup_ofFile (congrArg Prod.fst h)
  | unreachable reason =>
    simp only [fetch, Action.outcome_throw] at h
    cases h

theorem nodup_read {ε : Type} {c : Option Catalog} {entities : List Entity} {s : Session}
    (h : ((read c : Action ε _).outcome s).1 = .ok entities) :
    ∀ e ∈ entities, (e.fields.map (·.1)).Nodup := by
  cases c with
  | none =>
    obtain rfl := Except.ok.inj h
    simp
  | some c =>
    obtain ⟨fetched, t, hf, h⟩ := Action.outcome_bind_eq_ok.1 (Prod.ext h rfl)
    rw [Action.outcome_attempt] at hf
    obtain ⟨he, rfl⟩ := Prod.mk.inj hf
    cases fetched with
    | ok es =>
      obtain rfl := Except.ok.inj (congrArg Prod.fst h)
      intro e hm
      obtain ⟨e', he', rfl⟩ := List.mem_map.1 hm
      exact nodup_fetch (Prod.ext (Except.ok.inj he) rfl) e' he'
    | error e =>
      obtain ⟨_, t', -, h⟩ := Action.outcome_bind_eq_ok.1 h
      obtain rfl := Except.ok.inj (congrArg Prod.fst h)
      simp

def contents (fs : Files.System) : Option Catalog → Option (Except Files.ReadError Text)
  | some (.file path) => some (fs.readText path)
  | _ => none

theorem ofFile_congr {fs fs' : Files.System} {path : Files.Path}
    (h : fs.readText path = fs'.readText path) : ofFile fs path = ofFile fs' path := by
  unfold ofFile
  rw [h]

theorem exists_settles_remembered (P : Files.System → Prop) (e : Value × Value) :
    ∃ x, (remembered cs e).Settles P x := by
  refine Action.exists_settles_bind ⟨_, Action.settles_ofExcept _⟩ fun found => ?_
  cases found with
  | some entity => exact ⟨_, Action.settles_pure _⟩
  | none =>
    exact Action.exists_settles_bind ⟨_, Action.settles_ofExcept _⟩ fun name =>
      Action.exists_settles_bind ⟨_, Action.settles_note _ _ _⟩ fun _ => ⟨_, Action.settles_pure _⟩

theorem exists_settles_fetch (c : Catalog) (k : Option (Except Files.ReadError Text)) :
    ∃ x, c.fetch.Settles (fun fs => contents fs (some c) = k) x := by
  cases c with
  | memory d =>
    simp only [fetch]
    split
    · exact Action.exists_settles_bind
        (Action.exists_settles_mapM (exists_settles_remembered _) _) fun _ =>
          ⟨_, Action.settles_pure _⟩
    · exact ⟨_, Action.settles_throw _⟩
  | file path =>
    by_cases hk : ∃ fs, contents fs (some (.file path)) = k
    · obtain ⟨fs, rfl⟩ := hk
      refine ⟨ofFile fs path, fun s hs => ⟨[], ?_⟩⟩
      simp only [fetch, Action.outcome_bind, Action.outcome_files, Action.outcome_ofExcept]
      rw [ofFile_congr (Option.some.inj hs), List.append_nil]
    · exact ⟨.ok [], fun s hs => absurd ⟨_, hs⟩ hk⟩
  | unreachable reason => exact ⟨_, Action.settles_throw _⟩

theorem exists_settles_read {ε : Type} (c : Option Catalog)
    (k : Option (Except Files.ReadError Text)) :
    ∃ entities, (read c : Action ε _).Settles (fun fs => contents fs c = k) (.ok entities) := by
  cases c with
  | none => exact ⟨_, Action.settles_pure _⟩
  | some c =>
    obtain ⟨_ | es, hx⟩ := exists_settles_fetch c k
    · exact ⟨_, hx.attempt.bind ((Action.settles_note _ _ _).bind (Action.settles_pure _))⟩
    · exact ⟨_, hx.attempt.bind (Action.settles_pure _)⟩

end RouteAtlas.Catalog
