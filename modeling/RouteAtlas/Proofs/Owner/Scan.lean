import RouteAtlas.Proofs.Owner.ScanOrder
import RouteAtlas.Proofs.Pairs
import RouteAtlas.Proofs.Session

/-!
# What a scan finds

A scan gives every exported name to the first readable file that exports it, in the order of the
files.
-/

namespace RouteAtlas

open Files (Path Place Node)
open Files.Node (Alike PartOf WellFormed)

namespace Owner

section Names

variable {map : ControllerMap} {tag name : Text} {names : List Text}

theorem addNames_append_singleton (map : ControllerMap) (tag : Text) (names : List Text)
    (name : Text) : addNames map tag (names ++ [name]) =
      if ((addNames map tag names).lookup name).isSome then addNames map tag names
      else addNames map tag names ++ [(name, tag)] := by
  rw [addNames, List.foldl_append]
  rfl

/-- New names stand behind those that are there. -/
theorem keys_addNames {ks : List Text} (h : map.map (·.1) = Text.distinct ks) (tag : Text)
    (names : List Text) :
    (addNames map tag names).map (·.1) = Text.distinct (ks ++ names) := by
  induction names using List.reverseRecOn with
  | nil => simpa [addNames] using h
  | append_singleton names name ih =>
    rw [addNames_append_singleton, ← List.append_assoc, Text.distinct_append_singleton, ← ih]
    simp only [Pairs.lookup_isSome_iff_mem_keys]
    split
    · rfl
    · simp

/-- A name keeps its tag, and gets this one if it had none. -/
theorem lookup_addNames (map : ControllerMap) (tag : Text) (names : List Text) (name : Text) :
    (addNames map tag names).lookup name =
      (map.lookup name).or (if name ∈ names then some tag else none) := by
  induction names using List.reverseRecOn with
  | nil => simp [addNames]
  | append_singleton names last ih =>
    rw [addNames_append_singleton]
    split
    · rename_i h
      rw [ih]
      by_cases hl : name = last
      · subst hl
        rw [ih] at h
        cases hm : map.lookup name with
        | some t => rfl
        | none =>
          rw [hm] at h
          have hn : name ∈ names := by simpa using h
          simp [hn]
      · simp [hl]
    · rename_i h
      rw [List.lookup_append, ih]
      by_cases hl : name = last
      · subst hl
        rw [ih] at h
        cases hm : map.lookup name with
        | some t => simp [hm] at h
        | none =>
          have hn : name ∉ names := by simpa [hm] using h
          simp [hn]
      · simp [hl, List.lookup_cons, beq_false_of_ne hl]

end Names

/-- The handlers that a file exports; none if it cannot be read. -/
def exported (fs : Files.System) (n : Naming) (p : Path) : List Text :=
  match fs.readTextLenient p with
  | .ok t => handlerNames n t
  | .error _ => []

def mapOf (fs : Files.System) (n : Naming) (files : List Path) : ControllerMap :=
  files.foldl (fun map p => addNames map (tagOfFile n p.name) (exported fs n p)) []

section Files

variable {fs : Files.System} {n : Naming} {files : List Path}

theorem mapOf_append_singleton (files : List Path) (p : Path) : mapOf fs n (files ++ [p]) =
    addNames (mapOf fs n files) (tagOfFile n p.name) (exported fs n p) := by
  simp [mapOf]

theorem keys_mapOf (fs : Files.System) (n : Naming) (files : List Path) :
    (mapOf fs n files).map (·.1) = Text.distinct (files.flatMap (exported fs n)) := by
  induction files using List.reverseRecOn with
  | nil => rfl
  | append_singleton files p ih =>
    rw [mapOf_append_singleton, keys_addNames ih, List.flatMap_append, List.flatMap_singleton]

/-- A name belongs to the first file that exports it. -/
theorem lookup_mapOf (fs : Files.System) (n : Naming) (files : List Path) (name : Text) :
    (mapOf fs n files).lookup name =
      (files.find? fun p => name ∈ exported fs n p).map fun p => tagOfFile n p.name := by
  induction files using List.reverseRecOn with
  | nil => rfl
  | append_singleton files p ih =>
    rw [mapOf_append_singleton, lookup_addNames, ih, List.find?_append]
    cases files.find? fun p => name ∈ exported fs n p with
    | some q => rfl
    | none =>
      by_cases h : name ∈ exported fs n p <;> simp [h]

theorem mapOf_congr {fs' : Files.System} (h : ∀ p ∈ files, exported fs n p = exported fs' n p) :
    mapOf fs n files = mapOf fs' n files := by
  induction files using List.reverseRecOn with
  | nil => rfl
  | append_singleton files p ih =>
    rw [mapOf_append_singleton, mapOf_append_singleton, ih fun q hq => h q (by simp [hq]),
      h p (by simp)]

theorem mapOf_filter (keep : Path → Bool) (h : ∀ p ∈ files, keep p = false → exported fs n p = []) :
    mapOf fs n (files.filter keep) = mapOf fs n files := by
  induction files using List.reverseRecOn with
  | nil => rfl
  | append_singleton files p ih =>
    have ih' := ih fun q hq => h q (by simp [hq])
    rw [List.filter_append, mapOf_append_singleton]
    cases hk : keep p with
    | true => rw [List.filter_cons_of_pos hk, List.filter_nil, mapOf_append_singleton, ih']
    | false =>
      rw [List.filter_cons_of_neg (by simp [hk]), List.filter_nil, List.append_nil, ih',
        h p (by simp) hk]
      rfl

theorem settles_scanFile (fs : Files.System) (n : Naming) (map : ControllerMap) (p : Path) :
    (scanFile n map p : Action Files.Failure ControllerMap).Settles (· = fs)
      (.ok (addNames map (tagOfFile n p.name) (exported fs n p))) := by
  rintro s rfl
  unfold scanFile exported
  rw [Action.outcome_bind, Action.outcome_files]
  simp only
  cases s.files.readTextLenient p with
  | error e =>
    refine Action.Settles.bind (Action.settles_note _ _ _) ?_ s rfl
    exact Action.settles_pure map
  | ok t =>
    simp only
    split
    · refine Action.Settles.bind (Action.settles_note _ _ _) ?_ s rfl
      exact Action.settles_pure _
    · exact Action.settles_pure _ s rfl

theorem settles_scanFiles (fs : Files.System) (n : Naming) (files : List Path)
    (map : ControllerMap) :
    (files.foldlM (scanFile n) map : Action Files.Failure ControllerMap).Settles (· = fs)
      (.ok (files.foldl
        (fun map p => addNames map (tagOfFile n p.name) (exported fs n p)) map)) := by
  induction files generalizing map with
  | nil => exact Action.settles_pure map
  | cons p files ih =>
    rw [List.foldlM_cons, List.foldl_cons]
    exact (settles_scanFile fs n map p).bind (ih _)

theorem settles_scan {dir : Path} {es : List (Text × Node)}
    (h : fs.node? dir = .ok (some (.dir es))) :
    (scan n dir).Settles (· = fs) (.ok (mapOf fs n (controllerFiles fs n dir (.dir es)))) := by
  rintro s rfl
  unfold scan
  rw [Action.outcome_bind, Action.outcome_files]
  dsimp only
  rw [Action.outcome_bind, Action.outcome_ofExcept, h]
  refine Action.Settles.bind (settles_scanFiles s.files n _ []) ?_ s rfl
  refine Action.Settles.bind (Action.settles_note _ _ _) ?_
  exact Action.settles_pure _

end Files

end Owner

end RouteAtlas
