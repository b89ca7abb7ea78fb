import RouteAtlas.Document.Build
import RouteAtlas.Document.Json
import RouteAtlas.Proofs.Json.Fields
import RouteAtlas.Proofs.Pairs
import RouteAtlas.Proofs.Route.Table
import RouteAtlas.Proofs.Session

/-!
# Operations of a document

Paths, and the methods under a path, come in the order in which they were first registered. An
operation is that of the last entry that registers it.
-/

namespace RouteAtlas

/-- Whether an entry puts an operation under a path and a method in lower case. -/
def Route.Entry.Registers (e : Route.Entry) (path key : Text) : Prop :=
  e.path = path ∧ key ∈ e.methods.map Text.lower

namespace Paths

def operation? (ps : Paths) (path key : Text) : Option Operation :=
  (ps.lookup path).bind fun item => item.lookup key

section Add

variable {ps : Paths} {path : Text} {item : PathItem}

theorem keys_add : (add ps path item).map (·.1) =
    if path ∈ ps.map (·.1) then ps.map (·.1) else ps.map (·.1) ++ [path] :=
  Pairs.keys_put ps path _

theorem lookup_add (q : Text) :
    (add ps path item).lookup q = if q = path
      then some (item.foldl (fun m o => Pairs.put m o.1 o.2) ((ps.lookup path).getD []))
      else ps.lookup q :=
  Pairs.get?_put ps path q _

theorem operation?_add (h : (item.map (·.1)).Nodup) (q k : Text) :
    operation? (add ps path item) q k =
      if q = path then (item.lookup k).or (operation? ps path k) else operation? ps q k := by
  unfold operation?
  rw [lookup_add]
  split
  · rw [Option.bind_some, Pairs.lookup_foldl_put h]
    cases ps.lookup path <;> rfl
  · rfl

end Add

def addAll (ps : Paths) (rs : List (Text × PathItem)) : Paths :=
  rs.foldl (fun ps r => add ps r.1 r.2) ps

theorem addAll_append_singleton (ps : Paths) (rs : List (Text × PathItem)) (r : Text × PathItem) :
    addAll ps (rs ++ [r]) = add (addAll ps rs) r.1 r.2 := by
  simp [addAll, List.foldl_append]

theorem keys_addAll (rs : List (Text × PathItem)) :
    (addAll [] rs).map (·.1) = Text.distinct (rs.map (·.1)) := by
  induction rs using List.reverseRecOn with
  | nil => rfl
  | append_singleton rs r ih =>
    rw [addAll_append_singleton, keys_add, ih, List.map_append]
    exact (Text.distinct_append_singleton _ r.1).symm

/-- The methods under a path are those of all that was put there, each once. -/
theorem itemKeys_addAll (rs : List (Text × PathItem)) (path : Text) :
    (((addAll [] rs).lookup path).getD []).map (·.1) =
      Text.distinct ((rs.filter (·.1 = path)).flatMap fun r => r.2.map (·.1)) := by
  induction rs using List.reverseRecOn with
  | nil => rfl
  | append_singleton rs r ih =>
    rw [addAll_append_singleton, lookup_add, List.filter_append, List.flatMap_append]
    by_cases h : r.1 = path
    · subst h
      simp [Pairs.keys_foldl_put _ _ _ ih]
    · simp [h, Ne.symm h, ih]

theorem operation?_addAll_of_not_mem {ps : Paths} {rs : List (Text × PathItem)} {path k : Text}
    (hn : ∀ r ∈ rs, (r.2.map (·.1)).Nodup) (h : ∀ r ∈ rs, r.1 = path → k ∉ r.2.map (·.1)) :
    operation? (addAll ps rs) path k = operation? ps path k := by
  induction rs generalizing ps with
  | nil => rfl
  | cons r rs ih =>
    have hr : addAll ps (r :: rs) = addAll (add ps r.1 r.2) rs := rfl
    rw [hr, ih (fun s hs => hn s (by simp [hs])) (fun s hs => h s (by simp [hs])),
      operation?_add (hn r (by simp))]
    split
    · rename_i hp
      have hk : r.2.lookup k = none := by
        rw [← Option.not_isSome_iff_eq_none, Pairs.lookup_isSome_iff_mem_keys]
        exact h r (by simp) hp.symm
      rw [hk, hp, Option.none_or]
    · rfl

/-- The operations of entries in order under their paths; `route` counts the entries before. -/
inductive Registered (s : DocumentSettings) (owners : ControllerMap) (catalog : List Entity) :
    Nat → List Route.Entry → List (Text × PathItem) → Prop
  | nil {route} : Registered s owners catalog route [] []
  | cons {route e es item rs} (he : e.operations s owners catalog route = .ok item)
      (hes : Registered s owners catalog (route + 1) es rs) :
      Registered s owners catalog route (e :: es) ((e.path, item) :: rs)

section Registered

variable {s : DocumentSettings} {owners : ControllerMap} {catalog : List Entity} {route : Nat}

theorem addEntries_eq_ok {ps ps' : Paths} {es : List Route.Entry} :
    addEntries s owners catalog ps route es = .ok ps' ↔
      ∃ rs, Registered s owners catalog route es rs ∧ ps' = addAll ps rs := by
  induction es generalizing ps route with
  | nil =>
    constructor
    · intro h
      exact ⟨[], .nil, (Except.ok.inj h).symm⟩
    · rintro ⟨_, ⟨⟩, rfl⟩
      rfl
  | cons e es ih =>
    rw [addEntries, bind_eq_ok]
    constructor
    · rintro ⟨item, he, h⟩
      obtain ⟨rs, hrs, rfl⟩ := ih.1 h
      exact ⟨(e.path, item) :: rs, .cons he hrs, rfl⟩
    · rintro ⟨_, h, rfl⟩
      cases h with
      | cons he hes => exact ⟨_, he, ih.2 ⟨_, hes, rfl⟩⟩

theorem Registered.unique {es : List Route.Entry} {rs rs' : List (Text × PathItem)}
    (h : Registered s owners catalog route es rs) (h' : Registered s owners catalog route es rs') :
    rs = rs' := by
  induction h generalizing rs' with
  | nil =>
    cases h'
    rfl
  | cons he _ ih =>
    cases h' with
    | cons he' hes' =>
      rw [he] at he'
      rw [Except.ok.inj he', ih hes']

theorem registered_append {es ds : List Route.Entry} {rs : List (Text × PathItem)} :
    Registered s owners catalog route (es ++ ds) rs ↔
      ∃ first rest, rs = first ++ rest ∧ Registered s owners catalog route es first ∧
        Registered s owners catalog (route + es.length) ds rest := by
  induction es generalizing route rs with
  | nil =>
    constructor
    · exact fun h => ⟨[], rs, rfl, .nil, h⟩
    · rintro ⟨_, rest, rfl, ⟨⟩, h⟩
      exact h
  | cons e es ih =>
    have hl : route + (e :: es).length = route + 1 + es.length := by
      rw [List.length_cons]
      omega
    rw [hl]
    constructor
    · intro h
      cases h with
      | cons he hes =>
        obtain ⟨first, rest, rfl, hf, hr⟩ := ih.1 hes
        exact ⟨_ :: first, rest, rfl, .cons he hf, hr⟩
    · rintro ⟨_, rest, rfl, h, hr⟩
      cases h with
      | cons he hf => exact .cons he (ih.2 ⟨_, rest, rfl, hf, hr⟩)

theorem keys_operations {e : Route.Entry} {item : PathItem}
    (h : e.operations s owners catalog route = .ok item) :
    item.map (·.1) = Text.distinct (e.methods.map Text.lower) := by
  obtain ⟨analysis, -, h⟩ := bind_eq_ok.1 h
  rw [← Except.ok.inj h, Pairs.keys_ofList, List.map_map]
  rfl

theorem Registered.keys {es : List Route.Entry} {rs : List (Text × PathItem)}
    (h : Registered s owners catalog route es rs) :
    rs.map (fun r => (r.1, r.2.map (·.1))) =
      es.map fun e => (e.path, Text.distinct (e.methods.map Text.lower)) := by
  induction h with
  | nil => rfl
  | cons he _ ih => simp only [List.map_cons, ih, keys_operations he]

theorem Registered.nodup {es : List Route.Entry} {rs : List (Text × PathItem)}
    (h : Registered s owners catalog route es rs) : ∀ r ∈ rs, (r.2.map (·.1)).Nodup := by
  induction h with
  | nil => simp
  | cons he _ ih =>
    intro r hr
    rcases List.mem_cons.1 hr with rfl | hr
    · rw [keys_operations he]
      exact Text.nodup_distinct _
    · exact ih r hr

theorem Registered.not_mem_of_not_registers {es : List Route.Entry} {rs : List (Text × PathItem)}
    {path key : Text} (h : Registered s owners catalog route es rs)
    (hn : ∀ e ∈ es, ¬ e.Registers path key) : ∀ r ∈ rs, r.1 = path → key ∉ r.2.map (·.1) := by
  induction h with
  | nil => simp
  | cons he _ ih =>
    intro r hr hp hk
    rcases List.mem_cons.1 hr with rfl | hr
    · rw [keys_operations he, Text.mem_distinct] at hk
      exact hn _ (by simp) ⟨hp, hk⟩
    · exact ih (fun d hd => hn d (by simp [hd])) r hr hp hk

section Table

variable {es : List Route.Entry} {rs : List (Text × PathItem)}

theorem keys_of_registered (h : Registered s owners catalog route es rs) :
    (addAll [] rs).map (·.1) = Text.distinct (es.map (·.path)) := by
  have hk := congrArg (List.map Prod.fst) h.keys
  rw [List.map_map, List.map_map] at hk
  rw [keys_addAll]
  exact congrArg Text.distinct hk

theorem itemKeys_of_registered (h : Registered s owners catalog route es rs) (path : Text) :
    (((addAll [] rs).lookup path).getD []).map (·.1) =
      Text.distinct ((es.filter (·.path = path)).flatMap fun e => e.methods.map Text.lower) := by
  have hk : (rs.filter (·.1 = path)).map (fun r => r.2.map (·.1)) =
      (es.filter (·.path = path)).map fun e => Text.distinct (e.methods.map Text.lower) := by
    have hf := congrArg (fun l => (l.filter (·.1 = path)).map Prod.snd) h.keys
    simpa [List.filter_map, List.map_map, Function.comp_def] using hf
  rw [itemKeys_addAll, List.flatMap_def, hk, ← List.flatMap_def]
  exact Text.distinct_flatMap_distinct _ _

theorem itemKeys_of_mem (h : Registered s owners catalog route es rs) {path : Text}
    {item : PathItem} (hm : (path, item) ∈ addAll [] rs) : item.map (·.1) =
      Text.distinct ((es.filter (·.path = path)).flatMap fun e => e.methods.map Text.lower) := by
  have hn : ((addAll [] rs).map (·.1)).Nodup := by
    rw [keys_of_registered h]
    exact Text.nodup_distinct _
  have hi := itemKeys_of_registered h path
  rwa [(Pairs.lookup_eq_some_iff_mem hn).2 hm] at hi

theorem operation?_isSome_iff {ps : Paths} {path key : Text} :
    (operation? ps path key).isSome ↔ key ∈ ((ps.lookup path).getD []).map (·.1) := by
  unfold operation?
  cases ps.lookup path with
  | none => simp
  | some item => exact Pairs.lookup_isSome_iff_mem_keys

/-- An operation is the one of the last entry that registers it. -/
theorem operation?_of_registered_append {before after : List Route.Entry} {e : Route.Entry}
    {path key : Text} (h : Registered s owners catalog route (before ++ e :: after) rs)
    (he : e.Registers path key) (ha : ∀ d ∈ after, ¬ d.Registers path key) :
    ∃ item, e.operations s owners catalog (route + before.length) = .ok item ∧
      operation? (addAll [] rs) path key = item.lookup key := by
  obtain ⟨first, rest, rfl, -, hr⟩ := registered_append.1 h
  cases hr with
  | @cons _ _ _ item rs hi hes =>
    refine ⟨item, hi, ?_⟩
    have hs : addAll [] (first ++ (e.path, item) :: rs) =
        addAll (add (addAll [] first) e.path item) rs := by
      simp [addAll, List.foldl_append]
    have hd : (item.map (·.1)).Nodup := by
      rw [keys_operations hi]
      exact Text.nodup_distinct _
    have hk : (item.lookup key).isSome := by
      rw [Pairs.lookup_isSome_iff_mem_keys, keys_operations hi, Text.mem_distinct]
      exact he.2
    rw [hs, operation?_addAll_of_not_mem hes.nodup (hes.not_mem_of_not_registers ha),
      operation?_add hd, if_pos he.1.symm, Option.or_of_isSome hk]

end Table

end Registered

end Paths

/-- What the paths of a document are to the entries of its table. -/
structure Paths.Reflect (s : DocumentSettings) (owners : ControllerMap) (catalog : List Entity)
    (es : List Route.Entry) (ps : Paths) : Prop where
  keys : ps.map (·.1) = Text.distinct (es.map (·.path))
  itemKeys : ∀ path item, (path, item) ∈ ps → item.map (·.1) =
    Text.distinct ((es.filter (·.path = path)).flatMap fun e => e.methods.map Text.lower)
  empty : ∀ e ∈ es, (∀ d ∈ es, d.path = e.path → d.methods = []) → (e.path, []) ∈ ps
  isSome_iff : ∀ path key, (ps.operation? path key).isSome ↔ ∃ e ∈ es, e.Registers path key
  last : ∀ before e after path key, es = before ++ e :: after → e.Registers path key →
    (∀ d ∈ after, ¬ d.Registers path key) →
    ∃ item, e.operations s owners catalog before.length = .ok item ∧
      ps.operation? path key = item.lookup key

theorem Paths.Registered.reflect {s : DocumentSettings} {owners : ControllerMap}
    {catalog : List Entity} {es : List Route.Entry} {rs : List (Text × PathItem)}
    (h : Registered s owners catalog 0 es rs) :
    Reflect s owners catalog es (addAll [] rs) where
  keys := keys_of_registered h
  itemKeys _ _ := itemKeys_of_mem h
  empty := by
    intro e he hn
    have hk : e.path ∈ (addAll [] rs).map (·.1) := by
      rw [keys_of_registered h, Text.mem_distinct]
      exact List.mem_map_of_mem he
    obtain ⟨⟨path, item⟩, hm, hp⟩ := List.mem_map.1 hk
    obtain rfl : path = e.path := hp
    have hi := itemKeys_of_mem h hm
    have hf : (es.filter (·.path = e.path)).flatMap (fun d => d.methods.map Text.lower) = [] := by
      simp only [List.flatMap_eq_nil_iff, List.mem_filter, decide_eq_true_eq]
      rintro d ⟨hd, hp⟩
      rw [hn d hd hp, List.map_nil]
    rw [hf, Text.distinct_nil, List.map_eq_nil_iff] at hi
    rwa [← hi]
  isSome_iff := by
    intro path key
    rw [operation?_isSome_iff, itemKeys_of_registered h, Text.mem_distinct, List.mem_flatMap]
    simp only [List.mem_filter, decide_eq_true_eq, and_assoc, Route.Entry.Registers]
  last := by
    intro before e after path key hes he ha
    subst hes
    simpa using operation?_of_registered_append h he ha

def PathItem.toJson (wrapper : Text) (item : PathItem) : Json :=
  .obj (item.map fun o => (o.1, o.2.toJson wrapper))

theorem PathItem.keys_toJson (wrapper : Text) (item : PathItem) :
    (PathItem.toJson wrapper item).keys = item.map (·.1) := by
  simp [toJson, Function.comp_def]

theorem PathItem.at?_toJson (wrapper : Text) (item : PathItem) (key : Text) :
    (PathItem.toJson wrapper item).at? [key] =
      (item.lookup key).map fun o => o.toJson wrapper := by
  simp [toJson, Pairs.lookup_map_values (Operation.toJson wrapper)]

namespace Document

theorem keys_at?_paths (d : Document) :
    (d.toJson.at? ["paths"]).map Json.keys = some (d.paths.map (·.1)) := by
  have hd : d.toJson.at? ["paths"] = some (pathsJson d.settings.grammar.wrapper d.paths) := rfl
  simp [hd, pathsJson, Function.comp_def]

theorem at?_pathItem (d : Document) (path : Text) :
    d.toJson.at? ["paths", path] =
      (d.paths.lookup path).map (PathItem.toJson d.settings.grammar.wrapper) := by
  have hd : d.toJson.at? ["paths", path] =
      ((d.paths.map fun p => (p.1, PathItem.toJson d.settings.grammar.wrapper p.2)).lookup
        path).bind some := rfl
  rw [hd, Option.bind_fun_some, Pairs.lookup_map_values]

theorem at?_paths (d : Document) (path key : Text) :
    d.toJson.at? ["paths", path, key] =
      (d.paths.operation? path key).map fun o => o.toJson d.settings.grammar.wrapper := by
  have hd : d.toJson.at? ["paths", path, key] =
      (d.toJson.at? ["paths", path]).bind fun item => item.at? [key] :=
    d.toJson.at?_append ["paths", path] [key]
  rw [hd, at?_pathItem]
  unfold Paths.operation?
  cases d.paths.lookup path with
  | none => rfl
  | some item => exact PathItem.at?_toJson _ item key

end Document

theorem Document.ofEntries_eq_ok {s : DocumentSettings} {owners : ControllerMap}
    {catalog : List Entity} {es : List Route.Entry} {d : Document}
    (h : Document.ofEntries s owners catalog es = .ok d) :
    ∃ rs, Paths.Registered s owners catalog 0 es rs ∧ d.paths = Paths.addAll [] rs := by
  obtain ⟨paths, hp, h⟩ := bind_eq_ok.1 h
  rw [← Except.ok.inj h]
  exact Paths.addEntries_eq_ok.1 hp

theorem Document.settings_of_ofEntries {s : DocumentSettings} {owners : ControllerMap}
    {catalog : List Entity} {es : List Route.Entry} {d : Document}
    (h : Document.ofEntries s owners catalog es = .ok d) : d.settings = s := by
  obtain ⟨paths, -, h⟩ := bind_eq_ok.1 h
  rw [← Except.ok.inj h]

theorem Builder.exists_of_build {b b' : Builder} {t : Route.Table} {s s' : Session} {d : Document}
    (h : (b.build t).outcome s = (.ok (d, b'), s')) :
    ∃ catalog entries,
      ((Catalog.read b.catalog : Action BuildError _).outcome s).1 = .ok catalog ∧
      t.entries = .ok entries ∧ Document.ofEntries b.settings b.owners catalog entries = .ok d := by
  obtain ⟨d', s₁, ha, h⟩ := Action.outcome_bind_eq_ok.1 h
  obtain ⟨written, s₂, -, h⟩ := Action.outcome_bind_eq_ok.1 h
  obtain ⟨catalog, s₃, hc, ha⟩ := Action.outcome_bind_eq_ok.1 ha
  obtain ⟨entries, s₄, he, ha⟩ := Action.outcome_bind_eq_ok.1 ha
  obtain ⟨_, s₅, -, ha⟩ := Action.outcome_bind_eq_ok.1 ha
  obtain ⟨d'', s₆, hd, ha⟩ := Action.outcome_bind_eq_ok.1 ha
  obtain ⟨_, s₇, -, ha⟩ := Action.outcome_bind_eq_ok.1 ha
  rw [Action.outcome_pure] at h ha
  cases h
  cases ha
  exact ⟨catalog, entries, by rw [hc], mapError_eq_ok.1 (congrArg Prod.fst he),
    mapError_eq_ok.1 (congrArg Prod.fst hd)⟩

theorem Builder.build_eq_ok {b b' : Builder} {t : Route.Table} {s s' : Session} {d : Document}
    (h : (b.build t).outcome s = (.ok (d, b'), s')) :
    ∃ catalog entries rs,
      ((Catalog.read b.catalog : Action BuildError _).outcome s).1 = .ok catalog ∧
      t.entries = .ok entries ∧ Paths.Registered b.settings b.owners catalog 0 entries rs ∧
      d.paths = Paths.addAll [] rs := by
  obtain ⟨catalog, entries, hc, he, hd⟩ := exists_of_build h
  obtain ⟨rs, hr, hp⟩ := Document.ofEntries_eq_ok hd
  exact ⟨catalog, entries, rs, hc, he, hr, hp⟩

/-- A successful build reads a catalog and the entries of its table, each with its methods sorted,
and its paths reflect them. Routes that are added behind a table leave all operations as they are
that they do not register themselves. -/
theorem Builder.build_reflects {b b' : Builder} {t : Route.Table} {s s' : Session} {d : Document}
    (h : (b.build t).outcome s = (.ok (d, b'), s')) :
    ∃ catalog es, ((Catalog.read b.catalog : Action BuildError _).outcome s).1 = .ok catalog ∧
      t.entries = .ok es ∧ (∀ e ∈ es, e.methods.Pairwise fun m n => Text.le m n ∧ m ≠ n) ∧
      d.paths.Reflect b.settings b.owners catalog es ∧
      ∀ (u : Route.Table) (added : List Route.Entry) (d₂ : Document) (b₂ : Builder) (s₂ : Session),
        u.entries = .ok added → (b.build (t ++ u)).outcome s = (.ok (d₂, b₂), s₂) →
        ∀ path key, (∀ e ∈ added, ¬ e.Registers path key) →
          d₂.paths.operation? path key = d.paths.operation? path key := by
  obtain ⟨catalog, es, rs, hc, he, hr, hp⟩ := build_eq_ok h
  refine ⟨catalog, es, hc, he, Route.Table.pairwise_methods he, hp ▸ hr.reflect, ?_⟩
  intro u added d₂ b₂ s₂ hu h₂ path key hn
  obtain ⟨catalog₂, es₂, rs₂, hc₂, he₂, hr₂, hp₂⟩ := build_eq_ok h₂
  rw [hc] at hc₂
  cases hc₂
  rw [Route.Table.entries_append he hu] at he₂
  cases he₂
  obtain ⟨first, rest, rfl, hf, hl⟩ := Paths.registered_append.1 hr₂
  rw [hp, hp₂, hf.unique hr]
  have hs : Paths.addAll [] (rs ++ rest) = Paths.addAll (Paths.addAll [] rs) rest := by
    simp [Paths.addAll, List.foldl_append]
  rw [hs]
  exact Paths.operation?_addAll_of_not_mem hl.nodup (hl.not_mem_of_not_registers hn)

def repeatedRoute : Route.Table :=
  [.route (some "/a") ["get", "post"] [], .route (some "a/") ["GET"] []]

theorem Builder.build_reflects_repeatedRoute : ∃ d b' s' catalog es,
    (({} : Builder).build repeatedRoute).outcome ⟨⟨.dir [], [], [], []⟩, []⟩ = (.ok (d, b'), s') ∧
    repeatedRoute.entries = .ok es ∧ d.paths.Reflect {} [] catalog es := by
  have h : ∃ d b' s',
      (({} : Builder).build repeatedRoute).outcome ⟨⟨.dir [], [], [], []⟩, []⟩ =
        (.ok (d, b'), s') := ⟨_, _, _, rfl⟩
  obtain ⟨d, b', s', h⟩ := h
  obtain ⟨catalog, es, -, he, -, hr, -⟩ := Builder.build_reflects h
  exact ⟨d, b', s', catalog, es, h, he, hr⟩

/-- In the written document, too, paths stand in the order in which they are first registered, and so
do the methods under a path. -/
theorem Builder.keys_of_build {b b' : Builder} {t : Route.Table} {s s' : Session} {d : Document}
    (h : (b.build t).outcome s = (.ok (d, b'), s')) :
    ∃ es, t.entries = .ok es ∧
      (d.toJson.at? ["paths"]).map Json.keys = some (Text.distinct (es.map (·.path))) ∧
      (∀ path item, d.toJson.at? ["paths", path] = some item → item.keys =
        Text.distinct ((es.filter (·.path = path)).flatMap fun e => e.methods.map Text.lower)) ∧
      ∀ path key, (d.toJson.at? ["paths", path, key]).isSome ↔ ∃ e ∈ es, e.Registers path key := by
  obtain ⟨catalog, es, rs, -, he, hr, hp⟩ := build_eq_ok h
  have hf : d.paths.Reflect b.settings b.owners catalog es := hp ▸ hr.reflect
  have hn : (d.paths.map (·.1)).Nodup := hf.keys ▸ Text.nodup_distinct _
  refine ⟨es, he, ?_, fun path item hi => ?_, fun path key => ?_⟩
  · rw [Document.keys_at?_paths, hf.keys]
  · rw [Document.at?_pathItem] at hi
    obtain ⟨operations, hl, rfl⟩ := Option.map_eq_some_iff.1 hi
    rw [PathItem.keys_toJson]
    exact hf.itemKeys path operations ((Pairs.lookup_eq_some_iff_mem hn).1 hl)
  · rw [Document.at?_paths, Option.isSome_map, hf.isSome_iff]

end RouteAtlas
