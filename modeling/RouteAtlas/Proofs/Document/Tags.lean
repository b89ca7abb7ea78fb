import RouteAtlas.Proofs.Document.Operations
import RouteAtlas.Proofs.Owner.Resolve

/-!
# Tags of a document

Every operation carries one tag, that of its entry. The tags of a document are those of its
operations, in order, each once.
-/

namespace RouteAtlas

namespace DocumentTag

def toJson (t : DocumentTag) : Json :=
  .obj [("name", .str t.name), ("description", .str t.description)]

theorem mem_ofNames {names : List Text} {t : DocumentTag} : t ∈ ofNames names ↔ t.name ∈ names := by
  cases t
  simp [ofNames, Text.sorted, List.mem_mergeSort]

theorem pairwise_ofNames (names : List Text) :
    (ofNames names).Pairwise fun s t => Text.le s.name t.name ∧ s.name ≠ t.name :=
  ((Text.pairwise_sorted _).and (Text.nodup_sorted (Text.nodup_distinct names))).map _
    fun _ _ => id

end DocumentTag

namespace Paths

variable {s : DocumentSettings} {owners : ControllerMap} {catalog : List Entity}
  {es : List Route.Entry} {ps : Paths}

/-- Every operation of the paths is found under its path and method. -/
theorem Reflect.mem_tagNames (h : ps.Reflect s owners catalog es) {tag : Text} :
    tag ∈ ps.tagNames ↔ ∃ path key o, ps.operation? path key = some o ∧ o.tag = tag := by
  have hps : (ps.map (·.1)).Nodup := h.keys ▸ Text.nodup_distinct _
  have hitem {path : Text} {item : PathItem} (hi : (path, item) ∈ ps) : (item.map (·.1)).Nodup :=
    h.itemKeys path item hi ▸ Text.nodup_distinct _
  simp only [tagNames, List.mem_flatMap, List.mem_map]
  constructor
  · rintro ⟨⟨path, item⟩, hi, ⟨key, o⟩, ho, rfl⟩
    refine ⟨path, key, o, ?_, rfl⟩
    rw [operation?, (Pairs.lookup_eq_some_iff_mem hps).2 hi]
    exact (Pairs.lookup_eq_some_iff_mem (hitem hi)).2 ho
  · rintro ⟨path, key, o, ho, rfl⟩
    obtain ⟨item, hi, ho⟩ := Option.bind_eq_some_iff.1 ho
    have hi := (Pairs.lookup_eq_some_iff_mem hps).1 hi
    exact ⟨(path, item), hi, (key, o), (Pairs.lookup_eq_some_iff_mem (hitem hi)).1 ho, rfl⟩

end Paths

theorem Route.Entry.tag_of_operations {s : DocumentSettings} {owners : ControllerMap}
    {catalog : List Entity} {route : Nat} {e : Route.Entry} {item : PathItem} {key : Text}
    {o : Operation} (h : e.operations s owners catalog route = .ok item)
    (ho : item.lookup key = some o) : o.tag = Owner.resolve {} owners e.handler.name e.path := by
  obtain ⟨a, -, h⟩ := bind_eq_ok.1 h
  obtain rfl := Except.ok.inj h
  obtain ⟨method, -, hm⟩ := List.mem_map.1 (Pairs.mem_of_lookup_ofList ho)
  obtain ⟨-, rfl⟩ := Prod.mk.inj hm
  rfl

theorem Paths.Reflect.exists_tag {s : DocumentSettings} {owners : ControllerMap}
    {catalog : List Entity} {es : List Route.Entry} {ps : Paths}
    (h : ps.Reflect s owners catalog es) {path key : Text} {o : Operation}
    (ho : ps.operation? path key = some o) :
    ∃ before e after, es = before ++ e :: after ∧ e.Registers path key ∧
      (∀ d ∈ after, ¬ d.Registers path key) ∧
      o.tag = Owner.resolve {} owners e.handler.name path := by
  obtain ⟨before, e, after, hes, hr, ha⟩ := Route.Entry.exists_last
    ((h.isSome_iff path key).1 (Option.isSome_iff_exists.2 ⟨o, ho⟩))
  obtain ⟨item, hi, hl⟩ := h.last before e after path key hes hr ha
  refine ⟨before, e, after, hes, hr, ha, ?_⟩
  rw [← hr.1]
  exact Route.Entry.tag_of_operations hi (hl.symm.trans ho)

theorem Operation.at?_tags (o : Operation) (wrapper : Text) :
    (o.toJson wrapper).at? ["tags"] = some (.list [.str o.tag]) := by
  unfold toJson
  cases o.request <;> rfl

theorem Document.at?_tags (d : Document) :
    d.toJson.at? ["tags"] = some (.list (d.tags.map DocumentTag.toJson)) := rfl

theorem Document.tags_of_ofEntries {s : DocumentSettings} {owners : ControllerMap}
    {catalog : List Entity} {es : List Route.Entry} {d : Document}
    (h : Document.ofEntries s owners catalog es = .ok d) :
    d.tags = DocumentTag.ofNames d.paths.tagNames := by
  obtain ⟨paths, -, h⟩ := bind_eq_ok.1 h
  rw [← Except.ok.inj h]

/-- The tags of a document that is built stand in the order of code points, each once, and are those
that its operations carry. Every operation carries one tag: the owner of the route that registered
it last, which is not empty. -/
theorem Builder.build_tags {b b' : Builder} {t : Route.Table} {s s' : Session} {d : Document}
    (h : (b.build t).outcome s = (.ok (d, b'), s')) :
    ∃ (es : List Route.Entry) (tags : List DocumentTag), t.entries = .ok es ∧
      d.toJson.at? ["tags"] = some (.list (tags.map DocumentTag.toJson)) ∧
      (tags.Pairwise fun u v => Text.le u.name v.name ∧ u.name ≠ v.name) ∧
      (∀ u, u ∈ tags ↔ ∃ path key operation, d.toJson.at? ["paths", path, key] = some operation ∧
        operation.at? ["tags"] = some (.list [.str u.name])) ∧
      ∀ path key operation, d.toJson.at? ["paths", path, key] = some operation →
        ∃ before e after, es = before ++ e :: after ∧ e.Registers path key ∧
          (∀ d ∈ after, ¬ d.Registers path key) ∧
          Owner.resolve {} b.owners e.handler.name path ≠ [] ∧
          operation.at? ["tags"] =
            some (.list [.str (Owner.resolve {} b.owners e.handler.name path)]) := by
  obtain ⟨catalog, es, -, he, hd⟩ := exists_of_build h
  obtain ⟨rs, hr, hp⟩ := Document.ofEntries_eq_ok hd
  have hf : d.paths.Reflect b.settings b.owners catalog es := hp ▸ hr.reflect
  have ht : d.tags = DocumentTag.ofNames d.paths.tagNames := Document.tags_of_ofEntries hd
  refine ⟨es, d.tags, he, d.at?_tags, ht ▸ DocumentTag.pairwise_ofNames _, ?_, ?_⟩
  · intro u
    rw [ht, DocumentTag.mem_ofNames, hf.mem_tagNames]
    constructor
    · rintro ⟨path, key, o, ho, hu⟩
      refine ⟨path, key, o.toJson d.settings.grammar.wrapper, ?_, ?_⟩
      · rw [Document.at?_paths, ho]
        rfl
      · rw [Operation.at?_tags, hu]
    · rintro ⟨path, key, operation, ho, hu⟩
      rw [Document.at?_paths] at ho
      obtain ⟨o, hs, rfl⟩ := Option.map_eq_some_iff.1 ho
      refine ⟨path, key, o, hs, ?_⟩
      rw [Operation.at?_tags] at hu
      simpa using hu
  · intro path key operation ho
    rw [Document.at?_paths] at ho
    obtain ⟨o, hs, rfl⟩ := Option.map_eq_some_iff.1 ho
    obtain ⟨before, e, after, hes, hr, ha, hu⟩ := hf.exists_tag hs
    refine ⟨before, e, after, hes, hr, ha, Owner.resolve_ne_nil _ _ _ _, ?_⟩
    rw [Operation.at?_tags, hu]

/-- A route that is registered again under another owner, and one that shares its tag. -/
def reownedTable : Route.Table :=
  [.route (some "/a") ["get"] [.declared (some "first") none],
    .route (some "/b") ["get"] [.declared (some "second") none],
    .route (some "a/") ["GET"] [.declared (some "second") none]]

def reownedBuilder : Builder :=
  { owners := [("first", "Alpha Controller"), ("secondController", "Beta Controller")] }

theorem Builder.build_tags_reowned : ∃ (d : Document) (b' : Builder) (s' : Session)
    (es : List Route.Entry) (tags : List DocumentTag),
    (reownedBuilder.build reownedTable).outcome ⟨⟨.dir [], [], [], []⟩, []⟩ = (.ok (d, b'), s') ∧
    reownedTable.entries = .ok es ∧ tags = [⟨"Beta Controller"⟩] ∧
    d.toJson.at? ["tags"] = some (.list (tags.map DocumentTag.toJson)) ∧
    ∀ u, u ∈ tags ↔ ∃ path key operation, d.toJson.at? ["paths", path, key] = some operation ∧
      operation.at? ["tags"] = some (.list [.str u.name]) := by
  have h : ∃ d b' s', (reownedBuilder.build reownedTable).outcome ⟨⟨.dir [], [], [], []⟩, []⟩ =
      (.ok (d, b'), s') ∧ d.tags = [⟨"Beta Controller"⟩] := ⟨_, _, _, rfl, by decide +kernel⟩
  obtain ⟨d, b', s', h, ht⟩ := h
  obtain ⟨es, tags, he, hj, -, hm, -⟩ := Builder.build_tags h
  have hd : d.tags.map DocumentTag.toJson = tags.map DocumentTag.toJson := by
    simpa using d.at?_tags.symm.trans hj
  have hinj : Function.Injective DocumentTag.toJson := by
    rintro ⟨m⟩ ⟨n⟩ hmn
    simp only [DocumentTag.toJson, Json.obj.injEq, List.cons.injEq, Prod.mk.injEq, Json.str.injEq,
      true_and] at hmn
    exact congrArg _ hmn.1
  obtain rfl := List.map_injective_iff.2 hinj hd
  exact ⟨d, b', s', es, _, h, he, ht, hj, hm⟩

end RouteAtlas
