import Mathlib
import RouteAtlas.Proofs.Entity.Catalog
import RouteAtlas.Proofs.Value.Denotes

/-!
# Layouts of catalogs

A catalog stands in memory, in a file under the key `entities`, or in a file as the bare mapping.
All three are read alike, unless the bare mapping has an entity of this name.
-/

namespace RouteAtlas

namespace Catalog

/-- Pairs of which no two have one key. -/
abbrev Mapping (β : Type) := {ps : List (Text × β) // (ps.map (·.1)).Nodup}

def Mapping.toJson {β : Type} (f : β → Json) (m : Mapping β) : Json :=
  .obj (m.1.map fun p => (p.1, f p.2))

/-- Entities with type tags under the names of their fields. -/
abbrev Declared := Mapping (Mapping Text)

namespace Declared

def document (c : Declared) : Json := c.toJson (Mapping.toJson .str)

def entities (c : Declared) : List Entity := c.1.map fun e => ⟨e.1, e.2.1⟩

end Declared

/-- What the text of a file is decoded to. A blank text counts as an empty mapping. -/
def Decodes (t : Text) (d : Loaded) : Prop :=
  if t.isBlank then d = .ofJson (.obj []) else Yaml.load t = .ok d

def FileHolds (fs : Files.System) (path : Files.Path) (j : Json) : Prop :=
  ∃ t d, fs.readText path = .ok t ∧ Decodes t d ∧ d.Denotes j

section Readings

variable {cs : Collections} {es : List (Value × Value)} {v : Value}

theorem Mapping.forall₂_of_denote {β : Type} {f : β → Json} {m : Mapping β}
    (h : cs.DenoteFields es (m.1.map fun p => (p.1, f p.2))) :
    List.Forall₂ (fun e p => e.1 = .str p.1 ∧ cs.Denotes e.2 (f p.2)) es m.1 :=
  List.forall₂_map_right_iff.1 (Collections.denoteFields_iff.1 h)

theorem fieldTexts_of_denote {m : Mapping Text}
    (h : cs.DenoteFields es (m.1.map fun p => (p.1, .str p.2))) : fieldTexts cs es = .ok m.1 := by
  have hm : es.mapM (fun e => do return (← plain cs e.1, ← plain cs e.2)) = .ok m.1 := by
    refine mapM_eq_ok_iff.2 ((Mapping.forall₂_of_denote h).imp ?_)
    rintro ⟨k, v⟩ ⟨t, u⟩ ⟨rfl, rfl⟩
    rfl
  rw [fieldTexts, hm]
  exact congrArg Except.ok (Pairs.ofList_of_nodup m.2)

theorem mappingOnly_of_denotes {m : Mapping Text} (h : cs.Denotes v (m.toJson .str))
    (name : Text) : mappingOnly cs (.str name, v) = .ok (some (name, m.1)) := by
  obtain ⟨fs, hfs, hd⟩ := h
  rw [mappingOnly]
  simp only [hfs, fieldTexts_of_denote hd]
  rfl

theorem forall₂_mappingOnly {c : Declared}
    (h : cs.DenoteFields es (c.1.map fun e => (e.1, e.2.toJson .str))) :
    List.Forall₂ (fun e p => mappingOnly cs e = .ok (some (p.1, p.2.1))) es c.1 := by
  refine (Mapping.forall₂_of_denote h).imp ?_
  rintro ⟨k, v⟩ ⟨t, m⟩ ⟨rfl, hd⟩
  exact mappingOnly_of_denotes hd t

/-- Fields are no entities: their tags are no mappings. -/
theorem forall₂_mappingOnly_texts {m : Mapping Text}
    (h : cs.DenoteFields es (m.1.map fun p => (p.1, .str p.2))) :
    List.Forall₂ (fun e _ => mappingOnly cs e = .ok none) es m.1 := by
  refine (Mapping.forall₂_of_denote h).imp ?_
  rintro ⟨k, v⟩ ⟨t, u⟩ ⟨rfl, rfl⟩
  rfl

theorem ofList_filterMap (c : Declared) :
    Pairs.ofList ((c.1.map fun e => some (e.1, e.2.1)).filterMap id) =
      c.1.map fun e => (e.1, e.2.1) := by
  have hm : (c.1.map fun e => some (e.1, e.2.1)).filterMap id = c.1.map fun e => (e.1, e.2.1) := by
    simp
  rw [hm]
  refine Pairs.ofList_of_nodup ?_
  rw [List.map_map]
  exact c.2

end Readings

section Files

variable {d : Loaded} {fs : List (Text × Json)}

theorem entriesOf?_of_lookup_eq_none (h : d.Denotes (.obj fs))
    (hn : fs.lookup ("entities" : Text) = none) :
    ∃ es, entriesOf? d = some es ∧ d.collections.DenoteFields es fs := by
  obtain ⟨es, hes, hd⟩ := h
  have hr := hd.rel_entry? "entities"
  rw [hn] at hr
  refine ⟨es, ?_, hd⟩
  cases he : Value.entry? es "entities" with
  | none => simp [entriesOf?, Loaded.entries?, hes, he]
  | some v => rw [he] at hr; cases hr

theorem entriesOf?_of_lookup_eq_some {gs : List (Text × Json)} (h : d.Denotes (.obj fs))
    (hs : fs.lookup ("entities" : Text) = some (Json.obj gs)) :
    ∃ es, entriesOf? d = some es ∧ d.collections.DenoteFields es gs := by
  obtain ⟨es, hes, hd⟩ := h
  have hr := hd.rel_entry? "entities"
  rw [hs] at hr
  cases he : Value.entry? es "entities" with
  | none => rw [he] at hr; cases hr
  | some v =>
    rw [he] at hr
    obtain ⟨hv⟩ := hr
    obtain ⟨es', hes', hd'⟩ := hv
    exact ⟨es', by simp [entriesOf?, Loaded.entries?, hes, he, hes'], hd'⟩

theorem ofFile_eq_ok {files : Files.System} {path : Files.Path} {t : Text}
    {es : List (Value × Value)} {found : List (Option (Text × List (Text × Text)))}
    (ht : files.readText path = .ok t) (hd : Decodes t d) (he : entriesOf? d = some es)
    (hf : List.Forall₂ (fun e found => mappingOnly d.collections e = .ok found) es found) :
    ofFile files path = .ok (Pairs.ofList (found.filterMap id)) := by
  have hr : (do return Pairs.ofList ((← es.mapM (mappingOnly d.collections)).filterMap id)) =
      Except.ok (Pairs.ofList (found.filterMap id)) :=
    bind_eq_ok.2 ⟨found, mapM_eq_ok_iff.2 hf, rfl⟩
  unfold ofFile
  simp only [ht]
  refine bind_eq_ok.2 ⟨t, rfl, ?_⟩
  unfold Decodes at hd
  split at hd
  · rename_i hb
    rw [if_pos hb, ← hd]
    exact bind_eq_ok.2 ⟨d, rfl, by rw [he]; exact hr⟩
  · rename_i hb
    rw [if_neg hb, hd]
    exact bind_eq_ok.2 ⟨d, rfl, by rw [he]; exact hr⟩

end Files

section Read

variable {ε : Type} {s : Session}

theorem outcome_read {cat : Catalog} {es : List (Text × List (Text × Text))}
    (h : cat.fetch.outcome s = (.ok es, s)) :
    (read (some cat) : Action ε _).outcome s = (.ok (es.map fun e => ⟨e.1, e.2⟩), s) := by
  rw [read, Action.outcome_bind, Action.outcome_attempt, h]
  rfl

theorem outcome_remembered {cs : Collections} {e : Value × Value}
    {entity : Text × List (Text × Text)} (h : mappingOnly cs e = .ok (some entity)) (s : Session) :
    (remembered cs e).outcome s = (.ok (some entity), s) := by
  rw [remembered, Action.outcome_bind, Action.outcome_ofExcept, h]
  rfl

theorem outcome_fetch_memory {d : Loaded} {c : Declared} (h : d.Denotes c.document) (s : Session) :
    (fetch (.memory d)).outcome s = (.ok (c.1.map fun e => (e.1, e.2.1)), s) := by
  obtain ⟨es, hes, hd⟩ := h
  have hes : d.entries? = some es := hes
  have hm : (es.mapM (remembered d.collections)).outcome s =
      (.ok (c.1.map fun e => some (e.1, e.2.1)), s) := by
    refine Action.outcome_mapM (List.forall₂_map_right_iff.2 ?_)
    exact (forall₂_mappingOnly hd).imp fun e p h => outcome_remembered h s
  simp only [fetch, hes]
  rw [Action.outcome_bind, hm]
  exact congrArg (fun es => (Except.ok es, s)) (ofList_filterMap c)

theorem outcome_read_memory {d : Loaded} {c : Declared} (h : d.Denotes c.document) (s : Session) :
    (read (some (.memory d)) : Action ε _).outcome s = (.ok c.entities, s) := by
  rw [outcome_read (outcome_fetch_memory h s), List.map_map]
  rfl

theorem outcome_read_file {path : Files.Path} {es : List (Text × List (Text × Text))}
    (h : ofFile s.files path = .ok es) :
    (read (some (.file path)) : Action ε _).outcome s = (.ok (es.map fun e => ⟨e.1, e.2⟩), s) := by
  refine outcome_read ?_
  rw [fetch, Action.outcome_bind, Action.outcome_files]
  exact congrArg (fun x => (x, s)) h

theorem outcome_read_listed {path : Files.Path} {t : Text} {d : Loaded} {c : Declared}
    {es : List (Value × Value)} (ht : s.files.readText path = .ok t) (hd : Decodes t d)
    (he : entriesOf? d = some es)
    (h : d.collections.DenoteFields es (c.1.map fun e => (e.1, e.2.toJson .str))) :
    (read (some (.file path)) : Action ε _).outcome s = (.ok c.entities, s) := by
  have hf : ofFile s.files path = .ok (c.1.map fun e => (e.1, e.2.1)) := by
    rw [ofFile_eq_ok ht hd he (List.forall₂_map_right_iff.2 (forall₂_mappingOnly h)),
      ofList_filterMap]
  rw [outcome_read_file hf, List.map_map]
  rfl

section File

variable {path : Files.Path} {c : Declared}

theorem outcome_read_block (h : FileHolds s.files path (.obj [("entities", c.document)])) :
    (read (some (.file path)) : Action ε _).outcome s = (.ok c.entities, s) := by
  obtain ⟨t, d, ht, hd, hj⟩ := h
  obtain ⟨es, he, hes⟩ := entriesOf?_of_lookup_eq_some hj (List.lookup_cons_self ..)
  exact outcome_read_listed ht hd he hes

theorem outcome_read_bare (h : FileHolds s.files path c.document)
    (hn : ("entities" : Text) ∉ c.1.map (·.1)) :
    (read (some (.file path)) : Action ε _).outcome s = (.ok c.entities, s) := by
  obtain ⟨t, d, ht, hd, hj⟩ := h
  have hl : c.1.lookup ("entities" : Text) = none := by
    rwa [← Option.not_isSome_iff_eq_none, Pairs.lookup_isSome_iff_mem_keys]
  obtain ⟨es, he, hes⟩ := entriesOf?_of_lookup_eq_none hj
    ((Pairs.lookup_map_values _ _ _).trans (congrArg _ hl))
  exact outcome_read_listed ht hd he hes

theorem outcome_read_named (h : FileHolds s.files path c.document)
    (hm : ("entities" : Text) ∈ c.1.map (·.1)) :
    (read (some (.file path)) : Action ε _).outcome s = (.ok [], s) := by
  obtain ⟨t, d, ht, hd, hj⟩ := h
  obtain ⟨m, hl⟩ := Option.isSome_iff_exists.1 (Pairs.lookup_isSome_iff_mem_keys.2 hm)
  obtain ⟨es, he, hes⟩ := entriesOf?_of_lookup_eq_some hj
    ((Pairs.lookup_map_values _ _ _).trans (congrArg _ hl))
  have hf := ofFile_eq_ok ht hd he (List.forall₂_map_right_iff.2 (forall₂_mappingOnly_texts hes))
  rw [outcome_read_file hf]
  simp [Pairs.ofList]

end File

/-- A catalog is read alike from memory, from a file that holds it under `entities` and from one
that holds it bare, and nothing is logged. Only a bare mapping with an entity called `entities` is
read in another way: as the block of entities that stands there, in which there is no entity. -/
theorem read_layouts (c : Declared) (s : Session) :
    (∀ d : Loaded, d.Denotes c.document →
      (read (some (.memory d)) : Action ε _).outcome s = (.ok c.entities, s)) ∧
    ∀ path,
      (FileHolds s.files path (.obj [("entities", c.document)]) →
        (read (some (.file path)) : Action ε _).outcome s = (.ok c.entities, s)) ∧
      (FileHolds s.files path c.document → ("entities" : Text) ∉ c.1.map (·.1) →
        (read (some (.file path)) : Action ε _).outcome s = (.ok c.entities, s)) ∧
      (FileHolds s.files path c.document → ("entities" : Text) ∈ c.1.map (·.1) →
        (read (some (.file path)) : Action ε _).outcome s = (.ok [], s)) :=
  ⟨fun _ h => outcome_read_memory h s,
    fun _ => ⟨outcome_read_block, outcome_read_bare, outcome_read_named⟩⟩

end Read

section Runs

def twoFiles (block bare : String) : Files.System :=
  ⟨.dir [("a.yml", .file (Utf8.encodeChars block.toList)),
    ("b.yml", .file (Utf8.encodeChars bare.toList))], [], [], []⟩

def blockPath : Files.Path := ⟨.relative, ["a.yml"]⟩

def barePath : Files.Path := ⟨.relative, ["b.yml"]⟩

def userCatalog : Declared := ⟨[("User", ⟨[("id", "INTEGER")], by decide⟩)], by decide⟩

def userFiles : Files.System :=
  twoFiles "entities: {User: {id: INTEGER}}" "User: {id: INTEGER}"

def blockNamed : Declared := ⟨[("entities", ⟨[], by decide⟩)], by decide⟩

def blockNamedFiles : Files.System := twoFiles "entities: \x7bentities: \x7b\x7d\x7d" "entities: \x7b\x7d"

theorem fileHolds_userCatalog_block :
    FileHolds userFiles blockPath (.obj [("entities", userCatalog.document)]) := by
  refine ⟨"entities: {User: {id: INTEGER}}", ⟨#[.map [(.str "entities", .collection 1)],
    .map [(.str "User", .collection 2)], .map [(.str "id", .str "INTEGER")]], .collection 0⟩,
    by cbv, ?_, ?_⟩
  · rw [Decodes, if_neg (by decide)]
    decide +kernel
  · exact ⟨_, rfl, rfl, ⟨_, rfl, rfl, ⟨_, rfl, rfl, rfl, trivial⟩, trivial⟩, trivial⟩

theorem fileHolds_userCatalog : FileHolds userFiles barePath userCatalog.document := by
  refine ⟨"User: {id: INTEGER}", ⟨#[.map [(.str "User", .collection 1)],
    .map [(.str "id", .str "INTEGER")]], .collection 0⟩, by cbv, ?_, ?_⟩
  · rw [Decodes, if_neg (by decide)]
    decide +kernel
  · exact ⟨_, rfl, rfl, ⟨_, rfl, rfl, rfl, trivial⟩, trivial⟩

theorem fileHolds_blockNamed : FileHolds blockNamedFiles barePath blockNamed.document := by
  refine ⟨"entities: \x7b\x7d", ⟨#[.map [(.str "entities", .collection 1)], .map []], .collection 0⟩,
    by cbv, ?_, ?_⟩
  · rw [Decodes, if_neg (by decide)]
    decide +kernel
  · exact ⟨_, rfl, rfl, ⟨_, rfl, trivial⟩, trivial⟩

theorem read_layouts_user :
    (read (some (.memory (.ofJson userCatalog.document))) : Action Empty _).outcome
        ⟨userFiles, []⟩ = (.ok [⟨"User", [("id", "INTEGER")]⟩], ⟨userFiles, []⟩) ∧
      (read (some (.file blockPath)) : Action Empty _).outcome ⟨userFiles, []⟩ =
        (.ok [⟨"User", [("id", "INTEGER")]⟩], ⟨userFiles, []⟩) ∧
      (read (some (.file barePath)) : Action Empty _).outcome ⟨userFiles, []⟩ =
        (.ok [⟨"User", [("id", "INTEGER")]⟩], ⟨userFiles, []⟩) ∧
      (read (some (.file barePath)) : Action Empty _).outcome ⟨blockNamedFiles, []⟩ =
        (.ok [], ⟨blockNamedFiles, []⟩) := by
  obtain ⟨hm, hf⟩ := @read_layouts Empty userCatalog ⟨userFiles, []⟩
  obtain ⟨-, hn⟩ := @read_layouts Empty blockNamed ⟨blockNamedFiles, []⟩
  exact ⟨hm _ (Loaded.denotes_ofJson _), (hf blockPath).1 fileHolds_userCatalog_block,
    (hf barePath).2.1 fileHolds_userCatalog (by decide),
    (hn barePath).2.2 fileHolds_blockNamed (by decide)⟩

/-- A bare mapping with an entity called `entities` is not read like the catalog in memory. -/
theorem read_blockNamed : FileHolds blockNamedFiles barePath blockNamed.document ∧
    (read (some (.file barePath)) : Action Empty _).outcome ⟨blockNamedFiles, []⟩ =
      (.ok [], ⟨blockNamedFiles, []⟩) ∧
    (read (some (.memory (.ofJson blockNamed.document))) : Action Empty _).outcome
        ⟨blockNamedFiles, []⟩ = (.ok [⟨"entities", []⟩], ⟨blockNamedFiles, []⟩) :=
  ⟨fileHolds_blockNamed, outcome_read_named fileHolds_blockNamed (by decide),
    outcome_read_memory (Loaded.denotes_ofJson _) _⟩

end Runs

end Catalog

end RouteAtlas
