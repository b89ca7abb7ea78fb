import Mathlib.Data.List.Forall2
import RouteAtlas.Proofs.Document.Operations
import RouteAtlas.Proofs.Text.Case

/-!
# Methods of a document

Only the empty text is dropped from the methods of a route, before they are trimmed. Of white space
alone the empty method remains, and its operation stands under an empty key.
-/

namespace RouteAtlas

theorem Text.isBlank_head?_upper {t : Text} (h : ∀ c ∈ t.head?, c.isBlank = false) :
    ∀ d ∈ t.upper.head?, d.isBlank = false := by
  cases t with
  | nil => simp [upper]
  | cons c r =>
    intro d hd
    have hd : d ∈ c.upper.head? := by
      rwa [upper, List.flatMap_cons, List.head?_append_of_ne_nil _ c.upper_ne_nil] at hd
    exact CodePoint.isBlank_of_mem_upper (h c rfl) d (List.mem_of_mem_head? hd)

theorem Text.isBlank_getLast?_upper {t : Text} (h : ∀ c ∈ t.getLast?, c.isBlank = false) :
    ∀ d ∈ t.upper.getLast?, d.isBlank = false := by
  rcases List.eq_nil_or_concat t with rfl | ⟨s, c, rfl⟩
  · simp [upper]
  · rw [List.concat_eq_append] at h ⊢
    intro d hd
    have hd : d ∈ c.upper.getLast? := by
      rwa [upper, List.flatMap_append, List.flatMap_singleton,
        List.getLast?_append_of_ne_nil _ c.upper_ne_nil] at hd
    exact CodePoint.isBlank_of_mem_upper (h c (by simp)) d (List.mem_of_mem_getLast? hd)

/-- Upper case puts no white space at the ends of a text. -/
theorem Text.trim_upper_trim (t : Text) : t.trim.upper.trim = t.trim.upper :=
  trim_of_ends (isBlank_head?_upper (isBlank_head?_trim t))
    (isBlank_getLast?_upper (isBlank_getLast?_trim t))

namespace Route

section Methods

variable {declared : List Text} {m : Text}

def IsBlankMethod (d : Text) : Prop := d ≠ [] ∧ d.isBlank

theorem mem_methodSet : m ∈ methodSet declared ↔ ∃ d ∈ declared, d ≠ [] ∧ d.trim.upper = m := by
  rw [methodSet, Text.sorted, List.mem_mergeSort, Text.mem_distinct]
  simp only [List.mem_map, List.mem_filter, Bool.not_eq_true', List.isEmpty_eq_false_iff, and_assoc]

theorem trim_of_mem_methodSet (h : m ∈ methodSet declared) : m.trim = m := by
  obtain ⟨d, -, -, rfl⟩ := mem_methodSet.1 h
  exact Text.trim_upper_trim d

theorem nil_mem_methodSet_iff : [] ∈ methodSet declared ↔ ∃ d ∈ declared, IsBlankMethod d := by
  simp only [mem_methodSet, Text.upper_eq_nil_iff, Text.trim_eq_nil_iff, IsBlankMethod]

end Methods

/-- What the methods of an entry are that stands for these declarations. -/
structure Entry.HasMethods (declared : List Text) (e : Entry) : Prop where
  mem_iff : ∀ m, m ∈ e.methods ↔ ∃ d ∈ declared, d ≠ [] ∧ d.trim.upper = m
  trimmed : ∀ m ∈ e.methods, m.trim = m
  nil_mem_iff : [] ∈ e.methods ↔ ∃ d ∈ declared, IsBlankMethod d

theorem Entry.hasMethods_methodSet (path : Text) (declared : List Text) (handlers : List Handler) :
    HasMethods declared ⟨path, methodSet declared, handlers⟩ where
  mem_iff _ := mem_methodSet
  trimmed _ := trim_of_mem_methodSet
  nil_mem_iff := nil_mem_methodSet_iff

mutual

theorem Node.hasMethods_walk (parts : List Text) {base : Text} {n : Node} {es : List Entry}
    (h : n.walk base = .ok es) :
    List.Forall₂ (fun e l => e.HasMethods l.methods) es (n.leaves parts) := by
  cases n with
  | route path methods handlers =>
    obtain rfl := Except.ok.inj h
    exact .cons (Entry.hasMethods_methodSet _ methods handlers) .nil
  | mount inner children => exact hasMethods_walkAll _ h
  | foreign shown => cases h

theorem hasMethods_walkAll (parts : List Text) {base : Text} {ns : List Node} {es : List Entry}
    (h : walkAll base ns = .ok es) :
    List.Forall₂ (fun e l => e.HasMethods l.methods) es (leavesAll parts ns) := by
  cases ns with
  | nil =>
    obtain rfl := Except.ok.inj h
    exact .nil
  | cons n ns =>
    obtain ⟨first, hf, h⟩ := bind_eq_ok.1 h
    obtain ⟨rest, hr, h⟩ := bind_eq_ok.1 h
    obtain rfl := Except.ok.inj h
    exact List.rel_append (Node.hasMethods_walk parts hf) (hasMethods_walkAll parts hr)

end

theorem Entry.registers_nil_iff {e : Entry} {path : Text} :
    e.Registers path [] ↔ e.path = path ∧ [] ∈ e.methods := by
  simp [Registers, Text.lower, Text.lowerFrom_eq_nil_iff]

end Route

theorem Route.Leaf.registers_nil_iff {l : Route.Leaf} {path : Text} :
    l.entry.Registers path [] ↔
      fullPath l.parts = path ∧ ∃ m ∈ l.methods, IsBlankMethod m := by
  rw [Entry.registers_nil_iff, ← nil_mem_methodSet_iff]
  rfl

/-- An operation stands under an empty key exactly where a route declares such a method. -/
theorem Paths.Reflect.isSome_nil_iff {s : DocumentSettings} {owners : ControllerMap}
    {catalog : List Entity} {t : Route.Table} {es : List Route.Entry} {ps : Paths}
    (h : ps.Reflect s owners catalog es) (he : t.entries = .ok es) (path : Text) :
    (ps.operation? path []).isSome ↔ ∃ l ∈ Route.leavesAll [] t,
      Route.fullPath l.parts = path ∧ ∃ m ∈ l.methods, Route.IsBlankMethod m := by
  obtain ⟨-, rfl⟩ := Route.Table.entries_eq_ok.1 he
  rw [h.isSome_iff]
  simp only [List.mem_map, exists_exists_and_eq_and, Route.Leaf.registers_nil_iff]

/-- A walk gives every entry the methods that its route declares, trimmed and in upper case. One of
them is empty if and only if the route declares white space alone, and only from such a declaration
a document has an operation under an empty key. -/
theorem Builder.build_emptyKey (t : Route.Table) :
    (∀ base es, Route.walkAll base t = .ok es →
      List.Forall₂ (fun e l => e.HasMethods l.methods) es (Route.leavesAll [] t)) ∧
    ∀ (b b' : Builder) (s s' : Session) (d : Document),
      (b.build t).outcome s = (.ok (d, b'), s') → ∀ path,
        (d.toJson.at? ["paths", path, []]).isSome ↔ ∃ l ∈ Route.leavesAll [] t,
          Route.fullPath l.parts = path ∧ ∃ m ∈ l.methods, Route.IsBlankMethod m := by
  refine ⟨fun base es h => Route.hasMethods_walkAll [] h, fun b b' s s' d h path => ?_⟩
  obtain ⟨catalog, es, rs, -, he, hr, hp⟩ := build_eq_ok h
  have hf : d.paths.Reflect b.settings b.owners catalog es := hp ▸ hr.reflect
  rw [Document.at?_paths, Option.isSome_map, hf.isSome_nil_iff he]

def paddedTable : Route.Table :=
  [.route (some "/a") [" put", "\t"] [], .route (some "/b") [""] []]

theorem Builder.build_emptyKey_paddedTable :
    (∃ es, Route.walkAll "/v1" paddedTable = .ok es ∧
      List.Forall₂ (fun e l => e.HasMethods l.methods) es (Route.leavesAll [] paddedTable)) ∧
    ∃ d b' s',
      (({} : Builder).build paddedTable).outcome ⟨⟨.dir [], [], [], []⟩, []⟩ = (.ok (d, b'), s') ∧
      (d.toJson.at? ["paths", "/a", []]).isSome ∧ ¬ (d.toJson.at? ["paths", "/b", []]).isSome := by
  obtain ⟨hw, hb⟩ := Builder.build_emptyKey paddedTable
  refine ⟨⟨_, rfl, hw "/v1" _ rfl⟩, ?_⟩
  have h : ∃ d b' s', (({} : Builder).build paddedTable).outcome ⟨⟨.dir [], [], [], []⟩, []⟩ =
      (.ok (d, b'), s') := ⟨_, _, _, rfl⟩
  obtain ⟨d, b', s', h⟩ := h
  refine ⟨d, b', s', h, (hb _ _ _ _ _ h _).2 ?_, mt (hb _ _ _ _ _ h _).1 ?_⟩
  · exact ⟨_, .head _, by decide, "\t", by decide, by decide, by decide⟩
  · rintro ⟨l, hl, hp, m, hm, hne, -⟩
    rcases List.mem_cons.1 hl with rfl | hl
    · exact absurd hp (by decide)
    · obtain rfl := List.mem_singleton.1 hl
      exact hne (List.mem_singleton.1 hm)

/-- A method of white space is not dropped, so an entry has an empty method, under which a document
has an operation. -/
theorem Builder.build_blankMethod :
    (Route.walkAll [] [.route (some "/a") [" "] []]).map (·.map (·.methods)) = .ok [[[]]] ∧
    ∃ d b' s', (({} : Builder).build [.route (some "/a") [" "] []]).outcome
        ⟨⟨.dir [], [], [], []⟩, []⟩ = (.ok (d, b'), s') ∧
      d.paths.map (fun p => (p.1, p.2.map (·.1))) = [(("/a" : Text), [[]])] := by
  refine ⟨?_, _, _, _, rfl, ?_⟩
  · decide +kernel
  · decide +kernel

end RouteAtlas
