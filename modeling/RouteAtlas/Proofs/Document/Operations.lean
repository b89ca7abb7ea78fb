import RouteAtlas.Proofs.Document.Paths
import RouteAtlas.Proofs.Entity.Catalog

/-!
# What an operation says of its handler

The request has the request fields of the handler under the wrapper; the response has the inferred
fields, else those of the entity that the path names, and never the wrapper.
-/

namespace RouteAtlas

/-- Whether a name is the wrapper, case ignored. -/
def Grammar.isWrapper (g : Grammar) (name : Text) : Bool := name.lower == g.wrapper.lower

def Grammar.unwrapped (g : Grammar) (names : List Text) : List Text :=
  names.filter fun n => !g.isWrapper n

def Json.propertyNames (schema : Json) : List Text := ((schema.at? ["properties"]).map keys).getD []

namespace Text

theorem distinct_of_nodup {ts : List Text} (h : ts.Nodup) : distinct ts = ts := by
  induction ts using List.reverseRecOn with
  | nil => rfl
  | append_singleton ts t ih =>
    obtain ⟨hts, -, hd⟩ := List.nodup_append.1 h
    have ht : t ∉ ts := fun hm => hd t hm t (by simp) rfl
    rw [distinct_append_singleton, ih hts, if_neg ht]

end Text

namespace Grammar

variable {g : Grammar} {names : List Text}

theorem unwrapped_sublist : (g.unwrapped names).Sublist names := List.filter_sublist

theorem not_isWrapper_of_mem_unwrapped {n : Text} (h : n ∈ g.unwrapped names) :
    ¬ g.isWrapper n := by
  simpa using (List.mem_filter.1 h).2

theorem unwrapped_eq_nil_iff : g.unwrapped names = [] ↔ ∀ n ∈ names, g.isWrapper n := by
  simp [unwrapped, List.filter_eq_nil_iff]

theorem unwrapped_of_forall (h : ∀ n ∈ names, ¬ g.isWrapper n) : g.unwrapped names = names := by
  simpa [unwrapped, List.filter_eq_self] using h

end Grammar

namespace Source

variable {g : Grammar} {source : Text}

theorem nodup_requestFields : (requestFields g source).Nodup := Text.nodup_distinct _

theorem nodup_responseFields : (responseFields g source).Nodup := by
  unfold responseFields
  split
  · exact Text.nodup_distinct _
  · exact List.nodup_nil

theorem not_isWrapper_of_mem_requestFields {n : Text} (h : n ∈ requestFields g source) :
    ¬ g.isWrapper n := by
  obtain ⟨-, hn⟩ := List.mem_filter.1 (Text.mem_distinct.1 h)
  simp only [Bool.and_eq_true, bne_iff_ne] at hn
  simpa [Grammar.isWrapper] using hn.2

end Source

namespace DocumentSettings

variable {s : DocumentSettings} {names : List Text}

def exampleOf (s : DocumentSettings) (name : Text) : Text × Example :=
  (name, Example.ofName s.exampleTimestamp name)

theorem examples_of_nodup (h : names.Nodup) :
    s.examples names = (s.grammar.unwrapped names).map s.exampleOf := by
  have hf : (s.grammar.unwrapped names).Nodup := h.sublist Grammar.unwrapped_sublist
  unfold examples Example.ofFields
  rw [← Text.distinct_of_nodup hf]
  rfl

end DocumentSettings

namespace ResponseSchema

variable {s : DocumentSettings} {catalog : List Entity} {path : Text} {inferred : List Text}

/-- The schema of a response whose inferred fields are given without the wrapper. -/
theorem ofRoute_of_nodup (h : inferred.Nodup) :
    ofRoute s catalog path inferred =
      if s.grammar.unwrapped inferred = [] then
        match Entity.matching path catalog with
        | some e => .entity e
        | none => .unknown
      else .inferred (s.grammar.unwrapped inferred) := by
  unfold ofRoute
  rw [DocumentSettings.examples_of_nodup h]
  cases hf : s.grammar.unwrapped inferred with
  | nil => rfl
  | cons n ns => simp [DocumentSettings.exampleOf, Function.comp_def]

theorem nodup_properties_ofRoute (h : inferred.Nodup)
    (hc : ∀ e ∈ catalog, (e.fields.map (·.1)).Nodup) :
    (ofRoute s catalog path inferred).properties.Nodup := by
  rw [ofRoute_of_nodup h]
  split
  · split
    · rename_i e he
      exact hc e (List.mem_of_find?_eq_some he)
    · exact List.nodup_nil
  · exact h.sublist Grammar.unwrapped_sublist

theorem propertyNames_toJson (r : ResponseSchema) : r.toJson.propertyNames = r.properties := by
  cases r with
  | inferred fields =>
    change ((stringProperties fields).keys) = fields
    simp [stringProperties, Function.comp_def]
  | entity e =>
    change (Json.obj (e.fields.map fun f => (f.1, (DataType.ofTag f.2).toJson))).keys = _
    simp [properties, Function.comp_def]
  | unknown => rfl

end ResponseSchema

theorem Example.names_toJson (e : Example) : e.toJson.names = [] := by
  cases e <;> simp [toJson, Json.names]

theorem Example.names_objectJson (fields : List (Text × Example)) :
    (objectJson fields).names = fields.map (·.1) := by
  rw [objectJson, Json.names_obj, Json.fieldNames_of_flat]
  · simp [Function.comp_def]
  · intro f hf
    obtain ⟨g, -, rfl⟩ := List.mem_map.1 hf
    exact names_toJson g.2

/-- A request body with the fields of a handler under the wrapper, both in its schema and in its
example. -/
structure IsRequest (g : Grammar) (fields : List Text) (body : Json) : Prop where
  schema : ∃ inner,
    (body.at? ["content", "application/json", "schema", "properties"]).map Json.fields =
      some [(g.wrapper, inner)] ∧
    inner.propertyNames = fields
  sample : ∃ inner,
    (body.at? ["content", "application/json", "example"]).map Json.fields =
      some [(g.wrapper, inner)] ∧
    inner.keys = fields ∧ inner.names = fields
  not_isWrapper : ∀ n ∈ fields, ¬ g.isWrapper n

/-- A response schema and its example for inferred fields; only where these are the wrapper at most
the entity that the path names takes their place. -/
structure IsResponse (s : DocumentSettings) (catalog : List Entity) (path : Text)
    (fields : List Text) (schema sample : Json) : Prop where
  examples : sample.fields = (s.grammar.unwrapped schema.propertyNames).map fun n =>
    (n, (Example.ofName s.exampleTimestamp n).toJson)
  not_isWrapper : ∀ n ∈ sample.names, ¬ s.grammar.isWrapper n
  inferred : (∃ n ∈ fields, ¬ s.grammar.isWrapper n) →
    schema.bare = .obj [("type", .str "object"),
      ("properties", .obj ((s.grammar.unwrapped fields).map fun n =>
        (n, .obj [("type", .str "string")])))] ∧
    ∀ n ∈ schema.propertyNames, ¬ s.grammar.isWrapper n
  fallback : (∀ n ∈ fields, s.grammar.isWrapper n) →
    schema.bare = match Entity.matching path catalog with
      | some e => e.toJson
      | none => .obj [("type", .str "object")]

namespace Operation

/-- What an operation says of the entry that it comes from and of what is known of its handler. -/
structure Describes (s : DocumentSettings) (catalog : List Entity) (e : Route.Entry)
    (a : Analysis) (operation : Json) : Prop where
  hasRequest : (operation.at? ["requestBody"]).isSome ↔ a.request ≠ []
  request : ∀ body, operation.at? ["requestBody"] = some body →
    IsRequest s.grammar a.request body
  response : ∃ schema sample,
    operation.at? ["responses", "200", "content", "application/json", "schema"] = some schema ∧
    operation.at? ["responses", "200", "content", "application/json", "example"] = some sample ∧
    IsResponse s catalog e.path a.response schema sample

variable {s : DocumentSettings} {catalog : List Entity} {path : Text} {o : Operation}

theorem at?_requestBody (wrapper : Text) : (o.toJson wrapper).at? ["requestBody"] =
    if o.request = [] then none else some (o.requestJson wrapper) := by
  unfold toJson
  cases ho : o.request with
  | nil => cases hv : o.validators <;> rfl
  | cons f fs => rfl

theorem at?_responses (wrapper : Text) (ks : List Text) :
    (o.toJson wrapper).at? ("responses" :: ks) = o.responseJson.at? ks := by
  unfold toJson
  cases ho : o.request <;> rfl

theorem hasRequest_iff {fields : List Text} (ho : o.request = fields.map s.exampleOf)
    (wrapper : Text) : ((o.toJson wrapper).at? ["requestBody"]).isSome ↔ fields ≠ [] := by
  rw [at?_requestBody, ho]
  cases fields <;> simp

theorem isRequest {fields : List Text} (ho : o.request = fields.map s.exampleOf)
    (hn : ∀ n ∈ fields, ¬ s.grammar.isWrapper n) :
    IsRequest s.grammar fields (o.requestJson s.grammar.wrapper) := by
  have hk : o.request.map (·.1) = fields := by
    simp [ho, DocumentSettings.exampleOf, Function.comp_def]
  refine ⟨⟨_, rfl, ?_⟩, ⟨_, rfl, ?_, ?_⟩, hn⟩
  · change (stringProperties (o.request.map (·.1))).keys = fields
    simp [stringProperties, Function.comp_def, hk]
  · simpa [Example.objectJson, Function.comp_def] using hk
  · rw [Json.names_shared, Example.names_objectJson, hk]

theorem isResponse {fields : List Text} (hr : o.response = .ofRoute s catalog path fields)
    (hx : o.responseExample = s.examples o.response.properties) (hf : fields.Nodup)
    (hc : ∀ e ∈ catalog, (e.fields.map (·.1)).Nodup) :
    IsResponse s catalog path fields (.shared o.schemaMark o.response.toJson)
      (.shared o.exampleMark (Example.objectJson o.responseExample)) := by
  have hj : (Json.shared o.schemaMark o.response.toJson).propertyNames = o.response.properties :=
    ResponseSchema.propertyNames_toJson o.response
  have hp : o.responseExample = (s.grammar.unwrapped o.response.properties).map s.exampleOf := by
    rw [hx, DocumentSettings.examples_of_nodup]
    rw [hr]
    exact ResponseSchema.nodup_properties_ofRoute hf hc
  rw [ResponseSchema.ofRoute_of_nodup hf] at hr
  constructor
  case examples =>
    rw [hj, Json.fields_shared, Example.objectJson, Json.fields_obj, hp, List.map_map]
    rfl
  case not_isWrapper =>
    rw [Json.names_shared, Example.names_objectJson, hp]
    intro n hn
    have hm : n ∈ s.grammar.unwrapped o.response.properties := by
      simpa [DocumentSettings.exampleOf, Function.comp_def] using hn
    exact Grammar.not_isWrapper_of_mem_unwrapped hm
  case inferred =>
    rintro ⟨n, hn, hw⟩
    have hu : s.grammar.unwrapped fields ≠ [] := fun h =>
      hw (Grammar.unwrapped_eq_nil_iff.1 h n hn)
    rw [if_neg hu] at hr
    rw [hj, hr]
    exact ⟨rfl, fun n hn => Grammar.not_isWrapper_of_mem_unwrapped hn⟩
  case fallback =>
    intro h
    rw [if_pos (Grammar.unwrapped_eq_nil_iff.2 h)] at hr
    rw [hr]
    cases Entity.matching path catalog <;> rfl

end Operation

theorem Route.Entry.describes_of_operations {s : DocumentSettings} {owners : ControllerMap}
    {catalog : List Entity} {route : Nat} {e : Route.Entry} {item : PathItem} {key : Text}
    {o : Operation} (hc : ∀ e ∈ catalog, (e.fields.map (·.1)).Nodup)
    (h : e.operations s owners catalog route = .ok item) (ho : item.lookup key = some o) :
    ∃ a, e.handler.analyze s.grammar e.handlers = .ok a ∧
      Operation.Describes s catalog e a (o.toJson s.grammar.wrapper) := by
  obtain ⟨a, ha, h⟩ := bind_eq_ok.1 h
  refine ⟨a, ha, ?_⟩
  obtain ⟨source, -, ha⟩ := bind_eq_ok.1 ha
  obtain ⟨sources, -, ha⟩ := bind_eq_ok.1 ha
  obtain rfl := Except.ok.inj ha
  obtain rfl := Except.ok.inj h
  obtain ⟨method, -, hm⟩ := List.mem_map.1 (Pairs.mem_of_lookup_ofList ho)
  obtain ⟨-, rfl⟩ := Prod.mk.inj hm
  have hw : ∀ n ∈ Source.requestFields s.grammar source, ¬ s.grammar.isWrapper n :=
    fun n hn => Source.not_isWrapper_of_mem_requestFields hn
  have hr : s.examples (Source.requestFields s.grammar source) =
      (Source.requestFields s.grammar source).map s.exampleOf := by
    rw [DocumentSettings.examples_of_nodup Source.nodup_requestFields,
      Grammar.unwrapped_of_forall hw]
  constructor
  case hasRequest => exact Operation.hasRequest_iff hr _
  case request =>
    intro body hb
    rw [Operation.at?_requestBody] at hb
    split at hb
    · cases hb
    · obtain rfl := Option.some.inj hb
      exact Operation.isRequest hr hw
  case response =>
    simp only [Operation.at?_responses]
    exact ⟨_, _, rfl, rfl, Operation.isResponse rfl rfl Source.nodup_responseFields hc⟩

theorem Route.Entry.exists_last {es : List Route.Entry} {path key : Text}
    (h : ∃ e ∈ es, e.Registers path key) : ∃ before e after, es = before ++ e :: after ∧
      e.Registers path key ∧ ∀ d ∈ after, ¬ d.Registers path key := by
  induction es with
  | nil => simp at h
  | cons e es ih =>
    by_cases hes : ∃ d ∈ es, d.Registers path key
    · obtain ⟨before, d, after, rfl, hd⟩ := ih hes
      exact ⟨e :: before, d, after, rfl, hd⟩
    · have hn : ∀ d ∈ es, ¬ d.Registers path key := fun d hd hr => hes ⟨d, hd, hr⟩
      obtain ⟨d, hd, hr⟩ := h
      rcases List.mem_cons.1 hd with rfl | hd
      · exact ⟨[], d, es, rfl, hr, hn⟩
      · exact absurd hr (hn d hd)

/-- A successful build reads a catalog and the entries of its table, and each operation of its
document is that of the last entry that registers it: it says what is known of the handler of that
entry. -/
theorem Builder.build_describes {b b' : Builder} {t : Route.Table} {s s' : Session} {d : Document}
    (h : (b.build t).outcome s = (.ok (d, b'), s')) :
    ∃ catalog es, ((Catalog.read b.catalog : Action BuildError _).outcome s).1 = .ok catalog ∧
      t.entries = .ok es ∧
      ∀ path key operation, d.toJson.at? ["paths", path, key] = some operation →
        ∃ before e after a, es = before ++ e :: after ∧ e.Registers path key ∧
          (∀ d ∈ after, ¬ d.Registers path key) ∧
          e.handler.analyze b.settings.grammar e.handlers = .ok a ∧
          Operation.Describes b.settings catalog e a operation := by
  obtain ⟨catalog, es, hc, he, hd⟩ := exists_of_build h
  refine ⟨catalog, es, hc, he, ?_⟩
  intro path key operation ho
  obtain ⟨rs, hr, hp⟩ := Document.ofEntries_eq_ok hd
  have hf : d.paths.Reflect b.settings b.owners catalog es := hp ▸ hr.reflect
  rw [Document.at?_paths, Document.settings_of_ofEntries hd] at ho
  obtain ⟨o, hs, rfl⟩ := Option.map_eq_some_iff.1 ho
  obtain ⟨before, e, after, hes, hr, ha⟩ := Route.Entry.exists_last
    ((hf.isSome_iff path key).1 (Option.isSome_iff_exists.2 ⟨o, hs⟩))
  obtain ⟨item, hi, hl⟩ := hf.last before e after path key hes hr ha
  obtain ⟨a, hk, hd⟩ := Route.Entry.describes_of_operations (Catalog.nodup_read hc) hi
    (hl.symm.trans hs)
  exact ⟨before, e, after, a, hes, hr, ha, hk, hd⟩

def userEntity : Entity := ⟨"User", [("id", "INTEGER"), ("reqdata", "JSON")]⟩

def userCatalog : Catalog :=
  .memory (Loaded.ofJson (.obj [("User", .obj [("id", .str "INTEGER"), ("reqdata", .str "JSON")])]))

/-- A handler that sends the wrapper alone, in capitals, under the path of the entity. -/
def wrapperRoute : Route.Table := [.route (some "/users") ["post"] [.declared (some "save")
  (some ("const \x7b reqData \x7d = req.body; const \x7b id \x7d = reqData; " ++
    "res.json(\x7b REQDATA: id \x7d)"))]]

theorem Builder.build_describes_wrapperRoute : ∃ d b' s' e a operation,
    (({ catalog := some userCatalog } : Builder).build wrapperRoute).outcome
      ⟨⟨.dir [], [], [], []⟩, []⟩ = (.ok (d, b'), s') ∧
    d.toJson.at? ["paths", "/users", "post"] = some operation ∧
    e.handler.analyze {} e.handlers = .ok a ∧
    Operation.Describes {} [userEntity] e a operation := by
  have h : ∃ d b' s', (({ catalog := some userCatalog } : Builder).build wrapperRoute).outcome
      ⟨⟨.dir [], [], [], []⟩, []⟩ = (.ok (d, b'), s') ∧
      (d.toJson.at? ["paths", "/users", "post"]).isSome := ⟨_, _, _, rfl, by decide +kernel⟩
  obtain ⟨d, b', s', h, ho⟩ := h
  obtain ⟨operation, ho⟩ := Option.isSome_iff_exists.1 ho
  obtain ⟨catalog, es, hc, -, hd⟩ := Builder.build_describes h
  obtain rfl : [userEntity] = catalog := Except.ok.inj hc
  obtain ⟨-, e, -, a, -, -, -, ha, hd⟩ := hd _ _ _ ho
  exact ⟨d, b', s', e, a, operation, h, ho, ha, hd⟩

end RouteAtlas
