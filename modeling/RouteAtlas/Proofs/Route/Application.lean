import Mathlib.Data.List.Forall2
import RouteAtlas.Proofs.Document.Methods
import RouteAtlas.Route.Application

/-!
# Endpoints of an application

The table of an application has one route for each endpoint that is reached from it, under the path
that is joined from the paths around it.
-/

namespace RouteAtlas.Route

/-- An endpoint with the paths of the objects around it, from the outside in. -/
structure Endpoint where
  above : List Text
  path : Option (Option Text)
  methods : List Text
  dependencies : List Handler
  handler : Handler

mutual

/-- The endpoints that are reached through an object, in order. What stands below an endpoint is not
reached, and a path that is missing or null is empty. -/
def Resource.endpoints (above : List Text) : Resource → List Endpoint
  | .mk path endpoint methods dependencies routes =>
    if isPresent endpoint && !methods.isEmpty then
      [⟨above, path, methods, dependencies, endpoint⟩]
    else
      match routes with
      | none => []
      | some rs => endpointsAll (above ++ [path.join.getD []]) rs

def endpointsAll (above : List Text) : List Resource → List Endpoint
  | [] => []
  | r :: rs => r.endpoints above ++ endpointsAll above rs

end

def joined (parts : List Text) : Text := parts.foldl under []

theorem joined_eq_baseOf (parts : List Text) : joined parts = baseOf parts := by
  induction parts using List.reverseRecOn with
  | nil => rfl
  | append_singleton parts p ih =>
    have hb : baseOf (parts ++ [p]) = fullPath (parts ++ [p]) := by simp [baseOf]
    rw [joined, List.foldl_concat, ← joined, ih, under_baseOf, hb]

namespace Endpoint

def parts (e : Endpoint) : List Text := e.above ++ [e.path.join.getD []]

def chain (e : Endpoint) : List Handler := e.dependencies.filter isPresent ++ [e.handler]

def leaf (e : Endpoint) : Leaf := ⟨e.parts, declaredMethods e.methods, e.chain⟩

/-- What the entry of an endpoint holds. `HEAD` is left out where `GET` is declared too. -/
structure IsEntry (e : Endpoint) (x : Entry) : Prop where
  path : x.path = joined e.parts
  handlers : x.handlers = e.dependencies.filter isPresent ++ [e.handler]
  mem_methods : ∀ m, m ∈ x.methods ↔ ∃ d ∈ e.methods, d ≠ [] ∧
    ¬ (d = "HEAD" ∧ ("GET" : Text) ∈ e.methods) ∧ d.trim.upper = m
  nodup_methods : x.methods.Nodup

end Endpoint

section Methods

variable {ms ns : List Text} {m : Text}

theorem mem_declaredMethods :
    m ∈ declaredMethods ms ↔ m ∈ ms ∧ ¬ (m = "HEAD" ∧ ("GET" : Text) ∈ ms) := by
  rw [declaredMethods, Text.sorted, List.mem_mergeSort, Text.mem_distinct, List.mem_filter]
  simp [imp_iff_not_or]

theorem declaredMethods_congr (h : ∀ m, m ∈ ms ↔ m ∈ ns) :
    declaredMethods ms = declaredMethods ns := by
  have hg : ms.contains "GET" = ns.contains "GET" := by
    rw [Bool.eq_iff_iff, List.contains_iff_mem, List.contains_iff_mem, h]
  refine Text.sorted_distinct_congr fun m => ?_
  rw [List.mem_filter, List.mem_filter, h, hg]

end Methods

theorem Endpoint.isEntry (e : Endpoint) : e.IsEntry e.leaf.entry where
  path := by
    have hb : baseOf e.parts = fullPath e.parts := by simp [baseOf, parts]
    rw [joined_eq_baseOf, hb]
    rfl
  handlers := rfl
  mem_methods m := by
    have hm : m ∈ e.leaf.entry.methods ↔ ∃ d ∈ declaredMethods e.methods, d ≠ [] ∧
        d.trim.upper = m := mem_methodSet
    rw [hm]
    simp only [mem_declaredMethods]
    exact exists_congr fun d => by tauto
  nodup_methods := Text.nodup_sorted (Text.nodup_distinct _)

section Nodes

variable {above : List Text} {path : Option (Option Text)} {endpoint : Handler}
  {methods : List Text} {dependencies : List Handler} {routes : Option (List Resource)}

theorem endpoints_of_endpoint (he : (isPresent endpoint && !methods.isEmpty) = true) :
    (Resource.mk path endpoint methods dependencies routes).endpoints above =
      [⟨above, path, methods, dependencies, endpoint⟩] := by
  rw [Resource.endpoints.eq_def]
  simp only [if_pos he]

theorem endpoints_of_not_endpoint (he : ¬ (isPresent endpoint && !methods.isEmpty) = true) :
    (Resource.mk path endpoint methods dependencies routes).endpoints above =
      endpointsAll (above ++ [path.join.getD []]) (routes.getD []) := by
  rw [Resource.endpoints.eq_def]
  simp only [if_neg he]
  cases routes <;> rfl

theorem node?_of_endpoint (he : (isPresent endpoint && !methods.isEmpty) = true) :
    (Resource.mk path endpoint methods dependencies routes).node? = match path with
      | none => .error .noPath
      | some p =>
        .ok (some (.route p (declaredMethods methods)
          (dependencies.filter isPresent ++ [endpoint]))) := by
  rw [Resource.node?.eq_def]
  cases path <;> exact if_pos he

theorem node?_of_not_endpoint (he : ¬ (isPresent endpoint && !methods.isEmpty) = true) :
    (Resource.mk path endpoint methods dependencies routes).node? =
      if (routes.getD []).isEmpty then .ok none
      else (Resource.nodes (routes.getD [])).map fun ns => some (.mount (path.getD (some [])) ns) := by
  rw [Resource.node?.eq_def]
  simp only [if_neg he]
  cases routes with
  | none => rfl
  | some rs =>
    cases rs with
    | nil => rfl
    | cons r rs => cases h : Resource.nodes (r :: rs) <;> simp [h] <;> rfl

/-- What an object or a list of objects becomes: routes for the endpoints in it, or an error if one
of them has no path. -/
inductive Converts (above : List Text) (found : List Endpoint) :
    Except ApplicationError (List Node) → Prop
  | nodes {ns} (hp : ∀ e ∈ found, e.path.isSome) (hf : foreignsAll ns = [])
      (hl : leavesAll above ns = found.map Endpoint.leaf) : Converts above found (.ok ns)
  | noPath (hp : ∃ e ∈ found, e.path = none) : Converts above found (.error .noPath)

theorem Converts.append {found more : List Endpoint} {x : Except ApplicationError (Option Node)}
    {y : Except ApplicationError (List Node)} (hx : Converts above found (x.map Option.toList))
    (hy : Converts above more y) :
    Converts above (found ++ more) (do
      let first ← x
      let rest ← y
      return first.toList ++ rest) := by
  cases x with
  | error e =>
    cases hx with
    | noPath hp => exact .noPath (hp.imp fun e he => ⟨List.mem_append_left _ he.1, he.2⟩)
  | ok n =>
    cases hx with
    | nodes hp hf hl =>
      cases hy with
      | noPath hq => exact .noPath (hq.imp fun e he => ⟨List.mem_append_right _ he.1, he.2⟩)
      | nodes hq hg hm =>
        refine .nodes (List.forall_mem_append.2 ⟨hp, hq⟩) ?_ ?_
        · rw [foreignsAll_append, hf, hg, List.append_nil]
        · rw [leavesAll_append, hl, hm, List.map_append]

theorem Converts.mount {found : List Endpoint} {x : Except ApplicationError (List Node)}
    (h : Converts (above ++ [path.join.getD []]) found x) :
    Converts above found
      ((x.map fun ns => some (Node.mount (path.getD (some [])) ns)).map Option.toList) := by
  have hp : (path.getD (some [])).getD [] = path.join.getD [] := by
    cases path <;> rfl
  cases h with
  | noPath hn => exact .noPath hn
  | nodes hs hf hl =>
    refine .nodes hs ?_ ?_
    · simpa [foreignsAll, Node.foreigns] using hf
    · simpa [leavesAll, Node.leaves, hp] using hl

mutual

theorem Resource.converts_node? (above : List Text) (r : Resource) :
    Converts above (r.endpoints above) (r.node?.map Option.toList) := by
  obtain ⟨path, endpoint, methods, dependencies, routes⟩ := r
  by_cases he : (isPresent endpoint && !methods.isEmpty) = true
  · rw [endpoints_of_endpoint he, node?_of_endpoint he]
    cases path with
    | none => exact .noPath ⟨_, .head _, rfl⟩
    | some p => exact .nodes (by simp) rfl rfl
  · rw [endpoints_of_not_endpoint he, node?_of_not_endpoint he]
    cases routes with
    | none => exact .nodes (by simp [endpointsAll]) rfl rfl
    | some rs =>
      cases rs with
      | nil => exact .nodes (by simp [endpointsAll]) rfl rfl
      | cons r rs => exact (converts_nodes (above ++ [path.join.getD []]) (r :: rs)).mount

theorem converts_nodes (above : List Text) (rs : List Resource) :
    Converts above (endpointsAll above rs) (Resource.nodes rs) := by
  cases rs with
  | nil => exact .nodes (by simp [endpointsAll]) rfl rfl
  | cons r rs =>
    rw [endpointsAll, Resource.nodes]
    exact (r.converts_node? above).append (converts_nodes above rs)

end

end Nodes

section Alike

mutual

/-- Whether two objects differ at most in how the sets of their methods are listed. -/
inductive Resource.Alike : Resource → Resource → Prop
  | single {path endpoint ms ns dependencies} (hm : ∀ m, m ∈ ms ↔ m ∈ ns) :
      Resource.Alike (.mk path endpoint ms dependencies none)
        (.mk path endpoint ns dependencies none)
  | group {path endpoint ms ns dependencies rs ss} (hm : ∀ m, m ∈ ms ↔ m ∈ ns)
      (hr : AlikeAll rs ss) :
      Resource.Alike (.mk path endpoint ms dependencies (some rs))
        (.mk path endpoint ns dependencies (some ss))

inductive AlikeAll : List Resource → List Resource → Prop
  | nil : AlikeAll [] []
  | cons {r s rs ss} (h : Resource.Alike r s) (hs : AlikeAll rs ss) : AlikeAll (r :: rs) (s :: ss)

end

theorem isEmpty_congr {ms ns : List Text} (h : ∀ m, m ∈ ms ↔ m ∈ ns) :
    ms.isEmpty = ns.isEmpty := by
  rw [Bool.eq_iff_iff, List.isEmpty_iff, List.isEmpty_iff, List.eq_nil_iff_forall_not_mem,
    List.eq_nil_iff_forall_not_mem]
  simp only [h]

theorem AlikeAll.isEmpty_eq {rs ss : List Resource} (h : AlikeAll rs ss) :
    rs.isEmpty = ss.isEmpty := by
  cases h <;> rfl

theorem node?_congr {path : Option (Option Text)} {endpoint : Handler} {ms ns : List Text}
    {dependencies : List Handler} {routes others : Option (List Resource)}
    (hm : ∀ m, m ∈ ms ↔ m ∈ ns) (he : (routes.getD []).isEmpty = (others.getD []).isEmpty)
    (hr : Resource.nodes (routes.getD []) = Resource.nodes (others.getD [])) :
    (Resource.mk path endpoint ms dependencies routes).node? =
      (Resource.mk path endpoint ns dependencies others).node? := by
  have hn := isEmpty_congr hm
  by_cases h : (isPresent endpoint && !ms.isEmpty) = true
  · rw [node?_of_endpoint h, node?_of_endpoint (hn ▸ h), declaredMethods_congr hm]
  · rw [node?_of_not_endpoint h, node?_of_not_endpoint (hn ▸ h), he, hr]

mutual

theorem Resource.Alike.node?_eq {r s : Resource} (h : r.Alike s) : r.node? = s.node? := by
  cases h with
  | single hm => exact node?_congr hm rfl rfl
  | group hm hr => exact node?_congr hm hr.isEmpty_eq hr.nodes_eq

theorem AlikeAll.nodes_eq {rs ss : List Resource} (h : AlikeAll rs ss) :
    Resource.nodes rs = Resource.nodes ss := by
  cases h with
  | nil => rfl
  | cons h hs => rw [Resource.nodes, Resource.nodes, h.node?_eq, hs.nodes_eq]

end

theorem Resource.Alike.table_eq {r s : Resource} (h : r.Alike s) : r.table = s.table := by
  cases h with
  | single => rfl
  | group _ hr => exact hr.nodes_eq

end Alike

/-- The entries of an application are its endpoints in order. It has a table unless one of them has
no path, and the table does not depend on how sets of methods are listed. -/
theorem Resource.table_entries (path : Option (Option Text)) (endpoint : Handler)
    (methods : List Text) (dependencies : List Handler) (routes : List Resource) :
    let app := Resource.mk path endpoint methods dependencies (some routes)
    ((∀ e ∈ endpointsAll [] routes, e.path.isSome) → ∃ t es, app.table = .ok t ∧
      t.entries = .ok es ∧ List.Forall₂ Endpoint.IsEntry (endpointsAll [] routes) es) ∧
    ((∃ e ∈ endpointsAll [] routes, e.path = none) → app.table = .error .noPath) ∧
    ∀ other, app.Alike other → other.table = app.table := by
  intro app
  have hc : Converts [] (endpointsAll [] routes) app.table := converts_nodes [] routes
  refine ⟨fun hp => ?_, fun hp => ?_, fun other h => h.table_eq.symm⟩
  · generalize app.table = x at hc
    cases hc with
    | noPath hn =>
      obtain ⟨e, he, hn⟩ := hn
      simpa [hn] using hp e he
    | @nodes ns _ hf hl =>
      refine ⟨ns, _, rfl, Table.entries_eq_ok.2 ⟨hf, rfl⟩, ?_⟩
      rw [hl, List.map_map, List.forall₂_map_right_iff, List.forall₂_same]
      exact fun e _ => e.isEntry
  · generalize app.table = x at hc
    cases hc with
    | noPath => rfl
    | nodes hs =>
      obtain ⟨e, he, hn⟩ := hp
      simpa [hn] using hs e he

section Mounted

def orderRoutes : List Resource :=
  [.mk none .absent [] [] (some
    [.mk (some (some "/orders")) (.declared (some "list") none) ["HEAD", " get ", "GET", ""]
      [.absent, .declared (some "auth") none]
      (some [.mk (some (some "/hidden")) (.declared (some "hidden") none) ["GET"] [] none])]),
   .mk (some none) .absent [] [] (some []),
   .mk (some (some "v1/")) .absent ["GET"] [] (some
    [.mk (some none) (.declared (some "home") none) ["HEAD"] [] none])]

/-- The table of the orders, their methods in another order, and an endpoint without a path. -/
theorem Resource.table_entries_orders :
    (endpointsAll [] orderRoutes).map (fun e => joined e.parts) = ["/orders", "/v1"] ∧
    (∃ t es, (Resource.mk none .absent [] [] (some orderRoutes)).table = .ok t ∧
      t.entries = .ok es ∧ List.Forall₂ Endpoint.IsEntry (endpointsAll [] orderRoutes) es) ∧
    (Resource.mk none .absent [] [] (some
      [.mk (some (some "/v1")) .absent [] [] (some
        [.mk none (.declared none none) ["GET"] [] none])])).table = .error .noPath ∧
    (Resource.mk none .absent [] [] (some
      [.mk none (.declared none none) ["HEAD", "GET"] [] none])).table =
      (Resource.mk none .absent [] [] (some
        [.mk none (.declared none none) ["GET", "HEAD"] [] none])).table := by
  refine ⟨by decide, (Resource.table_entries none .absent [] [] orderRoutes).1 ?_,
    (Resource.table_entries none .absent [] [] _).2.1 ?_,
    (Resource.table_entries none .absent [] [] _).2.2 _ ?_⟩
  · decide
  · exact ⟨_, .head _, rfl⟩
  · exact .group (by simp) (.cons (.single (by simp [or_comm])) .nil)

end Mounted

end RouteAtlas.Route
