import RouteAtlas.Proofs.Route.Path
import RouteAtlas.Proofs.Text.Order
import RouteAtlas.Route.Table

/-!
# Routes of a table

A walk gives one entry for each route of a table, in order. Its path is read off the texts that
stand around the route, all at once.
-/

namespace RouteAtlas.Route

/-- A route and the texts on the way to it: what its mounts are under, from the outside in, and its
own path. -/
structure Leaf where
  parts : List Text
  methods : List Text
  handlers : List Handler

/-- The segments of texts on the way to a route. Only the first text is trimmed at both ends. -/
def fullSegments : List Text → List Text
  | [] => []
  | p :: ps => segments p.trim ++ ps.flatMap fun q => segments q.trimRight

def fullPath (parts : List Text) : Text := absolute (fullSegments parts)

mutual

/-- The routes of a node, in order; `parts` stand around it. -/
def Node.leaves (parts : List Text) : Node → List Leaf
  | .route path methods handlers => [⟨parts ++ [path.getD []], methods, handlers⟩]
  | .mount inner children => leavesAll (parts ++ [inner.getD []]) children
  | .foreign _ => []

def leavesAll (parts : List Text) : List Node → List Leaf
  | [] => []
  | n :: ns => n.leaves parts ++ leavesAll parts ns

end

mutual

def Node.foreigns : Node → List Text
  | .route _ _ _ => []
  | .mount _ children => foreignsAll children
  | .foreign shown => [shown]

def foreignsAll : List Node → List Text
  | [] => []
  | n :: ns => n.foreigns ++ foreignsAll ns

end

namespace Leaf

def entry (l : Leaf) : Entry := ⟨fullPath l.parts, methodSet l.methods, l.handlers⟩

end Leaf

theorem areSegments_fullSegments (parts : List Text) : AreSegments (fullSegments parts) := by
  cases parts with
  | nil => simp [fullSegments, AreSegments]
  | cons p ps =>
    refine (areSegments_segments _).append fun s hs => ?_
    obtain ⟨q, -, hq⟩ := List.mem_flatMap.1 hs
    exact areSegments_segments _ s hq

theorem isNormal_fullPath (parts : List Text) : IsNormal (fullPath parts) :=
  isNormal_absolute (areSegments_fullSegments parts)

/-- Where a walk stands behind the texts on its way. -/
def baseOf (parts : List Text) : Text := if parts.isEmpty then [] else fullPath parts

theorem under_baseOf (parts : List Text) (t : Text) :
    under (baseOf parts) t = fullPath (parts ++ [t]) := by
  cases parts with
  | nil => simp [baseOf, fullPath, fullSegments, under_nil]
  | cons p ps =>
    have h := under_absolute (areSegments_fullSegments (p :: ps)) t
    simpa [baseOf, fullPath, fullSegments, List.flatMap_append, List.append_assoc] using h

theorem leavesAll_append (parts : List Text) (ns ms : List Node) :
    leavesAll parts (ns ++ ms) = leavesAll parts ns ++ leavesAll parts ms := by
  induction ns with
  | nil => rfl
  | cons n ns ih => simp [leavesAll, ih]

theorem foreignsAll_append (ns ms : List Node) :
    foreignsAll (ns ++ ms) = foreignsAll ns ++ foreignsAll ms := by
  induction ns with
  | nil => rfl
  | cons n ns ih => simp [foreignsAll, ih]

/-- What a walk gives that meets these foreign nodes and, without one, has these entries. -/
def stopAt (foreigns : List Text) (es : List Entry) : Except WalkError (List Entry) :=
  match foreigns with
  | [] => .ok es
  | shown :: _ => .error (.foreignNode shown)

/-- Two walks one after the other stop at the first foreign node of both. -/
theorem stopAt_append (fs gs : List Text) (es ds : List Entry) :
    stopAt (fs ++ gs) (es ++ ds) = do
      let first ← stopAt fs es
      let rest ← stopAt gs ds
      return first ++ rest := by
  cases fs with
  | cons f fs => rfl
  | nil => cases gs <;> rfl

mutual

theorem Node.walk_eq (parts : List Text) (n : Node) :
    n.walk (baseOf parts) = stopAt n.foreigns ((n.leaves parts).map Leaf.entry) := by
  cases n with
  | route path methods handlers =>
    simp [Node.walk, Node.foreigns, Node.leaves, stopAt, Leaf.entry, under_baseOf]
  | mount inner children =>
    have hb : under (baseOf parts) (inner.getD []) = baseOf (parts ++ [inner.getD []]) := by
      rw [under_baseOf]
      simp [baseOf]
    rw [Node.walk, hb]
    exact walkAll_eq (parts ++ [inner.getD []]) children
  | foreign shown => rfl

theorem walkAll_eq (parts : List Text) (ns : List Node) :
    walkAll (baseOf parts) ns = stopAt (foreignsAll ns) ((leavesAll parts ns).map Leaf.entry) := by
  cases ns with
  | nil => rfl
  | cons n ns =>
    rw [walkAll, foreignsAll, leavesAll, List.map_append, stopAt_append, Node.walk_eq parts n,
      walkAll_eq parts ns]

end

namespace Table

theorem entries_eq_stopAt (t : Table) :
    t.entries = stopAt (foreignsAll t) ((leavesAll [] t).map Leaf.entry) :=
  walkAll_eq [] t

theorem entries_eq_ok {t : Table} {es : List Entry} :
    t.entries = .ok es ↔ foreignsAll t = [] ∧ es = (leavesAll [] t).map Leaf.entry := by
  rw [entries_eq_stopAt]
  cases foreignsAll t with
  | nil => simp [stopAt, eq_comm]
  | cons f fs => simp [stopAt]

/-- The entries of a table are its routes in order, under their full paths; the first foreign node,
if there is one, is reported. -/
theorem entries_eq_leaves (t : Table) :
    (t.entries.mapError WalkError.message = match foreignsAll t with
      | [] => .ok ((leavesAll [] t).map fun l =>
          ⟨fullPath l.parts, methodSet l.methods, l.handlers⟩)
      | shown :: _ => .error ("Unsupported route table node: " ++ shown)) ∧
    ∀ parts, IsNormal (fullPath parts) := by
  refine ⟨?_, isNormal_fullPath⟩
  rw [entries_eq_stopAt]
  cases foreignsAll t <;> rfl

theorem entries_append {t u : Table} {es ds : List Entry} (ht : t.entries = .ok es)
    (hu : u.entries = .ok ds) : entries (t ++ u) = .ok (es ++ ds) := by
  obtain ⟨hf, rfl⟩ := entries_eq_ok.1 ht
  obtain ⟨hg, rfl⟩ := entries_eq_ok.1 hu
  rw [entries_eq_ok, foreignsAll_append, leavesAll_append, List.map_append, hf, hg]
  exact ⟨rfl, rfl⟩

theorem pairwise_methods {t : Table} {es : List Entry} (h : t.entries = .ok es) :
    ∀ e ∈ es, e.methods.Pairwise fun m n => Text.le m n ∧ m ≠ n := by
  obtain ⟨-, rfl⟩ := entries_eq_ok.1 h
  intro e he
  obtain ⟨l, -, rfl⟩ := List.mem_map.1 he
  exact (Text.pairwise_sorted _).and (Text.nodup_sorted (Text.nodup_distinct _))

end Table

end RouteAtlas.Route
