import RouteAtlas.Text.Case
import RouteAtlas.Value.SetOrder
import RouteAtlas.Yaml.Base64
import RouteAtlas.Yaml.Merge
import RouteAtlas.Yaml.Number

/-!
# Values of YAML text

Nodes become values by their tags. A collection has its place before its parts have values, so that
it may hold itself; its parts are made when those of the collections met before it have been made.
A node that stands in several places has one value.
-/

namespace RouteAtlas.Yaml

def truth (t : Text) : Except ScalarError Bool :=
  match Tag.truths.lookup t.lower with
  | some b => .ok b
  | none => .error (.truth t.lower)

def timestamp (t : Text) : Except ScalarError Value :=
  match ((Tag.dropFinalBreak t).chars?).bind Timestamp.ofChars? with
  | some s => s.value
  | none => .error .noTimestamp

/-- The value of a scalar; marks and unknown tags have none. -/
def scalarValue (tag : Tag) (t : Text) : Except LoadError Value :=
  match tag with
  | .null => .ok .null
  | .bool => ((truth t).map Value.bool).mapError .scalar
  | .int => ((Number.int t).map Value.int).mapError .scalar
  | .float => ((Number.float t).map Value.float).mapError .scalar
  | .timestamp => (timestamp t).mapError .scalar
  | .binary =>
    match Base64.decode? t with
    | some bs => .ok (.bytes bs)
    | none => .error .malformed
  | .str => .ok (.str t)
  | _ => .error .malformed

/-- The collection without parts that a tag asks for; other tags ask for scalars. -/
def Tag.collection? : Tag → Option Collection
  | .seq | .omap | .pairs => some (.list [])
  | .map => some (.map [])
  | .set => some (.set [])
  | _ => none

namespace Nodes

/-- The text of a node that a scalar is wanted for: a mapping stands for the value under `=`. -/
def text (ns : Nodes) : Nat → Nat → Except LoadError Text
  | 0, _ => .error .tooDeep
  | fuel + 1, place =>
    match (ns[place]?).map Node.content with
    | some (.scalar t) => .ok t
    | some (.mapping es) =>
      match es.find? fun e => ns.tagAt e.1 = .value with
      | some e => text ns fuel e.2
      | none => .error .malformed
    | _ => .error .malformed

/-- How many mappings in a row may stand for a scalar. -/
def maxDepth : Nat := 970

def scalar (ns : Nodes) (place : Nat) : Except LoadError Value := do
  let t ← ns.text maxDepth place
  if ns.tagAt place = .timestamp ∧ (ns.entries? place).isSome then
    .error (.scalar .timestampEntries)
  else scalarValue (ns.tagAt place) t

end Nodes

/-- A key of a mapping in the making, with the scalar that it comes from: undefined numbers are the
same key only if they come from one. -/
structure Key where
  value : Value
  origin : Nat

namespace Key

def same (j k : Key) : Bool :=
  j.value.sameKey k.value ||
    (j.value = .float .undefined && k.value = .float .undefined && j.origin = k.origin)

/-- An entry under a key; a key that is the same keeps its first form and place. -/
def put (k : Key) (v : Value) : List (Key × Value) → List (Key × Value)
  | [] => [(k, v)]
  | (j, w) :: r => if j.same k then (j, v) :: r else (j, w) :: put k v r

end Key

/-- A document in the making: its nodes, the values that nodes have already, the collections, and
those of them that still have no parts, the latest first. -/
structure Making where
  nodes : Nodes
  values : Array (Option Value)
  collections : Collections := #[]
  due : List (Nat × Nat) := []

abbrev Maker (α : Type) := StateT Making (Except LoadError) α

namespace Maker

def value (place : Nat) : Maker Value := do
  let s ← get
  match s.values[place]? with
  | some (some v) => return v
  | _ =>
    match (s.nodes.tagAt place).collection? with
    | some c =>
      let v := Value.collection s.collections.size
      set { s with
        values := s.values.setIfInBounds place (some v)
        collections := s.collections.push c
        due := (place, s.collections.size) :: s.due }
      return v
    | none =>
      match s.nodes.scalar place with
      | .ok v =>
        set { s with values := s.values.setIfInBounds place (some v) }
        return v
      | .error e => throw e

def content (place : Nat) : Maker Content := do
  match (← get).nodes[place]? with
  | some n => return n.content
  | none => throw .malformed

/-- The entries of a mapping, merged ones included; collections are no keys. -/
def entries (bound place : Nat) : Maker (List (Value × Value)) := do
  match Nodes.resolve (← get).nodes [] place bound with
  | .error e => throw e
  | .ok ns => do
    modify fun s => { s with nodes := ns }
    let es ← ((ns.entries? place).getD []).foldlM (fun (es : List (Key × Value)) e => do
      let k ← value e.1
      if !k.isKey then throw .malformed
      let v ← value e.2
      let origin := if k = .float .undefined && isPoint ns e.1 then 0 else e.1 + 1
      return Key.put ⟨k, origin⟩ v es) []
    return es.map fun e => (e.1.value, e.2)
where
  /-- Whether a scalar is written as the undefined number that all such scalars share. -/
  isPoint (ns : Nodes) (place : Nat) : Bool :=
    match ns.text Nodes.maxDepth place with
    | .ok t => Number.isUndefinedPoint t
    | .error _ => false

def pair (place : Nat) : Maker Value := do
  match ← content place with
  | .mapping [(k, v)] => do
    let k ← value k
    let v ← value v
    let s ← get
    set { s with collections := s.collections.push (.pair k v) }
    return .collection s.collections.size
  | _ => throw .malformed

def parts (bound place : Nat) : Maker Collection := do
  match (← get).nodes.tagAt place, ← content place with
  | .seq, .sequence items => return .list (← items.mapM value)
  | .omap, .sequence items => return .list (← items.mapM pair)
  | .pairs, .sequence items => return .list (← items.mapM pair)
  | .map, .mapping _ => return .map (← entries bound place)
  | .set, .mapping _ => return .set (SetOrder.listed ((← entries bound place).map (·.1)))
  | _, _ => throw .malformed

/-- Gives parts to all collections that have none, in the order in which they were met. There are
no more rounds than nodes. -/
def complete (bound : Nat) : Nat → Maker Unit
  | 0 => throw .tooDeep
  | rounds + 1 => do
    match (← get).due.reverse with
    | [] => return ()
    | due => do
      modify fun s => { s with due := [] }
      due.forM fun (place, spot) => do
        let c ← parts bound place
        modify fun s => { s with collections := s.collections.setIfInBounds spot c }
      complete bound rounds

end Maker

def Graph.load (g : Graph) : Except LoadError Loaded := do
  let bound := g.nodes.entryCount + 1
  let making : Maker Value := do
    let v ← Maker.value g.root
    Maker.complete bound (g.nodes.size + 1)
    return v
  let (root, s) ← making.run ⟨g.nodes, Array.replicate g.nodes.size none, #[], []⟩
  return ⟨s.collections, root⟩

def load (t : Text) : Except LoadError Loaded := do (← Graph.ofText t).load

end RouteAtlas.Yaml
