import RouteAtlas.Yaml.Node

/-!
# Merging of mappings

A mapping may merge others under the key `<<`: their entries come before its own. Merging changes
the nodes, so that it is done once for a mapping that stands in several places; a mapping may even
merge itself.
-/

namespace RouteAtlas.Yaml.Nodes

def entries? (ns : Nodes) (place : Nat) : Option (List (Nat × Nat)) :=
  match (ns[place]?).map Node.content with
  | some (.mapping es) => some es
  | _ => none

def tagAt (ns : Nodes) (place : Nat) : Tag := ((ns[place]?).map Node.tag).getD .unknown

def setEntries (ns : Nodes) (place : Nat) (es : List (Nat × Nat)) : Nodes :=
  ns.setIfInBounds place ⟨ns.tagAt place, .mapping es⟩

/-- The key `=` of a mapping becomes a text. -/
def retag (ns : Nodes) (key : Nat) : Nodes :=
  match ns[key]? with
  | some n => if n.tag = .value then ns.setIfInBounds key { n with tag := .str } else ns
  | none => ns

/-- The first merge key with its value, and the entries without it. -/
def takeMerge (ns : Nodes) : List (Nat × Nat) → Option (Nat × List (Nat × Nat))
  | [] => none
  | (k, v) :: es =>
    if ns.tagAt k = .merge then some (v, es)
    else (ns.takeMerge es).map fun p => (p.1, (k, v) :: p.2)

/-- The number of entries of all mappings. Every merge key is an entry and is resolved once, so that
no chain of merge keys is longer. -/
def entryCount (ns : Nodes) : Nat :=
  ns.foldl (fun n m => match m.content with
    | .mapping es => n + es.length
    | _ => n) 0

/-- The nodes with the merge keys of a mapping resolved; `merged` is what those before have brought.
Of several mappings under one key the entries of the last one come first. `fuel` bounds the chains
of merge keys. -/
def resolve (ns : Nodes) (merged : List (Nat × Nat)) (place : Nat) :
    Nat → Except LoadError Nodes
  | 0 => .error .tooDeep
  | fuel + 1 =>
    match ns.entries? place with
    | none => .error .malformed
    | some es =>
      match ns.takeMerge es with
      | none =>
        let ns := (es.map (·.1)).foldl retag ns
        .ok (if merged.isEmpty then ns else ns.setEntries place (merged ++ es))
      | some (value, rest) => do
        let ns := ns.setEntries place rest
        let sources ←
          match (ns[value]?).map Node.content with
          | some (.mapping _) => .ok [value]
          | some (.sequence items) => .ok items
          | _ => .error .malformed
        let (parts, ns) ← sources.foldlM (fun (parts, ns) source => do
          let ns ← resolve ns [] source fuel
          match ns.entries? source with
          | some es => .ok (es ++ parts, ns)
          | none => .error .malformed) ([], ns)
        resolve ns (merged ++ parts) place fuel

end RouteAtlas.Yaml.Nodes
