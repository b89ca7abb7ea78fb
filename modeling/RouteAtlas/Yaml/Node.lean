import RouteAtlas.Yaml.Tag
import RouteAtlas.Yaml.Token.Scan

/-!
# Nodes of YAML documents

Tokens form scalars, sequences and mappings. A node is known by its place among the nodes of its
document; an alias is the place of the node that was anchored under its name, which need not be
complete. A text holds one document.
-/

namespace RouteAtlas.Yaml

inductive Content where
  | scalar (text : Text)
  | sequence (items : List Nat)
  | mapping (entries : List (Nat × Nat))
  deriving DecidableEq

structure Node where
  tag : Tag
  content : Content
  deriving DecidableEq

instance : Inhabited Node := ⟨⟨.null, .scalar []⟩⟩

/-- The nodes of a document, each at its place. -/
abbrev Nodes := Array Node

structure Graph where
  nodes : Nodes
  root : Nat

namespace Node

/-- What is left of the tokens, the handles of tags, the nodes so far, the places of the anchored
ones, and how many collections are open. -/
structure Reading where
  tokens : List Token
  handles : List (Text × Text)
  nodes : Nodes := #[]
  anchors : List (Text × Nat) := []
  depth : Nat := 0

abbrev Reader (α : Type) := StateT Reading (Except LoadError) α

namespace Reader

def malformed {α : Type} : Reader α := throw .malformed

/-- The next token; a failed scan is reported here. -/
def peek : Reader Token := do
  match (← get).tokens with
  | [] => malformed
  | .failure e :: _ => throw e
  | t :: _ => return t

def skip : Reader Unit := modify fun s => { s with tokens := s.tokens.tail }

def expect (t : Token) : Reader Unit := do
  if (← peek) = t then skip else malformed

def anchored (name : Text) : Reader Nat := do
  match (← get).anchors.lookup name with
  | some place => return place
  | none => malformed

/-- A name may be given to one node only. -/
def requireNew (anchor : Option Text) : Reader Unit := do
  if let some name := anchor then
    if ((← get).anchors.lookup name).isSome then malformed

def add (anchor : Option Text) (n : Node) : Reader Nat := do
  let s ← get
  let place := s.nodes.size
  let names := match anchor with
    | some name => (name, place) :: s.anchors
    | none => s.anchors
  set { s with nodes := s.nodes.push n, anchors := names }
  return place

def nothing : Reader Nat := add none ⟨.null, .scalar []⟩

def maxDepth : Nat := 485

/-- A collection that has its place before its parts are read. -/
def collect (anchor : Option Text) (tag : Tag) (parts : Reader Content) : Reader Nat := do
  let place ← add anchor ⟨tag, .sequence []⟩
  if maxDepth ≤ (← get).depth then throw .tooDeep
  modify fun s => { s with depth := s.depth + 1 }
  let content ← parts
  modify fun s => { s with
    depth := s.depth - 1
    nodes := s.nodes.setIfInBounds place ⟨tag, content⟩ }
  return place

def fullTag (handle : Option Text) (suffix : Text) : Reader Text := do
  match handle with
  | none => return suffix
  | some h =>
    match (← get).handles.lookup h with
    | some stem => return stem ++ suffix
    | none => malformed

/-- An anchor and a tag in either order, each perhaps missing. -/
def properties : Reader (Option Text × Option Text) := do
  match ← peek with
  | .anchor name => do
    skip
    match ← peek with
    | .tag h s => do
      skip
      return (some name, some (← fullTag h s))
    | _ => return (some name, none)
  | .tag h s => do
    skip
    match ← peek with
    | .anchor name => do
      skip
      return (some name, some (← fullTag h s))
    | _ => return (none, some (← fullTag h s))
  | _ => return (none, none)

end Reader

open Reader

/-- A scalar without a tag is read by its form if it is plain, and is a text if it is quoted; the
tag `!` asks for its form. -/
def scalarTag (plain : Bool) (tag : Option Text) (t : Text) : Tag :=
  match tag with
  | none => if plain then Tag.ofForm t else .str
  | some g => if g = "!" then Tag.ofForm t else Tag.ofText g

/-- The tag of a collection; without one it is the usual one. -/
def collectionTag (usual : Tag) (tag : Option Text) : Tag :=
  match tag with
  | none => usual
  | some g => if g = "!" then usual else Tag.ofText g

mutual

/-- A node. In block context block collections may come, and where `hanging` a sequence that is not
indented deeper than the mapping around it. -/
def read (block hanging : Bool) : Nat → Reader Nat
  | 0 => malformed
  | fuel + 1 => do
    match ← peek with
    | .alias name => do
      skip
      anchored name
    | _ =>
      let (anchor, tag) ← properties
      let t ← peek
      requireNew anchor
      readContent block hanging anchor tag t fuel

/-- What follows the properties of a node, from the token `t` on. With properties nothing need
follow. -/
def readContent (block hanging : Bool) (anchor tag : Option Text) (t : Token) : Nat → Reader Nat
  | 0 => malformed
  | fuel + 1 =>
    if hanging && t = .blockEntry then
      collect anchor (collectionTag .seq tag) (.sequence <$> hangingItems fuel)
    else
      match t with
      | .scalar plain text => do
        skip
        add anchor ⟨scalarTag plain tag text, .scalar text⟩
      | .flowSequence => do
        skip
        collect anchor (collectionTag .seq tag) (.sequence <$> flowItems true fuel)
      | .flowMapping => do
        skip
        collect anchor (collectionTag .map tag) (.mapping <$> flowEntries true fuel)
      | .blockSequence =>
        if block then do
          skip
          collect anchor (collectionTag .seq tag) (.sequence <$> blockItems fuel)
        else emptyScalar anchor tag
      | .blockMapping =>
        if block then do
          skip
          collect anchor (collectionTag .map tag) (.mapping <$> blockEntries fuel)
        else emptyScalar anchor tag
      | _ => emptyScalar anchor tag

def emptyScalar (anchor tag : Option Text) : Reader Nat :=
  if anchor.isSome || tag.isSome then add anchor ⟨scalarTag true tag [], .scalar []⟩ else malformed

def readUnless (ends : List Token) (block hanging : Bool) : Nat → Reader Nat
  | 0 => malformed
  | fuel + 1 => do
    if ends.contains (← peek) then nothing else read block hanging fuel

def readValue (ends : List Token) (block hanging : Bool) : Nat → Reader Nat
  | 0 => malformed
  | fuel + 1 => do
    if (← peek) = .value then
      skip
      readUnless ends block hanging fuel
    else nothing

def blockItems : Nat → Reader (List Nat)
  | 0 => malformed
  | fuel + 1 => do
    if (← peek) = .blockEntry then
      skip
      let n ← readUnless [.blockEntry, .blockEnd] true false fuel
      return n :: (← blockItems fuel)
    else
      expect .blockEnd
      return []

def hangingItems : Nat → Reader (List Nat)
  | 0 => malformed
  | fuel + 1 => do
    if (← peek) = .blockEntry then
      skip
      let n ← readUnless [.blockEntry, .key, .value, .blockEnd] true false fuel
      return n :: (← hangingItems fuel)
    else return []

def blockEntries : Nat → Reader (List (Nat × Nat))
  | 0 => malformed
  | fuel + 1 => do
    if (← peek) = .key then
      skip
      let k ← readUnless [.key, .value, .blockEnd] true true fuel
      let v ← readValue [.key, .value, .blockEnd] true true fuel
      return (k, v) :: (← blockEntries fuel)
    else
      expect .blockEnd
      return []

/-- Items of a flow sequence; a pair among them is a mapping of one entry. -/
def flowItems (isFirst : Bool) : Nat → Reader (List Nat)
  | 0 => malformed
  | fuel + 1 => do
    if (← peek) = .flowSequenceEnd then
      skip
      return []
    else
      if !isFirst then expect .flowEntry
      match ← peek with
      | .key => do
        skip
        let n ← collect none .map do
          let k ← readUnless [.value, .flowEntry, .flowSequenceEnd] false false fuel
          let v ← readValue [.flowEntry, .flowSequenceEnd] false false fuel
          return .mapping [(k, v)]
        return n :: (← flowItems false fuel)
      | .flowSequenceEnd => do
        skip
        return []
      | _ => do
        let n ← read false false fuel
        return n :: (← flowItems false fuel)

def flowEntries (isFirst : Bool) : Nat → Reader (List (Nat × Nat))
  | 0 => malformed
  | fuel + 1 => do
    if (← peek) = .flowMappingEnd then
      skip
      return []
    else
      if !isFirst then expect .flowEntry
      match ← peek with
      | .key => do
        skip
        let k ← readUnless [.value, .flowEntry, .flowMappingEnd] false false fuel
        let v ← readValue [.flowEntry, .flowMappingEnd] false false fuel
        return (k, v) :: (← flowEntries false fuel)
      | .flowMappingEnd => do
        skip
        return []
      | _ => do
        let k ← read false false fuel
        let v ← nothing
        return (k, v) :: (← flowEntries false fuel)

end

/-- The directives before a document: at most one version, which must be a first one, and each
handle once. -/
def directives (versioned : Bool) (handles : List (Text × Text)) :
    List Token → Except LoadError (List (Text × Text) × List Token)
  | .directive (.version major _) :: r =>
    if versioned || major != 1 then .error .malformed else directives true handles r
  | .directive (.tagHandle handle stem) :: r =>
    if (handles.lookup handle).isSome then .error .malformed
    else directives versioned ((handle, stem) :: handles) r
  | .directive .reserved :: r => directives versioned handles r
  | r => .ok (handles, r)

/-- Handles that need no directive come behind those that have one. -/
def usualHandles : List (Text × Text) := [("!", "!"), ("!!", Tag.standard)]

def documentStart : Reader Unit := do
  let (handles, rest) ← directives false [] (← get).tokens
  modify fun s => { s with tokens := rest, handles := handles ++ usualHandles }
  expect .documentStart

def documentContent (fuel : Nat) : Reader Nat := do
  match ← peek with
  | .directive _ => nothing
  | .documentStart => nothing
  | .documentEnd => nothing
  | .streamEnd => nothing
  | _ => read true false fuel

/-- Behind the document nothing may come but marks of its end. -/
def documentEnd : Nat → Reader Unit
  | 0 => malformed
  | fuel + 1 => do
    match ← peek with
    | .documentEnd => do
      skip
      documentEnd fuel
    | .streamEnd => return ()
    | _ => do
      documentStart
      malformed

/-- The only document of a text; a text without one is nothing. -/
def document (fuel : Nat) : Reader Nat := do
  let n ← match ← peek with
    | .streamEnd => nothing
    | .directive _ => do
      documentStart
      documentContent fuel
    | .documentStart => do
      documentStart
      documentContent fuel
    | _ => read true false fuel
  documentEnd fuel
  return n

end Node

def Graph.ofText (t : Text) : Except LoadError Graph :=
  let tokens := Token.ofText t
  (Node.document (4 * tokens.length + 4) { tokens := tokens, handles := Node.usualHandles }).map
    fun p => ⟨p.2.nodes, p.1⟩

end RouteAtlas.Yaml
