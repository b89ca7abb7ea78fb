import RouteAtlas.Files.Path
import RouteAtlas.Text.Quoted

/-!
# File trees

A tree of directories, files and symbolic links. A place in the tree is a list of names from the
root without links on the way; a path is resolved to a place by following links, at most forty.
Names and paths may only have so many bytes.
-/

namespace RouteAtlas.Files

inductive Node where
  | file (bytes : Bytes)
  | dir (entries : List (Text × Node))
  | link (target : Text)

instance : Inhabited Node := ⟨.dir []⟩

inductive Cause where
  | absent
  | present
  | notDirectory
  | isDirectory
  | nameTooLong
  | linkLoop
  deriving DecidableEq

namespace Cause

def number : Cause → Nat
  | .absent => 2
  | .present => 17
  | .notDirectory => 20
  | .isDirectory => 21
  | .nameTooLong => 36
  | .linkLoop => 40

def text : Cause → Text
  | .absent => "No such file or directory"
  | .present => "File exists"
  | .notDirectory => "Not a directory"
  | .isDirectory => "Is a directory"
  | .nameTooLong => "File name too long"
  | .linkLoop => "Too many levels of symbolic links"

end Cause

/-- A failed operation and the path it was asked for. -/
structure Failure where
  cause : Cause
  path : Path
  deriving DecidableEq

def Failure.message (f : Failure) : Text :=
  "[Errno " ++ Text.ofNat f.cause.number ++ "] " ++ f.cause.text ++ ": " ++ f.path.toText.quoted

/-- Why a path cannot be used: an operation on it fails, or no file can have it as its name. -/
inductive AccessError where
  | failed (f : Failure)
  | badName (e : NameError)
  deriving DecidableEq

def AccessError.message : AccessError → Text
  | .failed f => f.message
  | .badName e => e.message

def byteLength (t : Text) : Nat :=
  match Utf8.encodeName t with
  | .ok bs => bs.length
  | .error _ => 0

def maxName : Nat := 255

def maxPath : Nat := 4095

abbrev Place := List Text

/-- What a path is resolved for: the entry that it names, links not followed at its end, the node
that it leads to, or a file that is to be written there. -/
inductive Goal where
  | entry
  | node
  | file
  deriving DecidableEq

namespace Node

def at? : Node → Place → Option Node
  | n, [] => some n
  | .dir es, c :: cs => (es.lookup c).bind fun n => n.at? cs
  | _, _ :: _ => none

/-- An entry under a name, in place of one that was there. -/
def setEntry (name : Text) (n : Node) : List (Text × Node) → List (Text × Node)
  | [] => [(name, n)]
  | (m, o) :: r => if m = name then (m, n) :: r else (m, o) :: setEntry name n r

/-- The tree with a node at a place whose parent is a directory. -/
def set (tree : Node) (place : Place) (new : Node) : Node :=
  match place, tree with
  | [], _ => new
  | c :: cs, .dir es => .dir (setEntry c (set ((es.lookup c).getD (.dir [])) cs new) es)
  | _ :: _, n => n

def erase (tree : Node) (place : Place) : Node :=
  match place, tree with
  | [], n => n
  | [c], .dir es => .dir (es.filter (·.1 != c))
  | c :: cs, .dir es =>
    match es.lookup c with
    | some n => .dir (setEntry c (erase n cs) es)
    | none => .dir es
  | _, n => n

def isDir : Node → Bool
  | .dir _ => true
  | _ => false

/-- The names on the way that a link tells: a single point stands for the directory reached, and so
does what is behind a final slash, which is an empty name. -/
def steps (target : Text) : List Text :=
  let names := (target.cut '/').filter fun n => !n.isEmpty
  if target.getLast? = some (.char '/') then names ++ [[]] else names

/-- Where names lead, and whether a node is there: only the last may be absent. `budget` says how
many links may be followed. A file is not made under a name with a slash behind it. -/
def resolve (tree : Node) (goal : Goal) (budget : Nat) (place : Place) (names : List Text) :
    Except Cause (Place × Option Node) :=
  match names with
  | [] =>
    match tree.at? place with
    | none => .error .absent
    | some n => .ok (place, some n)
  | c :: rest =>
    match tree.at? place with
    | none => .error .absent
    | some (.file _) => .error .notDirectory
    | some (.link _) => .error .notDirectory
    | some (.dir es) =>
      if c = ".." then resolve tree goal budget place.dropLast rest
      else if c.isEmpty || c = "." then resolve tree goal budget place rest
      else if maxName < byteLength c then .error .nameTooLong
      else if goal = .file && rest = [[]] then .error .isDirectory
      else
        match es.lookup c with
        | none => if rest.isEmpty then .ok (place ++ [c], none) else .error .absent
        | some (.link target) =>
          if rest.isEmpty && goal = .entry then .ok (place ++ [c], some (.link target))
          else
            match budget with
            | 0 => .error .linkLoop
            | b + 1 =>
              let start := if target.startsWith "/" then [] else place
              resolve tree goal b start (steps target ++ rest)
        | some _ => resolve tree goal budget (place ++ [c]) rest
termination_by (budget, names.length)

mutual

def linkCount : Node → Nat
  | .file _ => 0
  | .dir es => linkCountIn es
  | .link _ => 1

def linkCountIn : List (Text × Node) → Nat
  | [] => 0
  | (_, n) :: es => linkCount n + linkCountIn es

end

/-- Names behind a place, kept as they are; they begin at the root if a slash comes before them. -/
def unfollowed (place : Place) : List Text → Place
  | [] :: c :: rest => c :: rest
  | names => place ++ names

/-- The place that names lead to when links are followed as far as possible; names that are absent
stand for themselves. A link that is reached while it is being followed ends the search: the rest is
kept as it is and the answer is `false`. No more links are followed at a time than `budget`, which
the number of links in the tree is enough for. -/
def follow (tree : Node) (budget : Nat) (active : List Place) (place : Place) (names : List Text) :
    Place × Bool :=
  match names with
  | [] => (place, true)
  | c :: rest =>
    if c.isEmpty || c = "." then follow tree budget active place rest
    else if c = ".." then follow tree budget active place.dropLast rest
    else
      let here := place ++ [c]
      match tree.at? here with
      | some (.link target) =>
        if here ∈ active then (unfollowed here rest, false)
        else
          match budget with
          | 0 => (unfollowed here rest, false)
          | b + 1 =>
            let start := if target.startsWith "/" then [] else place
            let (reached, done) := follow tree b (here :: active) start (target.cut '/')
            if done then follow tree (b + 1) active reached rest
            else (unfollowed reached rest, false)
      | _ => follow tree budget active here rest
termination_by (budget, names.length)

end Node

/-- A tree with the directory that relative paths start from, the home directory, and those of
other users. -/
structure System where
  tree : Node
  working : Place
  home : Text
  accounts : List (Text × Text) := []

inductive RealPathError where
  | loop (path : Path)
  | badName (e : NameError)
  deriving DecidableEq

inductive HomeError where
  | unknown
  | badName (e : NameError)
  deriving DecidableEq

namespace System

/-- Where a path leads, and the node there. -/
def locate (s : System) (goal : Goal) (p : Path) : Except AccessError (Place × Option Node) :=
  match NameError.ofText? p.toText with
  | some e => .error (.badName e)
  | none =>
    if maxPath < byteLength p.toText then .error (.failed ⟨.nameTooLong, p⟩)
    else
      (s.tree.resolve goal 40 (if p.isAbsolute then [] else s.working) p.names).mapError
        fun c => .failed ⟨c, p⟩

/-- The node a path leads to, links followed. There is none behind what cannot be passed; only a
name that is too long is an error. -/
def node? (s : System) (p : Path) : Except Failure (Option Node) :=
  match s.locate .node p with
  | .ok (_, n) => .ok n
  | .error (.failed f) => if f.cause = .nameTooLong then .error f else .ok none
  | .error (.badName _) => .ok none

def holds (s : System) (p : Path) : Except Failure Bool := (s.node? p).map Option.isSome

def isDir (s : System) (p : Path) : Except Failure Bool := (s.node? p).map (·.any Node.isDir)

def readBytes (s : System) (p : Path) : Except AccessError Bytes :=
  match s.locate .node p with
  | .error e => .error e
  | .ok (_, none) => .error (.failed ⟨.absent, p⟩)
  | .ok (_, some (.file bs)) => .ok bs
  | .ok (_, some (.dir _)) => .error (.failed ⟨.isDirectory, p⟩)
  | .ok (_, some (.link _)) => .error (.failed ⟨.linkLoop, p⟩)

/-- Writes a file, in place of the one that was there; its directory must exist. -/
def writeBytes (s : System) (p : Path) (bs : Bytes) : Except AccessError System :=
  match s.locate .file p with
  | .error e => .error e
  | .ok (_, some (.dir _)) => .error (.failed ⟨.isDirectory, p⟩)
  | .ok (_, some (.link _)) => .error (.failed ⟨.linkLoop, p⟩)
  | .ok (place, _) => .ok { s with tree := s.tree.set place (.file bs) }

/-- Adds bytes behind those of a file, which is made if it is absent. -/
def appendBytes (s : System) (p : Path) (bs : Bytes) : Except AccessError System :=
  match s.locate .file p with
  | .error e => .error e
  | .ok (_, some (.dir _)) => .error (.failed ⟨.isDirectory, p⟩)
  | .ok (_, some (.link _)) => .error (.failed ⟨.linkLoop, p⟩)
  | .ok (place, some (.file old)) => .ok { s with tree := s.tree.set place (.file (old ++ bs)) }
  | .ok (place, none) => .ok { s with tree := s.tree.set place (.file bs) }

/-- Takes away what a path itself names, which must not be a directory. -/
def remove (s : System) (p : Path) : Except AccessError System :=
  match s.locate .entry p with
  | .error e => .error e
  | .ok (_, none) => .error (.failed ⟨.absent, p⟩)
  | .ok (_, some (.dir _)) => .error (.failed ⟨.isDirectory, p⟩)
  | .ok (place, _) => .ok { s with tree := s.tree.erase place }

def makeDir (s : System) (p : Path) : Except AccessError System :=
  match s.locate .entry p with
  | .error e => .error e
  | .ok (_, some _) => .error (.failed ⟨.present, p⟩)
  | .ok (place, none) => .ok { s with tree := s.tree.set place (.dir []) }

/-- Makes a directory and those above it that are absent; one that is there is enough. What has been
made stays when a directory cannot be made. -/
def madeDirs (s : System) (p : Path) : System × Option AccessError :=
  makeFrom s p.anchor p.names.reverse
where
  /-- A directory that could not be made is enough if it is there. -/
  untolerated (s : System) (p : Path) (e : AccessError) : Option AccessError :=
    match e, s.isDir p with
    | .badName e, _ => some (.badName e)
    | .failed _, .error f => some (.failed f)
    | .failed f, .ok there => if there && f.cause != .absent then none else some (.failed f)
  isAbsent : AccessError → Bool
    | .failed f => f.cause = .absent
    | .badName _ => false
  /-- Makes a directory whose parent is there. -/
  makeLast (s : System) (p : Path) : System × Option AccessError :=
    match s.makeDir p with
    | .ok s => (s, none)
    | .error e => (s, untolerated s p e)
  makeFrom (s : System) (anchor : Anchor) : List Text → System × Option AccessError
    | [] => makeLast s ⟨anchor, []⟩
    | c :: above =>
      let p : Path := ⟨anchor, (c :: above).reverse⟩
      match s.makeDir p with
      | .ok s => (s, none)
      | .error e =>
        if isAbsent e then
          match makeFrom s anchor above with
          | (s, none) => makeLast s p
          | (s, some e) => (s, some e)
        else (s, untolerated s p e)

def makeDirs (s : System) (p : Path) : Except AccessError System :=
  match s.madeDirs p with
  | (s, none) => .ok s
  | (_, some e) => .error e

/-- Double points cancel the name before them; empty names and single points do not count. -/
def collapse (names : List Text) : Place :=
  (names.filter fun c : Text => !c.isEmpty && c != ".").foldl
    (fun (place : Place) (c : Text) => if c = ".." then place.dropLast else place ++ [c]) []

/-- The absolute path that a path stands for by its names alone. -/
def absolute (s : System) (p : Path) : Path :=
  let start := if p.isAbsolute then [] else s.working
  let anchor := if p.isAbsolute then p.anchor else .slash
  ⟨anchor, collapse (start ++ p.names)⟩

/-- The absolute path without links that a path stands for; links that run in a loop are reported
with the path at which they were left. -/
def realPath (s : System) (p : Path) : Except RealPathError Path :=
  match NameError.ofText? p.toText with
  | some e => .error (.badName e)
  | none =>
    let start := if p.isAbsolute then [] else s.working
    let real : Path :=
      ⟨.slash, collapse (s.tree.follow s.tree.linkCount [] start p.names).1⟩
    match s.locate .node real with
    | .error (.failed f) => if f.cause = .linkLoop then .error (.loop real) else .ok real
    | _ => .ok real

/-- A home directory as a path, without slashes at its end. -/
def homePath? (t : Text) : Option Path :=
  let t := (t.reverse.dropWhile fun c : CodePoint => c == '/').reverse
  if Text.startsWith t "~" then none
  else some (Path.ofText (if t.isEmpty then "/" else t))

/-- A path with a leading tilde, which a user may be named behind, replaced by a home directory. -/
def expandHome (s : System) (p : Path) : Except HomeError Path :=
  match p.anchor, p.names with
  | .relative, (.char '~' :: user) :: rest => do
    let home ←
      if user.isEmpty then .ok s.home
      else
        match NameError.ofText? user, s.accounts.lookup user with
        | some e, _ => .error (.badName e)
        | none, some home => .ok home
        | none, none => .error .unknown
    match homePath? home with
    | some home => .ok (home.join ⟨.relative, rest⟩)
    | none => .error .unknown
  | _, _ => .ok p

end System

end RouteAtlas.Files
