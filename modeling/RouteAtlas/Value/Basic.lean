import RouteAtlas.Json.Basic
import RouteAtlas.Text.Utf8

/-!
# Loaded values

What a YAML or JSON file may hold. A collection is known by its place among the collections of its
file, so that it may stand in several places and even hold itself. Keys of mappings are values too;
two keys are the same if they are equal as values, where numbers and truth values are compared as
numbers.
-/

namespace RouteAtlas

structure Date where
  year : Nat
  month : Nat
  day : Nat
  deriving DecidableEq

/-- A point in time; the offset from universal time, in minutes, may be unknown. -/
structure Moment where
  date : Date
  hour : Nat
  minute : Nat
  second : Nat
  micro : Nat
  offset : Option Int
  deriving DecidableEq

inductive Value where
  | null
  | bool (b : Bool)
  | int (n : Int)
  | float (x : Binary)
  | str (t : Text)
  | bytes (bs : Bytes)
  | date (d : Date)
  | moment (m : Moment)
  | collection (place : Nat)
  deriving DecidableEq

inductive Collection where
  | list (items : List Value)
  | pair (first second : Value)
  | set (items : List Value)
  | map (entries : List (Value × Value))
  deriving DecidableEq

/-- The collections of a file, each at its place. -/
abbrev Collections := Array Collection

/-- What a file holds: a value, and the collections that it is made of. -/
structure Loaded where
  collections : Collections
  root : Value
  deriving DecidableEq

namespace Value

instance : Inhabited Value := ⟨.null⟩

/-- The integer that a value counts as when keys are compared. -/
def asInt? : Value → Option Int
  | .bool b => some (if b then 1 else 0)
  | .int n => some n
  | .float x => x.toInt?
  | _ => none

def daysBeforeYear (y : Nat) : Nat := (y - 1) * 365 + (y - 1) / 4 - (y - 1) / 100 + (y - 1) / 400

def isLeap (y : Nat) : Bool := y % 4 == 0 && (y % 100 != 0 || y % 400 == 0)

def daysInMonth (y m : Nat) : Nat :=
  if m = 2 then (if isLeap y then 29 else 28)
  else if m = 4 ∨ m = 6 ∨ m = 9 ∨ m = 11 then 30
  else 31

def dayNumber (d : Date) : Nat :=
  (List.range (d.month - 1)).foldl (fun n m => n + daysInMonth d.year (m + 1))
    (daysBeforeYear d.year) + d.day

/-- Microseconds of universal time, for moments whose offset is known. -/
def instant (m : Moment) : Option Int :=
  m.offset.map fun o =>
    (((((dayNumber m.date : Int) * 24 + m.hour) * 60 + m.minute - o) * 60 + m.second) * 1000000 +
      m.micro)

def sameKey (a b : Value) : Bool :=
  match a, b with
  | .null, .null => true
  | .str s, .str t => s == t
  | .bytes s, .bytes t => s == t
  | .date s, .date t => s == t
  | .moment s, .moment t =>
    match instant s, instant t with
    | some i, some j => i == j
    | none, none => s == t
    | _, _ => false
  | a, b =>
    match a.asInt?, b.asInt? with
    | some i, some j => i == j
    | none, none =>
      match a, b with
      | .float (.undefined), _ => false
      | .float x, .float y => x == y
      | _, _ => false
    | _, _ => false

/-- Only values that cannot change may be keys. -/
def isKey : Value → Bool
  | .collection _ => false
  | _ => true

def entry? (es : List (Value × Value)) (key : Text) : Option Value :=
  (es.find? fun e => e.1.sameKey (.str key)).map (·.2)

end Value

namespace Collection

/-- What is empty counts as false. -/
def holds : Collection → Bool
  | .list vs => !vs.isEmpty
  | .pair _ _ => true
  | .set vs => !vs.isEmpty
  | .map es => !es.isEmpty

end Collection

namespace Collections

def get? (cs : Collections) : Value → Option Collection
  | .collection place => cs[place]?
  | _ => none

def items? (cs : Collections) (v : Value) : Option (List Value) :=
  match cs.get? v with
  | some (.list vs) => some vs
  | _ => none

def entries? (cs : Collections) (v : Value) : Option (List (Value × Value)) :=
  match cs.get? v with
  | some (.map es) => some es
  | _ => none

/-- Nothing, zero and what is empty count as false. -/
def holds (cs : Collections) : Value → Bool
  | .null => false
  | .bool b => b
  | .int n => n != 0
  | .float x => !x.isZero
  | .str t => !t.isEmpty
  | .bytes bs => !bs.isEmpty
  | .date _ => true
  | .moment _ => true
  | .collection place => (cs[place]?).any Collection.holds

mutual

/-- A document value as a loaded value, with its collections behind those that are there. -/
def addJson (cs : Collections) : Json → Value × Collections
  | .null => (.null, cs)
  | .bool b => (.bool b, cs)
  | .int n => (.int n, cs)
  | .float x => (.float x, cs)
  | .str t => (.str t, cs)
  | .list vs =>
    let (items, cs) := addItems cs vs
    (.collection cs.size, cs.push (.list items))
  | .obj fs =>
    let (entries, cs) := addFields cs fs
    (.collection cs.size, cs.push (.map entries))
  | .shared _ v => addJson cs v

def addItems (cs : Collections) : List Json → List Value × Collections
  | [] => ([], cs)
  | v :: vs =>
    let (item, cs) := addJson cs v
    let (items, cs) := addItems cs vs
    (item :: items, cs)

def addFields (cs : Collections) : List (Text × Json) → List (Value × Value) × Collections
  | [] => ([], cs)
  | (k, v) :: fs =>
    let (value, cs) := addJson cs v
    let (entries, cs) := addFields cs fs
    ((.str k, value) :: entries, cs)

end

end Collections

namespace Loaded

def entries? (d : Loaded) : Option (List (Value × Value)) := d.collections.entries? d.root

def ofJson (v : Json) : Loaded :=
  let (root, cs) := Collections.addJson #[] v
  ⟨cs, root⟩

end Loaded

end RouteAtlas
