import RouteAtlas.Value.Basic

/-!
# The order of sets

A set has slots, a power of two of them. A number has its slot by its remainder; if that is taken,
the first free one of those close behind it is used, or the search goes on from another slot. A set
of numbers is listed by slots. Items that are no numbers have no slots of their own, and a set with
one of them is listed in the order in which it was written.
-/

namespace RouteAtlas.SetOrder

/-- Numbers are told apart by their remainders for this prime. -/
def modulus : Nat := Nat.pow 2 61 - 1

/-- The remainder of a fraction `m * 2 ^ q`, where powers of two repeat after 61. -/
def remainder (m : Nat) (q : Int) : Nat := m % modulus * Nat.pow 2 (q % 61).toNat % modulus

/-- The key of a number, in 64 bits; equal numbers have equal keys. -/
def keyOf (negative : Bool) (r : Nat) : Nat :=
  if !negative || r = 0 then r else Nat.pow 2 64 - (if r = 1 then 2 else r)

def infiniteKey : Nat := 314159

def key? : Value → Option Nat
  | .bool b => some (if b then 1 else 0)
  | .int n => some (keyOf (n < 0) (n.natAbs % modulus))
  | .float (.finite s m q) => some (keyOf s (remainder m q))
  | .float (.infinite s) => some (keyOf s infiniteKey)
  | _ => none

def slots (n : Nat) : Nat := if n ≤ 4 then 8 else Nat.pow 2 (Nat.log2 (2 * n) + 1)

/-- How many slots close behind a taken one are tried, if there are so many. -/
def closeBy : Nat := 9

/-- The first free slot for a key; `fuel` bounds the number of places where the search starts. -/
def freeSlot (size : Nat) (taken : List Nat) : Nat → Nat → Nat → Nat
  | 0, slot, _ => slot
  | fuel + 1, slot, key =>
    let tried := if slot + closeBy < size then closeBy + 1 else 1
    match ((List.range tried).map (slot + ·)).find? fun i => !taken.contains i with
    | some i => i
    | none =>
      let key := key / 32
      freeSlot size taken fuel ((slot * 5 + 1 + key) % size) key

def placed (size : Nat) (items : List (Nat × Value)) : List (Nat × Value) :=
  items.foldl (fun (done : List (Nat × Value)) e =>
    let slot := freeSlot size (done.map (·.1)) (size + 64) (e.1 % size) e.1
    done ++ [(slot, e.2)]) []

/-- The items of a set in the order in which they are listed. -/
def listed (items : List Value) : List Value :=
  match items.mapM fun v => (key? v).map fun k => (k, v) with
  | none => items
  | some keyed => ((placed (slots items.length) keyed).mergeSort fun a b => a.1 ≤ b.1).map (·.2)

end RouteAtlas.SetOrder
