import RouteAtlas.Text.Search
import RouteAtlas.Value.Display
import RouteAtlas.Yaml.Error

/-!
# Timestamps of YAML text

A date, perhaps with a time of day behind it, and behind that perhaps an offset from universal time.
-/

namespace RouteAtlas.Yaml

structure ClockTime where
  hour : Nat
  minute : Nat
  second : Nat
  fraction : List Char
  offset : Option Int
  deriving DecidableEq

structure Timestamp where
  year : Nat
  month : Nat
  day : Nat
  time : Option ClockTime
  deriving DecidableEq

namespace Timestamp

/-- Between `least` and `most` digits, as many as there are, with the number they write. -/
def digits? (least most : Nat) (cs : List Char) : Option (Nat × List Char) :=
  let ds := (cs.take most).takeWhile Char.isDigit
  if ds.length < least then none else some (Decimal.ofDigits ds, cs.drop ds.length)

def mark? (c : Char) : List Char → Option (List Char)
  | x :: r => if x = c then some r else none
  | [] => none

def isGap (c : Char) : Bool := c == ' ' || c == '\t'

/-- An offset in minutes: `Z`, or signed hours perhaps with minutes. -/
def offset? (cs : List Char) : Option (Int × List Char) :=
  match cs with
  | 'Z' :: r => some (0, r)
  | c :: r =>
    if c = '+' ∨ c = '-' then do
      let (h, r) ← digits? 1 2 r
      let (m, r) := (((mark? ':' r).bind (digits? 2 2))).getD (0, r)
      let minutes : Int := h * 60 + m
      return (if c = '-' then -minutes else minutes, r)
    else none
  | [] => none

def fraction (cs : List Char) : List Char × List Char :=
  match cs with
  | '.' :: r => r.span Char.isDigit
  | _ => ([], cs)

/-- The time of day, to the very end. -/
def time? (cs : List Char) : Option ClockTime := do
  let (h, r) ← digits? 1 2 cs
  let (m, r) ← (mark? ':' r).bind (digits? 2 2)
  let (s, r) ← (mark? ':' r).bind (digits? 2 2)
  let (f, r) := fraction r
  if r.isEmpty then return ⟨h, m, s, f, none⟩
  else
    let (o, r) ← offset? (r.dropWhile isGap)
    if r.isEmpty then return ⟨h, m, s, f, some o⟩ else none

def between? (cs : List Char) : Option (List Char) :=
  match cs with
  | c :: r =>
    if c = 'T' ∨ c = 't' then some r
    else if isGap c then some (r.dropWhile isGap)
    else none
  | [] => none

def ofChars? (cs : List Char) : Option Timestamp := do
  let (y, r) ← digits? 4 4 cs
  let (m, r) ← (mark? '-' r).bind (digits? 1 2)
  let (d, r) ← (mark? '-' r).bind (digits? 1 2)
  if r.isEmpty then return ⟨y, m, d, none⟩
  else
    let t ← (between? r).bind time?
    return ⟨y, m, d, some t⟩

def millionths (ds : List Char) : Nat :=
  let ds := ds.take 6
  Decimal.ofDigits (ds ++ List.replicate (6 - ds.length) '0')

def date? (t : Timestamp) : Except ScalarError Date :=
  if t.year = 0 then .error (.year t.year)
  else if t.month = 0 ∨ 12 < t.month then .error .month
  else if t.day = 0 ∨ Value.daysInMonth t.year t.month < t.day then .error .day
  else .ok ⟨t.year, t.month, t.day⟩

/-- The date or moment, if all parts are in range; the offset is looked at first. -/
def value (t : Timestamp) : Except ScalarError Value :=
  match t.time with
  | none => t.date?.map .date
  | some c => do
    match c.offset with
    | some o => if 24 * 60 ≤ o.natAbs then .error (.offset (Moment.shownSpan o))
    | none => pure ()
    let d ← t.date?
    if 23 < c.hour then .error .hour
    if 59 < c.minute then .error .minute
    if 59 < c.second then .error .second
    return .moment ⟨d, c.hour, c.minute, c.second, millionths c.fraction, c.offset⟩

end Timestamp

end RouteAtlas.Yaml
