import RouteAtlas.Number.Decimal
import RouteAtlas.Proofs.Json.Whole

/-!
# Documents of plain data

Plain data are objects with distinct keys, lists, texts, integers, truth values and nothing. What a
text format keeps of them is their form without the marks of sharing.
-/

namespace RouteAtlas.Json

mutual

/-- Objects with distinct keys, lists, texts without lone surrogates, integers of no more than the
most digits, truth values and nothing. -/
def IsData : Json → Prop
  | .null => True
  | .bool _ => True
  | .int n => Decimal.tooLong n.natAbs = false
  | .float _ => False
  | .str t => t.isWhole
  | .list vs => ItemsAreData vs
  | .obj fs => (fs.map (·.1)).Nodup ∧ FieldsAreData fs
  | .shared _ v => IsData v

def ItemsAreData : List Json → Prop
  | [] => True
  | v :: vs => IsData v ∧ ItemsAreData vs

def FieldsAreData : List (Text × Json) → Prop
  | [] => True
  | (k, v) :: fs => k.isWhole ∧ IsData v ∧ FieldsAreData fs

end

mutual

/-- How many lists and objects are open at once in the text of a value. -/
def depth : Json → Nat
  | .list vs => itemsDepth vs + 1
  | .obj fs => fieldsDepth fs + 1
  | .shared _ v => depth v
  | _ => 0

def itemsDepth : List Json → Nat
  | [] => 0
  | v :: vs => max (depth v) (itemsDepth vs)

def fieldsDepth : List (Text × Json) → Nat
  | [] => 0
  | (_, v) :: fs => max (depth v) (fieldsDepth fs)

end

mutual

/-- A value without the marks of sharing. -/
def unmarked : Json → Json
  | .list vs => .list (unmarkedItems vs)
  | .obj fs => .obj (unmarkedFields fs)
  | .shared _ v => unmarked v
  | v => v

def unmarkedItems : List Json → List Json
  | [] => []
  | v :: vs => unmarked v :: unmarkedItems vs

def unmarkedFields : List (Text × Json) → List (Text × Json)
  | [] => []
  | (k, v) :: fs => (k, unmarked v) :: unmarkedFields fs

end

@[simp] theorem isData_bare {v : Json} : v.bare.IsData ↔ v.IsData := by
  induction v using bare.induct with
  | case1 m v ih => exact ih
  | case2 v hv => rw [bare]; exact hv

@[simp] theorem depth_bare (v : Json) : v.bare.depth = v.depth := by
  induction v using bare.induct with
  | case1 m v ih => exact ih
  | case2 v hv => rw [bare]; exact hv

theorem keys_unmarkedFields (fs : List (Text × Json)) :
    (unmarkedFields fs).map (·.1) = fs.map (·.1) := by
  induction fs with
  | nil => rfl
  | cons f fs ih => simp [unmarkedFields, ih]

mutual

theorem IsData.isWhole {v : Json} (h : v.IsData) : v.isWhole := by
  cases v with
  | str t => exact h
  | list vs => exact ItemsAreData.areWhole h
  | obj fs => exact FieldsAreData.areWhole h.2
  | shared _ v => exact IsData.isWhole (v := v) h
  | _ => rfl

theorem ItemsAreData.areWhole {vs : List Json} (h : ItemsAreData vs) : itemsAreWhole vs := by
  cases vs with
  | nil => rfl
  | cons v vs => simp [itemsAreWhole, IsData.isWhole h.1, ItemsAreData.areWhole h.2]

theorem FieldsAreData.areWhole {fs : List (Text × Json)} (h : FieldsAreData fs) :
    fieldsAreWhole fs := by
  cases fs with
  | nil => rfl
  | cons f fs =>
    obtain ⟨k, v⟩ := f
    simp [fieldsAreWhole, show k.isWhole from h.1, IsData.isWhole h.2.1,
      FieldsAreData.areWhole h.2.2]

end

end RouteAtlas.Json
