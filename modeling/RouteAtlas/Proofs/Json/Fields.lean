import RouteAtlas.Json.Basic

/-!
# Fields of document values

Fields are sought under the marks of shared objects, by names that are followed one below the other.
-/

namespace RouteAtlas.Json

def fields (v : Json) : List (Text × Json) :=
  match v.bare with
  | .obj fs => fs
  | _ => []

def keys (v : Json) : List Text := v.fields.map (·.1)

/-- The value that names lead to, each below the one before. -/
def at? (v : Json) : List Text → Option Json
  | [] => some v
  | k :: ks => (v.fields.lookup k).bind fun w => w.at? ks

mutual

def names : Json → List Text
  | .list vs => itemNames vs
  | .obj fs => fieldNames fs
  | .shared _ v => names v
  | _ => []

def itemNames : List Json → List Text
  | [] => []
  | v :: vs => names v ++ itemNames vs

def fieldNames : List (Text × Json) → List Text
  | [] => []
  | (k, v) :: fs => k :: names v ++ fieldNames fs

end

section

variable {v w : Json} {fs : List (Text × Json)} {k : Text} {ks : List Text}

@[simp] theorem fields_obj : (Json.obj fs).fields = fs := rfl

@[simp] theorem fields_shared (mark : Nat) : (Json.shared mark v).fields = v.fields := rfl

@[simp] theorem keys_obj : (Json.obj fs).keys = fs.map (·.1) := rfl

@[simp] theorem keys_shared (mark : Nat) : (Json.shared mark v).keys = v.keys := rfl

@[simp] theorem at?_nil : v.at? [] = some v := rfl

@[simp] theorem at?_cons : v.at? (k :: ks) = (v.fields.lookup k).bind fun w => w.at? ks := rfl

theorem at?_append (v : Json) (ks ls : List Text) :
    v.at? (ks ++ ls) = (v.at? ks).bind fun w => w.at? ls := by
  induction ks generalizing v with
  | nil => rfl
  | cons k ks ih => simp only [List.cons_append, at?_cons, ih, Option.bind_assoc]

@[simp] theorem names_obj : (Json.obj fs).names = fieldNames fs := by simp [names]

@[simp] theorem names_shared (mark : Nat) : (Json.shared mark v).names = v.names := by
  simp [names]

/-- Fields whose values have none are all the names that there are. -/
theorem fieldNames_of_flat (h : ∀ f ∈ fs, f.2.names = []) : fieldNames fs = fs.map (·.1) := by
  induction fs with
  | nil => simp [fieldNames]
  | cons f fs ih =>
    obtain ⟨k, v⟩ := f
    have hv : v.names = [] := h (k, v) (by simp)
    rw [fieldNames, hv, ih fun g hg => h g (by simp [hg])]
    rfl

end

end RouteAtlas.Json
