/-!
# Pairs in insertion order

A key that is put again keeps its first place and takes the later value.
-/

namespace RouteAtlas.Pairs

variable {α β : Type} [DecidableEq α]

def put (ps : List (α × β)) (k : α) (v : β) : List (α × β) :=
  match ps with
  | [] => [(k, v)]
  | (a, b) :: r => if a = k then (a, v) :: r else (a, b) :: put r k v

def get? (ps : List (α × β)) (k : α) : Option β := ps.lookup k

def ofList (ps : List (α × β)) : List (α × β) := ps.foldl (fun m p => put m p.1 p.2) []

theorem get?_put [BEq α] [LawfulBEq α] (ps : List (α × β)) (k a : α) (v : β) :
    (put ps k v).lookup a = if a = k then some v else ps.lookup a := by
  induction ps with
  | nil =>
    by_cases h : a = k
    · simp [put, h]
    · simp [put, List.lookup_cons, h, beq_false_of_ne h]
  | cons p r ih =>
    obtain ⟨x, y⟩ := p
    by_cases hx : x = k
    · subst hx
      by_cases h : a = x
      · simp [put, h]
      · simp [put, List.lookup_cons, h, beq_false_of_ne h]
    · by_cases ha : a = x
      · subst ha
        simp [put, hx]
      · simp [put, List.lookup_cons, hx, ih, beq_false_of_ne ha]

end RouteAtlas.Pairs
