import RouteAtlas.Proofs.Session
import RouteAtlas.Value.Display

/-!
# Values that have a text

A value that is not nested too deep, and so does not stand inside itself, has a text if its integers
have no more digits than are written.
-/

namespace RouteAtlas

theorem exists_mapM_eq_ok {ε α β : Type} {f : α → Except ε β} {xs : List α}
    (h : ∀ x ∈ xs, ∃ y, f x = .ok y) : ∃ ys, xs.mapM f = .ok ys := by
  induction xs with
  | nil => exact ⟨[], rfl⟩
  | cons x xs ih =>
    obtain ⟨y, hy⟩ := h x (by simp)
    obtain ⟨ys, hys⟩ := ih fun z hz => h z (by simp [hz])
    exact ⟨y :: ys, by rw [List.mapM_cons, hy, hys]; rfl⟩

namespace Collection

def parts : Collection → List Value
  | .list vs => vs
  | .pair a b => [a, b]
  | .set vs => vs
  | .map es => es.flatMap fun e => [e.1, e.2]

end Collection

namespace Collections

/-- A value that is nested less deep than a number of levels, with integers that can be written. -/
def Shallow (cs : Collections) : Nat → Value → Prop
  | 0, _ => False
  | k + 1, .collection place => ∃ c, cs[place]? = some c ∧ ∀ p ∈ c.parts, Shallow cs k p
  | _ + 1, v => ∀ n, v = .int n → Decimal.tooLong n.natAbs = false

variable {cs : Collections} {k fuel : Nat} {v : Value}

theorem Shallow.pos (h : cs.Shallow k v) : 0 < k := by
  cases k with
  | zero => exact h.elim
  | succ k => exact Nat.succ_pos k

theorem Shallow.of_get? {c : Collection} (h : cs.Shallow k v) (hc : cs.get? v = some c) {p : Value}
    (hp : p ∈ c.parts) : cs.Shallow (k - 1) p := by
  cases k with
  | zero => exact h.elim
  | succ k =>
    cases v with
    | collection place =>
      obtain ⟨d, hd, hparts⟩ := h
      obtain rfl := Option.some.inj (hd.symm.trans hc)
      exact hparts p hp
    | _ => cases hc

theorem exists_shownIn (h : cs.Shallow k v) (hk : k ≤ fuel) (around : List Nat) :
    ∃ t, cs.shownIn around fuel v = .ok t := by
  induction k generalizing v fuel around with
  | zero => exact h.elim
  | succ k ih =>
    obtain ⟨fuel, rfl⟩ : ∃ n, fuel = n + 1 := ⟨fuel - 1, by omega⟩
    cases v with
    | collection place =>
      obtain ⟨c, hc, hparts⟩ := h
      rw [shownIn]
      simp only [hc]
      split
      · exact ⟨_, rfl⟩
      · have hp (p : Value) (h : p ∈ c.parts) :
            ∃ t, cs.shownIn (place :: around) fuel p = .ok t :=
          ih (hparts p h) (by omega) _
        have hm {α : Type} {f : α → Except DisplayError Text} {xs : List α} {c : Collection}
            (h : ∀ x ∈ xs, ∃ y, f x = .ok y) :
            ∃ t, (do let ts ← xs.mapM f; return c.shown ts) = Except.ok t := by
          obtain ⟨ts, hts⟩ := exists_mapM_eq_ok h
          exact ⟨c.shown ts, by rw [hts]; rfl⟩
        cases c with
        | list vs => exact hm hp
        | pair a b => exact hm hp
        | set vs => exact hm hp
        | map es =>
          refine hm fun e he => ?_
          obtain ⟨a, ha⟩ := hp e.1 (List.mem_flatMap.2 ⟨e, he, by simp⟩)
          obtain ⟨b, hb⟩ := hp e.2 (List.mem_flatMap.2 ⟨e, he, by simp⟩)
          exact ⟨_, by rw [ha, hb]; rfl⟩
    | int n =>
      exact ⟨Text.ofInt n, by simp [shownIn, Value.shownScalar, h n rfl]⟩
    | _ => exact ⟨_, rfl⟩

theorem Shallow.exists_shown (h : cs.Shallow maxDepth v) : ∃ t, cs.shown v = .ok t :=
  exists_shownIn h (Nat.le_refl _) []

theorem Shallow.mono (h : cs.Shallow k v) (hk : k ≤ fuel) : cs.Shallow fuel v := by
  induction k generalizing v fuel with
  | zero => exact h.elim
  | succ k ih =>
    obtain ⟨fuel, rfl⟩ : ∃ n, fuel = n + 1 := ⟨fuel - 1, by omega⟩
    cases v with
    | collection place =>
      obtain ⟨c, hc, hparts⟩ := h
      exact ⟨c, hc, fun p hp => ih (hparts p hp) (by omega)⟩
    | _ => exact h

theorem Shallow.exists_plain (h : cs.Shallow maxDepth v) : ∃ t, cs.plain v = .ok t := by
  cases v with
  | str t => exact ⟨t, rfl⟩
  | date d => exact ⟨_, rfl⟩
  | moment m => exact ⟨_, rfl⟩
  | _ => exact h.exists_shown

theorem Shallow.of_items? {vs : List Value} (h : cs.Shallow k v) (hv : cs.items? v = some vs)
    {p : Value} (hp : p ∈ vs) : cs.Shallow (k - 1) p := by
  unfold items? at hv
  split at hv
  · rename_i hc
    cases hv
    exact h.of_get? hc hp
  · cases hv

theorem Shallow.of_entry? {es : List (Value × Value)} (h : cs.Shallow k v)
    (hv : cs.entries? v = some es) {key : Text} {p : Value}
    (hp : Value.entry? es key = some p) : cs.Shallow (k - 1) p := by
  obtain ⟨e, he, rfl⟩ := Option.map_eq_some_iff.1 hp
  have hm := List.mem_of_find?_eq_some he
  unfold entries? at hv
  split at hv
  · rename_i hc
    cases hv
    exact h.of_get? hc (List.mem_flatMap.2 ⟨e, hm, by simp⟩)
  · cases hv

end Collections

end RouteAtlas
