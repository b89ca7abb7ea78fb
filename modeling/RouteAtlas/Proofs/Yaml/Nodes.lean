import RouteAtlas.Proofs.Yaml.Form
import RouteAtlas.Proofs.Yaml.Reader
import RouteAtlas.Proofs.Yaml.Sharing

/-!
# Nodes that stand for documents

A node stands for a value if it and the nodes below it are known. That of a collection is not known
while its parts are read.
-/

namespace RouteAtlas.Yaml

abbrev Places := Nat → Option Node

namespace Places

mutual

/-- A place stands for a value: the nodes there and below are those of the value. -/
def Denotes (ns : Places) (p : Nat) : Json → Prop
  | .list vs => ∃ ps, ns p = some ⟨.seq, .sequence ps⟩ ∧ DenoteItems ns ps vs
  | .obj fs => ∃ es, ns p = some ⟨.map, .mapping es⟩ ∧ DenoteFields ns es fs
  | .shared _ v => Denotes ns p v
  | v => ns p = some ⟨formTag v, .scalar (form v)⟩

def DenoteItems (ns : Places) : List Nat → List Json → Prop
  | [], [] => True
  | p :: ps, v :: vs => Denotes ns p v ∧ DenoteItems ns ps vs
  | _, _ => False

def DenoteFields (ns : Places) : List (Nat × Nat) → List (Text × Json) → Prop
  | [], [] => True
  | (k, p) :: es, (t, v) :: fs =>
    ns k = some ⟨.str, .scalar t⟩ ∧ Denotes ns p v ∧ DenoteFields ns es fs
  | _, _ => False

end

theorem denotes_bare {ns : Places} {p : Nat} {v : Json} :
    ns.Denotes p v.bare ↔ ns.Denotes p v := by
  induction v using Json.bare.induct with
  | case1 m v ih => exact ih
  | case2 v hv => rw [Json.bare]; exact hv

def Extends (ns ns' : Places) : Prop := ∀ p n, ns p = some n → ns' p = some n

variable {ns ns' ns'' : Places}

theorem Extends.trans (h : ns.Extends ns') (h' : ns'.Extends ns'') : ns.Extends ns'' :=
  fun p n hn => h' p n (h p n hn)

mutual

theorem Denotes.mono (h : ns.Extends ns') {p : Nat} {v : Json} (hv : ns.Denotes p v) :
    ns'.Denotes p v := by
  cases v with
  | list vs =>
    obtain ⟨ps, hp, hd⟩ := hv
    exact ⟨ps, h p _ hp, DenoteItems.mono h hd⟩
  | obj fs =>
    obtain ⟨es, hp, hd⟩ := hv
    exact ⟨es, h p _ hp, DenoteFields.mono h hd⟩
  | shared m v => exact Denotes.mono h (v := v) hv
  | _ => exact h p _ hv

theorem DenoteItems.mono (h : ns.Extends ns') {ps : List Nat} {vs : List Json}
    (hv : ns.DenoteItems ps vs) : ns'.DenoteItems ps vs := by
  cases vs with
  | nil => cases ps <;> exact hv
  | cons v vs =>
    cases ps with
    | nil => exact hv
    | cons p ps => exact ⟨Denotes.mono h hv.1, DenoteItems.mono h hv.2⟩

theorem DenoteFields.mono (h : ns.Extends ns') {es : List (Nat × Nat)} {fs : List (Text × Json)}
    (hv : ns.DenoteFields es fs) : ns'.DenoteFields es fs := by
  cases fs with
  | nil => cases es <;> exact hv
  | cons f fs =>
    cases es with
    | nil => exact hv
    | cons e es => exact ⟨h _ _ hv.1, Denotes.mono h hv.2.1, DenoteFields.mono h hv.2.2⟩

end

end Places

/-- The nodes of a document without those of the collections that are open. -/
def known (opens : List Nat) (ns : Nodes) : Places := fun p => if p ∈ opens then none else ns[p]?

section Known

variable {opens : List Nat} {ns : Nodes} {p : Nat} {n : Node}

theorem known_of_not_mem (hp : p ∉ opens) : known opens ns p = ns[p]? := by simp [known, hp]

theorem lt_of_known (h : known opens ns p = some n) : p ∉ opens ∧ p < ns.size := by
  unfold known at h
  split at h
  · cases h
  · rename_i hp
    exact ⟨hp, (Array.getElem?_eq_some_iff.1 h).1⟩

theorem known_push : (known opens ns).Extends (known opens (ns.push n)) := by
  intro p m h
  obtain ⟨hp, hl⟩ := lt_of_known h
  rw [known_of_not_mem hp] at h ⊢
  rw [Array.getElem?_push_lt hl, ← Array.getElem?_eq_getElem hl, h]

theorem known_size (hs : ∀ p ∈ opens, p < ns.size) : known opens (ns.push n) ns.size = some n := by
  rw [known_of_not_mem fun h => Nat.lt_irrefl _ (hs _ h), Array.getElem?_push_size]

theorem known_open : (known opens ns).Extends (known (ns.size :: opens) (ns.push n)) := by
  intro p m h
  obtain ⟨hp, hl⟩ := lt_of_known h
  have hne : p ∉ ns.size :: opens := by simp [hp, hl.ne]
  rw [known_of_not_mem hp] at h
  rw [known_of_not_mem hne, Array.getElem?_push_lt hl, ← Array.getElem?_eq_getElem hl, h]

theorem known_close : (known (p :: opens) ns).Extends (known opens (ns.setIfInBounds p n)) := by
  intro q m h
  obtain ⟨hq, hl⟩ := lt_of_known h
  simp only [List.mem_cons, not_or] at hq
  rw [known_of_not_mem (by simp [hq])] at h
  rw [known_of_not_mem hq.2, Array.getElem?_setIfInBounds_ne (Ne.symm hq.1), h]

theorem known_closed (ho : p ∉ opens) (hp : p < ns.size) :
    known opens (ns.setIfInBounds p n) p = some n := by
  rw [known_of_not_mem ho, Array.getElem?_setIfInBounds_self_of_lt hp]

end Known

end RouteAtlas.Yaml
