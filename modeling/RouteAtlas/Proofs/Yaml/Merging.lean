import Mathlib
import RouteAtlas.Yaml.Merge

/-!
# Merges come to an end

Every merge takes a merge key away and brings none, so that no chain of merges is longer than there
are entries.
-/

namespace RouteAtlas.Yaml

/-- A result with a property; only a fault of the form may stand in its place. -/
def Yields {α : Type} (P : α → Prop) : Except LoadError α → Prop
  | .ok a => P a
  | .error e => e = .malformed

namespace Yields

variable {α β : Type} {P : α → Prop} {Q : β → Prop}

theorem malformed : Yields P (.error .malformed) := rfl

theorem bind {x : Except LoadError α} {f : α → Except LoadError β} (h : Yields P x)
    (hf : ∀ a, P a → Yields Q (f a)) : Yields Q (x >>= f) := by
  cases x with
  | ok a => exact hf a h
  | error e => exact h

theorem mono {P' : α → Prop} {x : Except LoadError α} (h : Yields P x) (hp : ∀ a, P a → P' a) :
    Yields P' x := by
  cases x with
  | ok a => exact hp a h
  | error e => exact h

theorem foldlM {f : α → β → Except LoadError α} (hf : ∀ a b, P a → Yields P (f a b)) (l : List β)
    {a : α} (ha : P a) : Yields P (l.foldlM f a) := by
  induction l generalizing a with
  | nil => exact ha
  | cons b l ih => exact (hf a b ha).bind fun a' h => ih h

end Yields

theorem sum_set {l : List Nat} {i a b : Nat} (h : l[i]? = some a) :
    (l.set i b).sum + a = l.sum + b := by
  induction l generalizing i with
  | nil => cases h
  | cons x l ih =>
    cases i with
    | zero =>
      cases h
      simp only [List.set_cons_zero, List.sum_cons]
      omega
    | succ i =>
      have := ih (i := i) (by simpa using h)
      simp only [List.set_cons_succ, List.sum_cons]
      omega

/-- Mappings may have other entries. -/
def Content.Keeps : Content → Content → Prop
  | .mapping _, .mapping _ => True
  | c, c' => c = c'

structure Node.Keeps (n n' : Node) : Prop where
  tag : n'.tag = n.tag ∨ n.tag = .value ∧ n'.tag = .str
  content : n.content.Keeps n'.content

theorem Content.Keeps.refl (c : Content) : c.Keeps c := by
  cases c <;> simp [Content.Keeps]

theorem Node.Keeps.trans {n n' n'' : Node} (h : n.Keeps n') (h' : n'.Keeps n'') :
    n.Keeps n'' := by
  constructor
  · rcases h.tag with ht | ⟨hv, ht⟩ <;> rcases h'.tag with ht' | ⟨hv', ht'⟩ <;> simp_all
  · have hc := h.content
    have hc' := h'.content
    revert hc hc'
    cases n.content <;> cases n'.content <;> cases n''.content <;> simp_all [Content.Keeps]

def Node.merges (m : Nat → Bool) (n : Node) : Nat :=
  match n.content with
  | .mapping es => es.countP fun e => m e.1
  | _ => 0

namespace Nodes

/-- Nodes that differ by merges only. -/
structure Keep (ns ns' : Nodes) : Prop where
  size : ns'.size = ns.size
  keeps {p : Nat} {n' : Node} (h : ns'[p]? = some n') : ∃ n, ns[p]? = some n ∧ n.Keeps n'

def mergeCount (m : Nat → Bool) (ns : Nodes) : Nat := (ns.toList.map (Node.merges m)).sum

def Marks (m : Nat → Bool) (ns : Nodes) : Prop := ∀ p, m p = true ↔ ns.tagAt p = .merge

variable {m : Nat → Bool} {ns ns' ns'' : Nodes} {p : Nat} {n n' : Node}
  {es rest : List (Nat × Nat)}

theorem Keep.refl (ns : Nodes) : ns.Keep ns := ⟨rfl, fun h => ⟨_, h, .inl rfl, .refl _⟩⟩

theorem Keep.trans (h : ns.Keep ns') (h' : ns'.Keep ns'') : ns.Keep ns'' := by
  refine ⟨h'.size.trans h.size, fun hn => ?_⟩
  obtain ⟨n', hn', hk'⟩ := h'.keeps hn
  obtain ⟨n, hn, hk⟩ := h.keeps hn'
  exact ⟨n, hn, hk.trans hk'⟩

theorem keep_set (hn : ns[p]? = some n) (h : n.Keeps n') : ns.Keep (ns.setIfInBounds p n') := by
  refine ⟨by simp, fun {q x} hx => ?_⟩
  rw [Array.getElem?_setIfInBounds] at hx
  split at hx
  · rename_i hpq
    subst hpq
    split at hx
    · cases hx
      exact ⟨n, hn, h⟩
    · cases hx
  · exact ⟨x, hx, .inl rfl, .refl _⟩

theorem Keep.marks (h : ns.Keep ns') (hm : Marks m ns) : Marks m ns' := by
  intro q
  rw [hm q]
  unfold tagAt
  cases hq : ns'[q]? with
  | none =>
    have : ns[q]? = none := by
      rw [Array.getElem?_eq_none_iff] at hq ⊢
      exact h.size ▸ hq
    simp [this]
  | some n' =>
    obtain ⟨n, hn, hk⟩ := h.keeps hq
    rcases hk.tag with ht | ⟨hv, ht⟩ <;> simp [*]

theorem exists_of_entries? (h : ns.entries? p = some es) :
    ∃ n, ns[p]? = some n ∧ n.content = .mapping es := by
  unfold entries? at h
  split at h
  · rename_i es' hc
    cases h
    obtain ⟨n, hn, hc⟩ := Option.map_eq_some_iff.1 hc
    exact ⟨n, hn, hc⟩
  · cases h

theorem keep_setEntries (h : ns.entries? p = some es) (es' : List (Nat × Nat)) :
    ns.Keep (ns.setEntries p es') := by
  obtain ⟨n, hn, hc⟩ := exists_of_entries? h
  refine keep_set hn ⟨.inl ?_, hc ▸ trivial⟩
  simp [tagAt, hn]

theorem keep_retag (ns : Nodes) (key : Nat) : ns.Keep (ns.retag key) := by
  unfold retag
  split
  · rename_i n hn
    split
    · rename_i ht
      exact keep_set hn ⟨.inr ⟨ht, rfl⟩, .refl _⟩
    · exact .refl ns
  · exact .refl ns

theorem mergeCount_set (hn : ns[p]? = some n) (n' : Node) :
    mergeCount m (ns.setIfInBounds p n') + n.merges m = mergeCount m ns + n'.merges m := by
  unfold mergeCount
  rw [Array.toList_setIfInBounds, List.map_set]
  exact sum_set (by simp [hn])

theorem merges_mapping (t : Tag) : Node.merges m ⟨t, .mapping es⟩ = es.countP fun e => m e.1 := rfl

theorem mergeCount_setEntries (h : ns.entries? p = some es) (es' : List (Nat × Nat)) :
    mergeCount m (ns.setEntries p es') + es.countP (fun e => m e.1) =
      mergeCount m ns + es'.countP fun e => m e.1 := by
  obtain ⟨n, hn, hc⟩ := exists_of_entries? h
  have hs := mergeCount_set (m := m) hn ⟨ns.tagAt p, .mapping es'⟩
  have he : n.merges m = es.countP fun e => m e.1 := by simp [Node.merges, hc]
  rwa [he, merges_mapping] at hs

theorem mergeCount_retag (ns : Nodes) (key : Nat) :
    mergeCount m (ns.retag key) = mergeCount m ns := by
  unfold retag
  split
  · rename_i n hn
    split
    · have := mergeCount_set (m := m) hn { n with tag := .str }
      have hm : Node.merges m { n with tag := .str } = n.merges m := rfl
      omega
    · rfl
  · rfl

theorem entries?_retag (ns : Nodes) (key p : Nat) : (ns.retag key).entries? p = ns.entries? p := by
  have hc : ((ns.retag key)[p]?).map Node.content = (ns[p]?).map Node.content := by
    unfold retag
    split
    · rename_i n hn
      split
      · have hk := (Array.getElem?_eq_some_iff.1 hn).1
        by_cases hp : key = p
        · subst hp
          rw [Array.getElem?_setIfInBounds_self_of_lt hk, hn]
          rfl
        · rw [Array.getElem?_setIfInBounds_ne hp]
      · rfl
    · rfl
  rw [entries?, hc, entries?]

theorem entries?_setEntries (h : ns.entries? p = some es) (es' : List (Nat × Nat)) :
    (ns.setEntries p es').entries? p = some es' := by
  obtain ⟨n, hn, -⟩ := exists_of_entries? h
  have hp := (Array.getElem?_eq_some_iff.1 hn).1
  simp [entries?, setEntries, hp]

theorem foldl_retag (ks : List Nat) (ns : Nodes) : ns.Keep (ks.foldl retag ns) ∧
    mergeCount m (ks.foldl retag ns) = mergeCount m ns ∧
    ∀ p, (ks.foldl retag ns).entries? p = ns.entries? p := by
  induction ks generalizing ns with
  | nil => exact ⟨.refl ns, rfl, fun _ => rfl⟩
  | cons k ks ih =>
    obtain ⟨hk, hc, he⟩ := ih (ns.retag k)
    refine ⟨(keep_retag ns k).trans hk, hc.trans (mergeCount_retag ns k), fun p => ?_⟩
    exact (he p).trans (entries?_retag ns k p)

theorem countP_eq_zero (h : ∀ e ∈ es, m e.1 = false) : es.countP (fun e => m e.1) = 0 :=
  List.countP_eq_zero.2 fun e he => Bool.eq_false_iff.1 (h e he)

theorem clear_of_takeMerge (hm : Marks m ns) (h : ns.takeMerge es = none) :
    ∀ e ∈ es, m e.1 = false := by
  induction es with
  | nil => exact fun _ he => absurd he List.not_mem_nil
  | cons e es ih =>
    rw [takeMerge] at h
    split at h
    · cases h
    · rename_i hk
      refine List.forall_mem_cons.2 ⟨?_, ih (by simpa using h)⟩
      exact Bool.eq_false_iff.2 fun h => hk ((hm e.1).1 h)

theorem countP_of_takeMerge {value : Nat} (hm : Marks m ns)
    (h : ns.takeMerge es = some (value, rest)) :
    es.countP (fun e => m e.1) = rest.countP (fun e => m e.1) + 1 := by
  induction es generalizing rest with
  | nil => cases h
  | cons e es ih =>
    rw [takeMerge] at h
    split at h
    · rename_i hk
      cases h
      simp [(hm e.1).2 hk]
    · rename_i hk
      obtain ⟨⟨v, r⟩, hr, h⟩ := Option.map_eq_some_iff.1 h
      cases h
      have hk : ¬ m e.1 = true := fun h => hk ((hm e.1).1 h)
      simp [hk, ih hr]

/-- What resolving the merge keys of a mapping gives: the nodes are kept, there are no more merge
keys than before, and the mapping has none. -/
structure Resolves (m : Nat → Bool) (ns ns' : Nodes) (place : Nat) : Prop where
  keep : ns.Keep ns'
  count : mergeCount m ns' ≤ mergeCount m ns
  clear {es : List (Nat × Nat)} (h : ns'.entries? place = some es) : ∀ e ∈ es, m e.1 = false

/-- What the sources of a merge have brought so far. -/
structure Gathers (m : Nat → Bool) (ns : Nodes) (q : List (Nat × Nat) × Nodes) : Prop where
  keep : ns.Keep q.2
  count : mergeCount m q.2 ≤ mergeCount m ns
  clear : ∀ e ∈ q.1, m e.1 = false

/-- A mapping without a merge key takes what was brought to it. -/
theorem resolves_unmerged {merged : List (Nat × Nat)} {place : Nat}
    (hes : ns.entries? place = some es) (hclear : ∀ e ∈ es, m e.1 = false)
    (hmerged : ∀ e ∈ merged, m e.1 = false) :
    Resolves m ns (if merged.isEmpty then (es.map (·.1)).foldl retag ns
      else ((es.map (·.1)).foldl retag ns).setEntries place (merged ++ es)) place := by
  obtain ⟨hk, hc, he⟩ := foldl_retag (m := m) (es.map (·.1)) ns
  have hes' := (he place).trans hes
  split
  · refine ⟨hk, hc.le, fun h => ?_⟩
    cases hes'.symm.trans h
    exact hclear
  · have hall : ∀ e ∈ merged ++ es, m e.1 = false :=
      fun e h => (List.mem_append.1 h).elim (hmerged e) (hclear e)
    refine ⟨hk.trans (keep_setEntries hes' _), ?_, fun h => ?_⟩
    · have := mergeCount_setEntries (m := m) hes' (merged ++ es)
      rw [countP_eq_zero hall, countP_eq_zero hclear] at this
      omega
    · cases (entries?_setEntries hes' _).symm.trans h
      exact hall

theorem mergeCount_takeMerge {place value : Nat} (hm : Marks m ns)
    (hes : ns.entries? place = some es) (h : ns.takeMerge es = some (value, rest)) :
    mergeCount m (ns.setEntries place rest) < mergeCount m ns := by
  have hc := mergeCount_setEntries (m := m) hes rest
  rw [countP_of_takeMerge hm h] at hc
  omega

theorem gathers_nil (ns : Nodes) : Gathers m ns ([], ns) :=
  ⟨.refl ns, Nat.le_refl _, fun _ h => absurd h List.not_mem_nil⟩

/-- A source whose own merge keys are resolved brings its entries. -/
theorem Gathers.source {q : List (Nat × Nat) × Nodes} {ns' : Nodes} {source : Nat}
    (hq : Gathers m ns q) (h : Resolves m q.2 ns' source) (he : ns'.entries? source = some es) :
    Gathers m ns (es ++ q.1, ns') :=
  ⟨hq.keep.trans h.keep, h.count.trans hq.count,
    fun e hm => (List.mem_append.1 hm).elim (h.clear he e) (hq.clear e)⟩

theorem resolves {fuel : Nat} {merged : List (Nat × Nat)} {place : Nat} (hm : Marks m ns)
    (hmerged : ∀ e ∈ merged, m e.1 = false) (hf : mergeCount m ns < fuel) :
    Yields (Resolves m ns · place) (ns.resolve merged place fuel) := by
  induction fuel generalizing ns merged place with
  | zero => omega
  | succ fuel ih =>
    rw [resolve]
    split
    · exact .malformed
    rename_i es hes
    split
    · rename_i hnone
      exact resolves_unmerged hes (clear_of_takeMerge hm hnone) hmerged
    · rename_i value rest hsome
      extract_lets ns₁ finish
      have hk : ns.Keep ns₁ := keep_setEntries hes rest
      have hc : mergeCount m ns₁ < mergeCount m ns := mergeCount_takeMerge hm hes hsome
      have hm₁ := hk.marks hm
      -- The merge key that is taken away pays for the merges of all its sources.
      have hfinish (sources : List Nat) : Yields (Resolves m ns · place) (finish sources) := by
        refine Yields.bind (Yields.foldlM (P := Gathers m ns₁) (fun q source hq => ?_) sources
          (gathers_nil ns₁)) fun q hq => ?_
        · have := hq.count
          refine Yields.bind (ih (hq.keep.marks hm₁) (fun _ h => absurd h List.not_mem_nil)
            (by omega)) fun ns₂ h => ?_
          split
          · rename_i es' hes'
            exact hq.source h hes'
          · exact .malformed
        · have := hq.count
          refine (ih (hq.keep.marks hm₁)
            (fun e h => (List.mem_append.1 h).elim (hmerged e) (hq.clear e))
            (by omega)).mono fun ns₂ h => ?_
          exact ⟨hk.trans (hq.keep.trans h.keep), (h.count.trans hq.count).trans hc.le, h.clear⟩
      split
      · exact hfinish [value]
      · exact hfinish _
      · exact .malformed

theorem mergeCount_le (m : Nat → Bool) (ns : Nodes) : mergeCount m ns ≤ ns.entryCount := by
  have h (l : List Node) (k : Nat) : (l.map (Node.merges m)).sum + k ≤ l.foldl (fun n x =>
      match x.content with
      | .mapping es => n + es.length
      | _ => n) k := by
    induction l generalizing k with
    | nil => simp
    | cons x l ih =>
      obtain ⟨tag, content⟩ := x
      rw [List.map_cons, List.sum_cons, List.foldl_cons]
      cases content with
      | scalar t => simpa [Node.merges] using ih k
      | sequence ps => simpa [Node.merges] using ih k
      | mapping es =>
        have hl := List.countP_le_length (p := fun e : Nat × Nat => m e.1) (l := es)
        have := ih (k + es.length)
        rw [merges_mapping]
        dsimp only
        omega
  unfold entryCount mergeCount
  rw [← Array.foldl_toList]
  exact h ns.toList 0

end Nodes

end RouteAtlas.Yaml
