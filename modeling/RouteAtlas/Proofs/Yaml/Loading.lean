import RouteAtlas.Proofs.Yaml.Making
import RouteAtlas.Proofs.Yaml.Merging
import RouteAtlas.Proofs.Yaml.Nesting

/-!
# What stops the loading of YAML text

A well-formed text is refused for a scalar without a value, for a mapping in the place of one, or
for its nesting.
-/

namespace RouteAtlas.Yaml

/-- A node that has no value: a scalar that its tag cannot read, or a mapping that stands for a
scalar. -/
inductive Node.Fails : Node → LoadError → Prop
  | scalar {tag : Tag} {t : Text} {e : LoadError} (h : scalarValue tag t = .error e) :
      Node.Fails ⟨tag, .scalar t⟩ e
  | mapping {tag : Tag} (es : List (Nat × Nat)) (e : LoadError) (h : tag.collection? = none) :
      Node.Fails ⟨tag, .mapping es⟩ e

theorem Node.Fails.of_keeps {n n' : Node} {e : LoadError} (h : n'.Fails e) (hk : n.Keeps n') :
    n.Fails e := by
  obtain ⟨tag, content⟩ := n
  obtain ⟨ht, hc⟩ := hk
  cases h with
  | @scalar tag' t _ h =>
    obtain rfl : content = .scalar t := by
      cases content <;> simp_all [Content.Keeps]
    rcases ht with rfl | ⟨-, rfl⟩
    · exact .scalar h
    · cases h
  | @mapping tag' es _ h =>
    obtain ⟨es', rfl⟩ : ∃ es', content = .mapping es' := by
      cases content <;> simp_all [Content.Keeps]
    refine .mapping es' e ?_
    rcases ht with rfl | ⟨rfl, -⟩
    · exact h
    · rfl

namespace Nodes

variable {ns : Nodes} {place : Nat} {e : LoadError}

theorem fails_of_scalar (hc : (ns.tagAt place).collection? = none)
    (h : ns.scalar place = .error e) :
    e = .malformed ∨ ∃ n, ns[place]? = some n ∧ n.Fails e := by
  cases hn : ns[place]? with
  | none =>
    have ht : ns.text maxDepth place = .error .malformed := by simp [maxDepth, text, hn]
    rw [scalar, ht] at h
    cases h
    exact .inl rfl
  | some n =>
    obtain ⟨tag, content⟩ := n
    have htag : ns.tagAt place = tag := by simp [tagAt, hn]
    cases content with
    | mapping es => exact .inr ⟨_, rfl, .mapping es e (htag ▸ hc)⟩
    | sequence ps =>
      have ht : ns.text maxDepth place = .error .malformed := by simp [maxDepth, text, hn]
      rw [scalar, ht] at h
      cases h
      exact .inl rfl
    | scalar t =>
      have ht : ns.text maxDepth place = .ok t := by simp [maxDepth, text, hn]
      have he : ns.entries? place = none := by simp [entries?, hn]
      rw [scalar, ht] at h
      simp only [bind, Except.bind, he, htag] at h
      exact .inr ⟨_, rfl, .scalar (by simpa using h)⟩

end Nodes

namespace Making

def marks (g : Graph) (p : Nat) : Bool := decide (g.nodes.tagAt p = .merge)

/-- The nodes of a making are those of its document up to merges, some of them with values. -/
structure Fits (g : Graph) (s : Making) : Prop where
  keep : g.nodes.Keep s.nodes
  size : s.values.size = s.nodes.size
  count : s.nodes.mergeCount (marks g) < g.nodes.entryCount + 1

/-- No more nodes lack a value, and every collection that is due lacked one before. -/
structure Onward (s s' : Making) : Prop where
  missing : s'.missing ≤ s.missing
  due : s'.due.length + s'.missing ≤ s.due.length + s.missing

variable {g : Graph} {s s' s'' : Making} {place : Nat} {v : Value}

theorem Onward.refl (s : Making) : s.Onward s := ⟨Nat.le_refl _, Nat.le_refl _⟩

theorem Onward.trans (h : s.Onward s') (h' : s'.Onward s'') : s.Onward s'' :=
  ⟨h'.missing.trans h.missing, h'.due.trans h.due⟩

theorem Fits.given (hs : s.Fits g) (v : Value) : (s.given place v).Fits g :=
  ⟨hs.keep, by simpa [Making.given] using hs.size, hs.count⟩

theorem getElem?_eq_none_or (h : ∀ v, s.values[place]? ≠ some (some v)) :
    s.values[place]? = none ∨ s.values[place]? = some none := by
  cases ho : s.values[place]? with
  | none => exact .inl rfl
  | some o =>
    cases o with
    | none => exact .inr rfl
    | some v => exact absurd ho (h v)

theorem onward_given (h : ∀ v, s.values[place]? ≠ some (some v)) (v : Value) :
    s.Onward (s.given place v) := by
  obtain ho | ho := getElem?_eq_none_or h
  · rw [Making.given, Array.setIfInBounds_eq_of_size_le (Array.getElem?_eq_none_iff.1 ho)]
    exact .refl s
  · have h := Nat.le_of_lt (Nat.lt_of_succ_le (missing_given (u := v) ho).le)
    exact ⟨h, Nat.add_le_add_left h _⟩

/-- A collection takes its place, and the node gets its first value. -/
theorem onward_placed (h : s.values[place]? = some none) (c : Collection) :
    s.Onward (s.placed place c) := by
  have h : (s.placed place c).missing + 1 = s.missing := missing_given h
  have hd : (s.placed place c).due.length = s.due.length + 1 := rfl
  exact ⟨by omega, by omega⟩

end Making

namespace Maker

/-- A result in a later state of the making, or an error that a node of the document accounts
for. -/
def Runs {α : Type} (g : Graph) (s : Making) (x : Maker α) : Prop :=
  Outcome s x (fun s' => s'.Fits g ∧ s.Onward s') fun e => e = .malformed ∨ ∃ n ∈ g.nodes, n.Fails e

variable {α β : Type} {g : Graph} {s s' : Making}

namespace Runs

theorem malformed : Runs g s (throw .malformed : Maker α) := .inl rfl

theorem pure (hs : s.Fits g) (a : α) : Runs g s (Pure.pure a : Maker α) := ⟨hs, .refl s⟩

theorem bind {x : Maker α} {f : α → Maker β} (h : Runs g s x)
    (hf : ∀ a s', s'.Fits g → Runs g s' (f a)) : Runs g s (x >>= f) :=
  Outcome.bind h fun a s' hs => Outcome.mono (hf a s' hs.1)
    (fun _ h => ⟨h.1, hs.2.trans h.2⟩) fun _ => id

theorem get {f : Making → Maker α} (h : Runs g s (f s)) : Runs g s (MonadState.get >>= f) := h

theorem mapM {f : α → Maker β} (hf : ∀ a s, s.Fits g → Runs g s (f a)) (l : List α)
    (hs : s.Fits g) : Runs g s (l.mapM f) := by
  induction l generalizing s with
  | nil => exact .pure hs []
  | cons a l ih =>
    rw [List.mapM_cons]
    exact (hf a s hs).bind fun b s' hs' => (ih hs').bind fun bs s'' hs'' => .pure hs'' _

theorem foldlM {f : β → α → Maker β} (hf : ∀ b a s, s.Fits g → Runs g s (f b a)) (l : List α)
    (hs : s.Fits g) (b : β) : Runs g s (l.foldlM f b) := by
  induction l generalizing s b with
  | nil => exact .pure hs b
  | cons a l ih =>
    rw [List.foldlM_cons]
    exact (hf b a s hs).bind fun b' s' hs' => ih hs' b'

theorem forM {f : α → Maker Unit} (hf : ∀ a s, s.Fits g → Runs g s (f a)) (l : List α)
    (hs : s.Fits g) : Runs g s (l.forM f) := by
  induction l generalizing s with
  | nil => exact .pure hs ()
  | cons a l ih => exact (hf a s hs).bind fun _ s' hs' => ih hs'

end Runs

theorem runs_value (place : Nat) (hs : s.Fits g) : Runs g s (value place) := by
  unfold value
  refine .get ?_
  split
  · exact .pure hs _
  · rename_i hv
    split
    · rename_i c hc
      -- A node of the document has its place among the values.
      have hp : place < s.values.size := by
        by_contra hp
        rw [hs.size] at hp
        simp [Nodes.tagAt, hp, Tag.collection?] at hc
      obtain ho | ho := Making.getElem?_eq_none_or hv
      · exact absurd hp (Nat.not_lt.2 (Array.getElem?_eq_none_iff.1 ho))
      · exact ⟨⟨hs.keep, by simpa using hs.size, hs.count⟩, Making.onward_placed ho c⟩
    · rename_i hc
      split
      · rename_i v _
        exact ⟨hs.given v, Making.onward_given hv v⟩
      · rename_i e he
        obtain rfl | ⟨n, hn, hf⟩ := Nodes.fails_of_scalar hc he
        · exact .malformed
        · obtain ⟨n₀, hn₀, hk⟩ := hs.keep.keeps hn
          exact .inr ⟨n₀, Array.mem_of_getElem? hn₀, hf.of_keeps hk⟩

theorem runs_content (place : Nat) (hs : s.Fits g) : Runs g s (content place) := by
  unfold content
  refine .get ?_
  split
  · exact .pure hs _
  · exact .malformed

theorem runs_pair (place : Nat) (hs : s.Fits g) : Runs g s (pair place) := by
  refine (runs_content place hs).bind fun c s hs => ?_
  split
  · rename_i k v
    refine (runs_value k hs).bind fun k s hs => ?_
    refine (runs_value v hs).bind fun v s hs => ?_
    exact ⟨⟨hs.keep, hs.size, hs.count⟩, Nat.le_refl _, Nat.le_refl _⟩
  · exact .malformed

theorem runs_entries (place : Nat) (hs : s.Fits g) :
    Runs g s (entries (g.nodes.entryCount + 1) place) := by
  unfold entries
  refine .get ?_
  have hm : Nodes.Marks (Making.marks g) s.nodes := hs.keep.marks fun p => by simp [Making.marks]
  have hr : Yields (Nodes.Resolves (Making.marks g) s.nodes · place)
      (s.nodes.resolve [] place (g.nodes.entryCount + 1)) :=
    Nodes.resolves hm (fun _ h => absurd h List.not_mem_nil) hs.count
  split
  · rename_i e he
    rw [he] at hr
    exact .inl hr
  · rename_i ns hns
    rw [hns] at hr
    have hs' : { s with nodes := ns }.Fits g := ⟨hs.keep.trans hr.keep,
      hs.size.trans hr.keep.size.symm, hr.count.trans_lt hs.count⟩
    refine Runs.bind (x := modify _) ⟨hs', Nat.le_refl _, Nat.le_refl _⟩ fun _ s hs => ?_
    refine (Runs.foldlM (fun es e s hs => ?_) _ hs []).bind fun es s hs => .pure hs _
    refine (runs_value e.1 hs).bind fun k s hs => ?_
    refine iteInduction (fun _ => .malformed) fun _ => ?_
    exact (runs_value e.2 hs).bind fun v s hs => .pure hs _

theorem runs_parts (place : Nat) (hs : s.Fits g) :
    Runs g s (parts (g.nodes.entryCount + 1) place) := by
  unfold parts
  refine .get ((runs_content place hs).bind fun c s hs => ?_)
  split
  · exact (Runs.mapM (fun p s hs => runs_value p hs) _ hs).bind fun _ _ hs => .pure hs _
  · exact (Runs.mapM (fun p s hs => runs_pair p hs) _ hs).bind fun _ _ hs => .pure hs _
  · exact (Runs.mapM (fun p s hs => runs_pair p hs) _ hs).bind fun _ _ hs => .pure hs _
  · exact (runs_entries place hs).bind fun _ _ hs => .pure hs _
  · exact (runs_entries place hs).bind fun _ _ hs => .pure hs _
  · exact .malformed

theorem runs_round (due : List (Nat × Nat)) (hs : s.Fits g) :
    Runs g s (due.forM fun (place, spot) => do
      let c ← parts (g.nodes.entryCount + 1) place
      modify fun s => { s with collections := s.collections.setIfInBounds spot c }) := by
  refine .forM (fun (place, spot) s hs => (runs_parts place hs).bind fun c s hs => ?_) due hs
  have hs' : { s with collections := s.collections.setIfInBounds spot c }.Fits g :=
    ⟨hs.keep, hs.size, hs.count⟩
  exact ⟨hs', Nat.le_refl _, Nat.le_refl _⟩

/-- Every round has a collection that is due for the first time. -/
theorem runs_complete {rounds : Nat} (hs : s.Fits g) (hr : s.missing < rounds)
    (hd : s.due ≠ [] → s.missing + 1 < rounds) :
    Runs g s (complete (g.nodes.entryCount + 1) rounds) := by
  induction rounds generalizing s with
  | zero => omega
  | succ rounds ih =>
    rw [complete]
    refine .get ?_
    split
    · exact .pure hs ()
    · rename_i due hdue
      have hne : s.due ≠ [] := fun h => hdue (by simp [h])
      let emptied : Making := { s with due := [] }
      have hround := runs_round (s := emptied) s.due.reverse ⟨hs.keep, hs.size, hs.count⟩
      have hrest : Runs g emptied (do
          s.due.reverse.forM fun (place, spot) => do
            let c ← parts (g.nodes.entryCount + 1) place
            modify fun s => { s with collections := s.collections.setIfInBounds spot c }
          complete (g.nodes.entryCount + 1) rounds) := by
        refine Outcome.bind hround fun _ s' h => ?_
        have hu : s'.missing ≤ s.missing := h.2.missing
        have hdue : s'.due.length + s'.missing ≤ 0 + s.missing := h.2.due
        refine Outcome.mono (ih h.1 (by have := hd hne; omega) fun hne' => ?_)
          (fun _ h' => ⟨h'.1, h.2.trans h'.2⟩) fun _ => id
        have := List.length_pos_iff.2 hne'
        have := hd hne
        omega
      have hs' : s.Onward emptied := ⟨Nat.le_refl _, Nat.add_le_add_right (Nat.zero_le _) _⟩
      have hrest' := Outcome.mono hrest (fun _ h => And.intro h.1 (hs'.trans h.2)) fun _ => id
      exact hrest'.of_eq rfl

end Maker

inductive StopsLoad (t : Text) : LoadError → Prop
  | scan {e : LoadError} (h : StopsScan t e) : StopsLoad t e
  | tooDeep (h : Node.Reader.maxDepth < (Token.ofText t).length) : StopsLoad t .tooDeep
  | node {g : Graph} {n : Node} {e : LoadError} (hg : Graph.ofText t = .ok g) (hn : n ∈ g.nodes)
      (h : n.Fails e) : StopsLoad t e

theorem fails_of_load {g : Graph} {e : LoadError} (h : g.load = .error e) :
    e = .malformed ∨ ∃ n ∈ g.nodes, n.Fails e := by
  let start : Making := ⟨g.nodes, Array.replicate g.nodes.size none, #[], []⟩
  have hu : start.missing = g.nodes.size := by simp [start, Making.missing, List.countP_replicate]
  have hs : start.Fits g :=
    ⟨.refl _, by simp [start], Nat.lt_succ_of_le (Nodes.mergeCount_le _ _)⟩
  have hr : Maker.Runs g start (do
      let v ← Maker.value g.root
      Maker.complete (g.nodes.entryCount + 1) (g.nodes.size + 1)
      return v) := by
    refine Outcome.bind (Maker.runs_value g.root hs) fun v s hl => ?_
    have hu' := hl.2.missing
    have hd : s.due.length + s.missing ≤ 0 + start.missing := hl.2.due
    refine Outcome.mono ((Maker.runs_complete hl.1 (by omega) fun hne => ?_).bind
      fun _ s hs => .pure hs v) (fun _ h => ⟨h.1, hl.2.trans h.2⟩) fun _ => id
    have := List.length_pos_iff.2 hne
    omega
  have hl : g.load = Except.bind (StateT.run (do
      let v ← Maker.value g.root
      Maker.complete (g.nodes.entryCount + 1) (g.nodes.size + 1)
      return v) start) fun p => .ok ⟨p.2.collections, p.1⟩ := rfl
  rw [hl] at h
  unfold Maker.Runs Outcome at hr
  split at hr
  · rename_i p hp
    rw [StateT.run, hp] at h
    cases h
  · rename_i x hx
    rw [StateT.run, hx] at h
    cases h
    exact hr

theorem stopsLoad_of_load {t : Text} {e : LoadError} (h : load t = .error e) :
    StopsLoad t e := by
  unfold load at h
  cases hg : Graph.ofText t with
  | error x =>
    rw [hg] at h
    cases h
    obtain hs | ⟨rfl, hd⟩ := stops_of_graph hg
    · exact .scan hs
    · exact .tooDeep hd
  | ok g =>
    rw [hg] at h
    obtain rfl | ⟨n, hn, hf⟩ := fails_of_load (g := g) h
    · exact .scan .malformed
    · exact .node hg hn hf

end RouteAtlas.Yaml
