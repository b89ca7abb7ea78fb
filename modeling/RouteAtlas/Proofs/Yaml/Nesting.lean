import RouteAtlas.Proofs.Yaml.Reader
import RouteAtlas.Proofs.Yaml.Tracing

/-!
# What stops the reader of nodes

The reader goes forward in its tokens, one for every collection at least. So it may stop for too
many open collections only where there are more tokens.
-/

namespace RouteAtlas.Yaml.Node

/-- What can stop a reading of tokens; `n` bounds the collections that can be open. -/
inductive Stops (ts : List Token) (n : Nat) : LoadError → Prop
  | malformed : Stops ts n .malformed
  | scan {e : LoadError} (h : .failure e ∈ ts) : Stops ts n e
  | tooDeep (h : Reader.maxDepth < n) : Stops ts n .tooDeep

/-- A reading that has gone on in its tokens, with no more and no fewer collections open. -/
structure Reading.Later (s s' : Reading) : Prop where
  tokens : s'.tokens <:+ s.tokens
  depth : s'.depth = s.depth

/-- A result that is later in the tokens, or an error that they account for. -/
def Reader.Goes {α : Type} (n : Nat) (s : Reading) (x : Reader α) : Prop :=
  Outcome s x s.Later (Stops s.tokens n)

variable {α β : Type} {n m : Nat} {s s' s'' : Reading}

theorem Stops.mono {ts ts' : List Token} {e : LoadError} (h : Stops ts' m e)
    (ht : ∀ x ∈ ts', x ∈ ts) (hn : m ≤ n) : Stops ts n e := by
  cases h with
  | malformed => exact .malformed
  | scan h => exact .scan (ht _ h)
  | tooDeep h => exact .tooDeep (h.trans_le hn)

namespace Reading

theorem Later.refl (s : Reading) : s.Later s := ⟨List.suffix_refl _, rfl⟩

theorem Later.trans (h : s.Later s') (h' : s'.Later s'') : s.Later s'' :=
  ⟨h'.tokens.trans h.tokens, h'.depth.trans h.depth⟩

def Fits (s : Reading) (n : Nat) : Prop := s.depth + s.tokens.length ≤ n

theorem Fits.later (h : s.Fits n) (hs : s.Later s') : s'.Fits n := by
  have := hs.tokens.length_le
  have := hs.depth
  unfold Fits at h ⊢
  omega

def behind (s : Reading) : Reading := { s with tokens := s.tokens.tail }

theorem later_behind (s : Reading) : s.Later s.behind := ⟨List.tail_suffix _, rfl⟩

theorem Fits.behind {t : Token} (h : s.Fits n) (ht : s.tokens.head? = some t) :
    s.depth + s.behind.tokens.length < n := by
  obtain ⟨r, hr⟩ := List.head?_eq_some_iff.1 ht
  simp only [Fits, Reading.behind, hr, List.length_cons, List.tail_cons] at h ⊢
  omega

end Reading

open Reading

namespace Reader

namespace Goes

theorem malformed : Goes n s (Reader.malformed : Reader α) := Stops.malformed

theorem pure (a : α) : Goes n s (Pure.pure a : Reader α) := Later.refl s

/-- What is done later may stop for what stops it there. -/
theorem of_later {x : Reader α} (hs : s.Later s') (h : Goes n s' x) :
    Outcome s' x s.Later (Stops s.tokens n) :=
  Outcome.mono h (fun _ => hs.trans) fun _ h =>
    h.mono (fun _ hx => hs.tokens.subset hx) (Nat.le_refl n)

theorem bind {x : Reader α} {f : α → Reader β} (h : Goes n s x)
    (hf : ∀ a s', s.Later s' → Goes n s' (f a)) : Goes n s (x >>= f) :=
  Outcome.bind h fun a s' hs => (hf a s' hs).of_later hs

theorem map {x : Reader α} (f : α → β) (h : Goes n s x) : Goes n s (f <$> x) := by
  rw [map_eq_pure_bind]
  exact h.bind fun a _ _ => .pure (f a)

theorem get {f : Reading → Reader α} (h : Goes n s (f s)) : Goes n s (MonadState.get >>= f) := h

theorem peek {f : Token → Reader α} (hf : ∀ t, s.tokens.head? = some t → Goes n s (f t)) :
    Goes n s (Reader.peek >>= f) := by
  obtain ⟨ts, handles, nodes, anchors, depth⟩ := s
  cases ts with
  | nil => exact Stops.malformed
  | cons t r =>
    cases t with
    | failure e => exact Stops.scan List.mem_cons_self
    | _ => exact hf _ rfl

theorem skip {f : Unit → Reader α} (hf : Goes n s.behind (f ())) :
    Goes n s (Reader.skip >>= f) :=
  (hf.of_later s.later_behind).of_eq rfl

end Goes

theorem goes_skip (n : Nat) (s : Reading) : Goes n s Reader.skip := s.later_behind

theorem goes_expect (n : Nat) (s : Reading) (t : Token) : Goes n s (expect t) := by
  refine .peek fun t' _ => ?_
  exact iteInduction (fun _ => goes_skip n s) fun _ => .malformed

theorem goes_anchored (n : Nat) (s : Reading) (name : Text) : Goes n s (anchored name) := by
  refine .get ?_
  split
  · exact .pure _
  · exact .malformed

theorem Goes.requireNew {anchor : Option Text} {f : Unit → Reader α} (hf : Goes n s (f ())) :
    Goes n s (Reader.requireNew anchor >>= f) := by
  cases anchor with
  | none => exact hf
  | some name =>
    have heq : (Reader.requireNew (some name) >>= f) s =
        (if (s.anchors.lookup name).isSome then Reader.malformed else f ()) s := by
      simp only [Reader.requireNew, Bind.bind, StateT.bind, MonadState.get, getThe,
        MonadStateOf.get, StateT.get, Pure.pure, Except.pure, Except.bind]
      by_cases h : (s.anchors.lookup name).isSome <;> simp only [h] <;> rfl
    exact Outcome.of_eq (iteInduction (fun _ => Goes.malformed) fun _ => hf) heq

theorem goes_add (n : Nat) (s : Reading) (anchor : Option Text) (x : Node) :
    Goes n s (add anchor x) := ⟨List.suffix_refl _, rfl⟩

theorem goes_nothing (n : Nat) (s : Reading) : Goes n s nothing := goes_add n s none _

theorem goes_fullTag (n : Nat) (s : Reading) (handle : Option Text) (suffix : Text) :
    Goes n s (fullTag handle suffix) := by
  unfold fullTag
  split
  · exact .pure _
  · refine .get ?_
    split
    · exact .pure _
    · exact .malformed

theorem goes_properties (n : Nat) (s : Reading) : Goes n s properties := by
  refine .peek fun t _ => ?_
  split
  · refine .skip (.peek fun t _ => ?_)
    split
    · exact .skip ((goes_fullTag _ _ _ _).bind fun _ _ _ => .pure _)
    · exact .pure _
  · refine .skip (.peek fun t _ => ?_)
    split
    · exact .skip ((goes_fullTag _ _ _ _).bind fun _ _ _ => .pure _)
    · exact (goes_fullTag _ _ _ _).bind fun _ _ _ => .pure _
  · exact .pure _

theorem goes_collect (anchor : Option Text) (tag : Tag) {parts : Reader Content}
    (hn : s.depth < n)
    (hp : ∀ s', s'.tokens <:+ s.tokens → s'.depth = s.depth + 1 → Goes n s' parts) :
    Goes n s (collect anchor tag parts) := by
  unfold collect
  refine (goes_add n s anchor _).bind fun place s' hs => .get ?_
  refine iteInduction (fun hd => Stops.tooDeep ?_) fun _ => ?_
  · exact (hs.depth ▸ hd).trans_lt hn
  · let inner : Reading := { s' with depth := s'.depth + 1 }
    have hparts := hp inner hs.tokens (congrArg (· + 1) hs.depth)
    have hclosed : Outcome inner (do
        let content ← parts
        modify fun s => { s with
          depth := s.depth - 1
          nodes := s.nodes.setIfInBounds place ⟨tag, content⟩ }
        return place) s'.Later (Stops s'.tokens n) :=
      Outcome.bind hparts fun _ _ h => ⟨h.tokens, Nat.sub_eq_of_eq_add h.depth⟩
    exact hclosed.of_eq rfl

end Reader

open Reader

theorem goes_emptyScalar (n : Nat) (s : Reading) (anchor tag : Option Text) :
    Goes n s (emptyScalar anchor tag) :=
  iteInduction (fun _ => goes_add n s anchor _) fun _ => .malformed

/-- What all parts of the reader do with the same fuel. The token of the first hanging item still
counts, although its collection is open already. -/
structure Advances (fuel : Nat) : Prop where
  read (block hanging : Bool) {n : Nat} {s : Reading} (hs : s.Fits n) :
    Goes n s (read block hanging fuel)
  readContent (block hanging : Bool) (anchor tag : Option Text) {t : Token} {n : Nat}
    {s : Reading} (ht : s.tokens.head? = some t) (hs : s.Fits n) :
    Goes n s (readContent block hanging anchor tag t fuel)
  readUnless (ends : List Token) (block hanging : Bool) {n : Nat} {s : Reading} (hs : s.Fits n) :
    Goes n s (readUnless ends block hanging fuel)
  readValue (ends : List Token) (block hanging : Bool) {n : Nat} {s : Reading} (hs : s.Fits n) :
    Goes n s (readValue ends block hanging fuel)
  blockItems {n : Nat} {s : Reading} (hs : s.Fits n) : Goes n s (blockItems fuel)
  hangingItems {n : Nat} {s : Reading} (hs : s.Fits (n + 1)) : Goes n s (hangingItems fuel)
  blockEntries {n : Nat} {s : Reading} (hs : s.Fits n) : Goes n s (blockEntries fuel)
  flowItems (isFirst : Bool) {n : Nat} {s : Reading} (hs : s.Fits n) :
    Goes n s (flowItems isFirst fuel)
  flowEntries (isFirst : Bool) {n : Nat} {s : Reading} (hs : s.Fits n) :
    Goes n s (flowEntries isFirst fuel)

theorem advances_zero : Advances 0 where
  read := by intros; exact .malformed
  readContent := by intros; exact .malformed
  readUnless := by intros; exact .malformed
  readValue := by intros; exact .malformed
  blockItems := by intros; exact .malformed
  hangingItems := by intros; exact .malformed
  blockEntries := by intros; exact .malformed
  flowItems := by intros; exact .malformed
  flowEntries := by intros; exact .malformed

namespace Advances

variable {fuel : Nat}

theorem read_succ (ih : Advances fuel) (block hanging : Bool) (hs : s.Fits n) :
    Goes n s (Node.read block hanging (fuel + 1)) := by
  rw [Node.read]
  refine .peek fun t _ => ?_
  split
  · exact .skip (goes_anchored _ _ _)
  · refine (goes_properties n s).bind fun p s' h => ?_
    obtain ⟨anchor, tag⟩ := p
    refine .peek fun t ht => ?_
    exact .requireNew (ih.readContent block hanging anchor tag ht (hs.later h))

/-- The token of a collection makes up for the collection that it opens. -/
theorem opened {t : Token} {tag : Tag} {parts : Reader Content} (anchor : Option Text)
    (hs : s.Fits n) (ht : s.tokens.head? = some t)
    (hp : ∀ s' : Reading, s'.Fits n → Goes n s' parts) :
    Goes n s.behind (collect anchor tag parts) := by
  have hb := hs.behind ht
  refine goes_collect _ _ (show s.depth < n by omega) fun s' hs' hd => hp s' ?_
  have := hs'.length_le
  have : s'.depth = s.depth + 1 := hd
  unfold Fits
  omega

theorem readContent_succ (ih : Advances fuel) (block hanging : Bool) (anchor tag : Option Text)
    {t : Token} (ht : s.tokens.head? = some t) (hs : s.Fits n) :
    Goes n s (Node.readContent block hanging anchor tag t (fuel + 1)) := by
  rw [Node.readContent.eq_def]
  dsimp only
  split
  · have hb := hs.behind ht
    refine goes_collect _ _ (by omega) fun s' hs' hd => .map _ (ih.hangingItems ?_)
    have := hs'.length_le
    unfold Fits at hs ⊢
    omega
  · split
    · exact .skip (goes_add _ _ _ _)
    · exact .skip (opened anchor hs ht fun _ h => .map _ (ih.flowItems true h))
    · exact .skip (opened anchor hs ht fun _ h => .map _ (ih.flowEntries true h))
    · refine iteInduction (fun _ => .skip ?_) fun _ => goes_emptyScalar _ _ _ _
      exact opened anchor hs ht fun _ h => .map _ (ih.blockItems h)
    · refine iteInduction (fun _ => .skip ?_) fun _ => goes_emptyScalar _ _ _ _
      exact opened anchor hs ht fun _ h => .map _ (ih.blockEntries h)
    · exact goes_emptyScalar _ _ _ _

theorem readUnless_succ (ih : Advances fuel) (ends : List Token) (block hanging : Bool)
    (hs : s.Fits n) : Goes n s (Node.readUnless ends block hanging (fuel + 1)) := by
  rw [Node.readUnless]
  refine .peek fun t _ => ?_
  exact iteInduction (fun _ => goes_nothing n s) fun _ => ih.read block hanging hs

theorem readValue_succ (ih : Advances fuel) (ends : List Token) (block hanging : Bool)
    (hs : s.Fits n) : Goes n s (Node.readValue ends block hanging (fuel + 1)) := by
  rw [Node.readValue]
  refine .peek fun t _ => iteInduction (fun _ => .skip ?_) fun _ => goes_nothing n s
  exact ih.readUnless ends block hanging (hs.later s.later_behind)

theorem blockItems_succ (ih : Advances fuel) (hs : s.Fits n) :
    Goes n s (Node.blockItems (fuel + 1)) := by
  rw [Node.blockItems]
  refine .peek fun t _ => iteInduction (fun _ => .skip ?_) fun _ => ?_
  · have hs := hs.later s.later_behind
    refine (ih.readUnless _ true false hs).bind fun i s' h => ?_
    exact (ih.blockItems (hs.later h)).bind fun _ _ _ => .pure _
  · exact (goes_expect n s _).bind fun _ _ _ => .pure _

theorem hangingItems_succ (ih : Advances fuel) (hs : s.Fits (n + 1)) :
    Goes n s (Node.hangingItems (fuel + 1)) := by
  rw [Node.hangingItems]
  refine .peek fun t ht => iteInduction (fun _ => .skip ?_) fun _ => .pure _
  have hs : s.behind.Fits n := Nat.le_of_lt_succ (hs.behind ht)
  refine (ih.readUnless _ true false hs).bind fun i s' h => ?_
  exact (ih.hangingItems ((hs.later h).trans (Nat.le_succ n))).bind fun _ _ _ => .pure _

theorem blockEntries_succ (ih : Advances fuel) (hs : s.Fits n) :
    Goes n s (Node.blockEntries (fuel + 1)) := by
  rw [Node.blockEntries]
  refine .peek fun t _ => iteInduction (fun _ => .skip ?_) fun _ => ?_
  · have hs := hs.later s.later_behind
    refine (ih.readUnless _ true true hs).bind fun k s' h => ?_
    refine (ih.readValue _ true true (hs.later h)).bind fun v s'' h' => ?_
    exact (ih.blockEntries ((hs.later h).later h')).bind fun _ _ _ => .pure _
  · exact (goes_expect n s _).bind fun _ _ _ => .pure _

theorem flowEntry (ih : Advances fuel) {γ : Type} (ends : List Token) {f : Nat → Nat → Reader γ}
    (hs : s.Fits n) (hf : ∀ k v s', s'.Fits n → Goes n s' (f k v)) : Goes n s (do
      let k ← Node.readUnless (.value :: ends) false false fuel
      let v ← Node.readValue ends false false fuel
      f k v) := by
  refine (ih.readUnless _ false false hs).bind fun k s' h => ?_
  refine (ih.readValue _ false false (hs.later h)).bind fun v s'' h' => ?_
  exact hf k v s'' ((hs.later h).later h')

theorem flowItems_succ (ih : Advances fuel) (isFirst : Bool) (hs : s.Fits n) :
    Goes n s (Node.flowItems isFirst (fuel + 1)) := by
  rw [Node.flowItems]
  refine .peek fun t _ => iteInduction (fun _ => .skip (.pure _)) fun _ => ?_
  extract_lets item
  have hitem {s : Reading} (hs : s.Fits n) : Goes n s (item ()) := by
    refine .peek fun t ht => ?_
    split
    · refine .skip (.bind ?_ fun i s' h => ?_)
      · exact opened none hs ht fun s' hs => ih.flowEntry _ hs fun k v _ _ => .pure _
      · have hs := (hs.later s.later_behind).later h
        exact (ih.flowItems false hs).bind fun _ _ _ => .pure _
    · exact .skip (.pure _)
    · refine (ih.read false false hs).bind fun i s' h => ?_
      exact (ih.flowItems false (hs.later h)).bind fun _ _ _ => .pure _
  refine iteInduction (fun _ => ?_) fun _ => hitem hs
  exact (goes_expect n s _).bind fun _ s' h => hitem (hs.later h)

theorem flowEntries_succ (ih : Advances fuel) (isFirst : Bool) (hs : s.Fits n) :
    Goes n s (Node.flowEntries isFirst (fuel + 1)) := by
  rw [Node.flowEntries]
  refine .peek fun t _ => iteInduction (fun _ => .skip (.pure _)) fun _ => ?_
  extract_lets entry
  have hmore {s : Reading} (hs : s.Fits n) (k v : Nat) : Goes n s
      (do return (k, v) :: (← Node.flowEntries false fuel)) :=
    (ih.flowEntries false hs).bind fun _ _ _ => .pure _
  have hentry {s : Reading} (hs : s.Fits n) : Goes n s (entry ()) := by
    refine .peek fun t ht => ?_
    split
    · exact .skip (ih.flowEntry _ (hs.later s.later_behind) fun k v s' hs => hmore hs k v)
    · exact .skip (.pure _)
    · refine (ih.read false false hs).bind fun k s' h => ?_
      exact (goes_nothing n s').bind fun v s'' h' => hmore ((hs.later h).later h') k v
  refine iteInduction (fun _ => ?_) fun _ => hentry hs
  exact (goes_expect n s _).bind fun _ s' h => hentry (hs.later h)

end Advances

theorem advances (fuel : Nat) : Advances fuel := by
  induction fuel with
  | zero => exact advances_zero
  | succ fuel ih =>
    exact {
      read := fun block hanging => ih.read_succ block hanging
      readContent := fun block hanging anchor tag => ih.readContent_succ block hanging anchor tag
      readUnless := fun ends block hanging => ih.readUnless_succ ends block hanging
      readValue := fun ends block hanging => ih.readValue_succ ends block hanging
      blockItems := ih.blockItems_succ
      hangingItems := ih.hangingItems_succ
      blockEntries := ih.blockEntries_succ
      flowItems := fun isFirst => ih.flowItems_succ isFirst
      flowEntries := fun isFirst => ih.flowEntries_succ isFirst }

section Document

theorem directives_cases (versioned : Bool) (handles : List (Text × Text)) (ts : List Token) :
    directives versioned handles ts = .error .malformed ∨
      ∃ handles' r, directives versioned handles ts = .ok (handles', r) ∧ r <:+ ts := by
  have hcons {x : Token} {ts : List Token} {y : Except LoadError (List (Text × Text) × List Token)}
      (h : y = .error .malformed ∨ ∃ hs r, y = .ok (hs, r) ∧ r <:+ ts) :
      y = .error .malformed ∨ ∃ hs r, y = .ok (hs, r) ∧ r <:+ x :: ts := by
    obtain h | ⟨hs, r, h, hr⟩ := h
    · exact .inl h
    · exact .inr ⟨hs, r, h, hr.trans (List.suffix_cons x ts)⟩
  fun_induction directives versioned handles ts
  case case1 => exact .inl rfl
  case case2 ih => exact hcons ih
  case case3 => exact .inl rfl
  case case4 ih => exact hcons ih
  case case5 ih => exact hcons ih
  case case6 handles r _ _ _ => exact .inr ⟨handles, r, rfl, List.suffix_refl r⟩

theorem goes_documentStart (n : Nat) (s : Reading) : Goes n s documentStart := by
  obtain h | ⟨handles, r, h, hr⟩ := directives_cases false [] s.tokens
  · refine .get ?_
    rw [h]
    exact Stops.malformed
  · let s' : Reading := { s with tokens := r, handles := handles ++ usualHandles }
    have hl : s.Later s' := ⟨hr, rfl⟩
    refine ((goes_expect n s' .documentStart).of_later hl).of_eq ?_
    simp only [documentStart, Bind.bind, StateT.bind, MonadState.get, getThe, MonadStateOf.get,
      StateT.get, Pure.pure, Except.pure, Except.bind, h]
    rfl

theorem goes_documentContent (fuel : Nat) (hs : s.Fits n) : Goes n s (documentContent fuel) := by
  refine .peek fun t _ => ?_
  split
  · exact goes_nothing n s
  · exact goes_nothing n s
  · exact goes_nothing n s
  · exact goes_nothing n s
  · exact (advances fuel).read true false hs

theorem goes_documentEnd (n fuel : Nat) (s : Reading) : Goes n s (documentEnd fuel) := by
  induction fuel generalizing s with
  | zero => exact .malformed
  | succ fuel ih =>
    refine .peek fun t _ => ?_
    split
    · exact .skip (ih _)
    · exact .pure _
    · exact (goes_documentStart n s).bind fun _ _ _ => .malformed

theorem goes_document (fuel : Nat) (hs : s.Fits n) : Goes n s (document fuel) := by
  refine .peek fun t _ => ?_
  extract_lets finish
  have hfinish (i : Nat) (s : Reading) : Goes n s (finish i) :=
    (goes_documentEnd n fuel s).bind fun _ _ _ => .pure i
  have hstart : Goes n s (do documentStart; let i ← documentContent fuel; finish i) := by
    refine (goes_documentStart n s).bind fun _ s' h => ?_
    exact (goes_documentContent fuel (hs.later h)).bind fun i s' _ => hfinish i s'
  split
  · exact (goes_nothing n s).bind fun i s' _ => hfinish i s'
  · exact hstart
  · exact hstart
  · exact ((advances fuel).read true false hs).bind fun i s' _ => hfinish i s'

end Document

end RouteAtlas.Yaml.Node

namespace RouteAtlas.Yaml

/-- The nodes of a text are not read for a reason that is in the text, or because more than so many
collections are open. -/
theorem stops_of_graph {t : Text} {e : LoadError} (h : Graph.ofText t = .error e) :
    StopsScan t e ∨ e = .tooDeep ∧ Node.Reader.maxDepth < (Token.ofText t).length := by
  have hg := Node.goes_document (4 * (Token.ofText t).length + 4)
    (s := ⟨Token.ofText t, Node.usualHandles, #[], [], 0⟩) (Nat.zero_add _).le
  unfold Node.Reader.Goes Outcome at hg
  unfold Graph.ofText at h
  dsimp only at h
  split at hg
  · rename_i hx
    rw [hx] at h
    cases h
  · rename_i x hx
    rw [hx] at h
    cases h
    cases hg with
    | malformed => exact .inl .malformed
    | scan h => exact .inl (stopsScan_of_failure h)
    | tooDeep h => exact .inr ⟨rfl, h⟩

end RouteAtlas.Yaml
