import RouteAtlas.Proofs.Yaml.DocumentTokens
import RouteAtlas.Yaml.Node

/-!
# Steps of a reader of nodes

What each part of the reader does where its tokens come.
-/

namespace RouteAtlas.Yaml

section Steps

variable {σ ε α β : Type} {x : StateT σ (Except ε) α} {s s' : σ} {a : α}

theorem bind_eq {f : α → StateT σ (Except ε) β} (h : x s = .ok (a, s')) :
    (x >>= f) s = f a s' := by
  simp [bind, StateT.bind, h, Except.bind]

theorem map_eq {f : α → β} (h : x s = .ok (a, s')) : (f <$> x) s = .ok (f a, s') := by
  simp [Functor.map, StateT.map, bind, h, Except.bind, pure, Except.pure]

theorem get_eq (s : σ) : (get : StateT σ (Except ε) σ) s = .ok (s, s) := rfl

/-- Where a step leads from a state, or why it stops. -/
def Outcome (s : σ) (x : StateT σ (Except ε) α) (good : σ → Prop) (bad : ε → Prop) : Prop :=
  match x s with
  | .ok p => good p.2
  | .error e => bad e

variable {good good' : σ → Prop} {bad bad' : ε → Prop}

namespace Outcome

theorem of_eq {y : StateT σ (Except ε) α} (h : Outcome s' x good bad) (heq : y s = x s') :
    Outcome s y good bad := by
  unfold Outcome
  rw [heq]
  exact h

theorem mono (h : Outcome s x good bad) (hg : ∀ s, good s → good' s) (hb : ∀ e, bad e → bad' e) :
    Outcome s x good' bad' := by
  unfold Outcome at h ⊢
  split at h
  · exact hg _ h
  · exact hb _ h

theorem bind {f : α → StateT σ (Except ε) β} (h : Outcome s x good bad)
    (hf : ∀ a s', good s' → Outcome s' (f a) good' bad) : Outcome s (x >>= f) good' bad := by
  have heq : (x >>= f) s = (x s).bind fun p => f p.1 p.2 := rfl
  unfold Outcome at h
  split at h
  · rename_i p hx
    rw [hx] at heq
    exact (hf p.1 p.2 h).of_eq heq
  · rename_i e hx
    rw [hx] at heq
    unfold Outcome
    rw [heq]
    exact h

end Outcome

end Steps

namespace Node

def Reading.on (s : Reading) (ts : List Token) : Reading := { s with tokens := ts }

section Steps

variable {s s' : Reading} {t : Token} {r : List Token}

@[simp] theorem Reading.tokens_on (s : Reading) (ts : List Token) : (s.on ts).tokens = ts := rfl

@[simp] theorem Reading.on_on (s : Reading) (ts ts' : List Token) : (s.on ts).on ts' = s.on ts' :=
  rfl

def IsProper (t : Token) : Prop := ∀ e, t ≠ .failure e

namespace Reader

theorem peek_on (ht : IsProper t) : peek (s.on (t :: r)) = .ok (t, s.on (t :: r)) := by
  cases t with
  | failure e => exact absurd rfl (ht e)
  | _ => rfl

theorem skip_on : skip (s.on (t :: r)) = .ok ((), s.on r) := rfl

theorem expect_on (ht : IsProper t) : expect t (s.on (t :: r)) = .ok ((), s.on r) := by
  rw [expect, bind_eq (peek_on ht), if_pos rfl]
  rfl

theorem anchored_on {name : Text} {p : Nat} (h : s.anchors.lookup name = some p) :
    anchored name (s.on r) = .ok (p, s.on r) := by
  simp only [anchored, Reading.on, bind, StateT.bind, get, getThe, MonadStateOf.get, StateT.get,
    Except.bind, h, pure, Except.pure]
  rfl

theorem requireNew_on {anchor : Option Text}
    (h : ∀ name, anchor = some name → s.anchors.lookup name = none) :
    requireNew anchor (s.on r) = .ok ((), s.on r) := by
  cases anchor with
  | none => rfl
  | some name =>
    simp only [requireNew, Reading.on, bind, StateT.bind, get, getThe, MonadStateOf.get, StateT.get,
      Except.bind, h name rfl, pure, Except.pure]
    rfl

end Reader

open Reader

def isContent : Token → Bool
  | .alias _ => false
  | .anchor _ => false
  | .tag _ _ => false
  | .failure _ => false
  | _ => true

theorem isProper_of_isContent (ht : isContent t) : IsProper t := by
  rintro e rfl
  cases ht

theorem properties_on (ht : isContent t) (anchor : Option Nat) :
    properties (s.on (anchorTokens anchor ++ t :: r)) =
      .ok ((anchor.map anchorLabel, none), s.on (t :: r)) := by
  have hp := peek_on (s := s) (r := r) (isProper_of_isContent ht)
  cases anchor with
  | none =>
    rw [anchorTokens, List.nil_append, properties, bind_eq hp]
    cases t <;> first | rfl | cases ht
  | some n =>
    have ha : IsProper (.anchor (anchorLabel n)) := by
      rintro e ⟨⟩
    rw [anchorTokens, List.singleton_append, properties, bind_eq (peek_on ha)]
    dsimp only
    rw [bind_eq skip_on, bind_eq hp]
    cases t <;> first | rfl | cases ht

/-- A node with an anchor, if there is one, up to its content. -/
theorem read_on (ht : isContent t) {anchor : Option Nat}
    (ha : ∀ n, anchor = some n → s.anchors.lookup (anchorLabel n) = none) (block hanging : Bool)
    (fuel : Nat) : read block hanging (fuel + 1) (s.on (anchorTokens anchor ++ t :: r)) =
      readContent block hanging (anchor.map anchorLabel) none t fuel (s.on (t :: r)) := by
  obtain ⟨t', r', h, hn, hp⟩ : ∃ t' r', anchorTokens anchor ++ t :: r = t' :: r' ∧
      (∀ name, t' ≠ .alias name) ∧ IsProper t' := by
    cases anchor with
    | none =>
      refine ⟨t, r, rfl, ?_, isProper_of_isContent ht⟩
      rintro name rfl
      cases ht
    | some n => exact ⟨.anchor (anchorLabel n), t :: r, rfl, by rintro name ⟨⟩, by rintro e ⟨⟩⟩
  have hprops := properties_on (s := s) (r := r) ht anchor
  have hnew : requireNew (anchor.map anchorLabel) (s.on (t :: r)) = .ok ((), s.on (t :: r)) := by
    refine requireNew_on fun name hname => ?_
    obtain ⟨n, hn, rfl⟩ := Option.map_eq_some_iff.1 hname
    exact ha n hn
  rw [h] at hprops ⊢
  rw [read, bind_eq (peek_on hp)]
  split
  · exact absurd rfl (hn _)
  · rw [bind_eq hprops]
    dsimp only
    rw [bind_eq (peek_on (isProper_of_isContent ht)), bind_eq hnew]

theorem read_alias {name : Text} {p : Nat} (h : s.anchors.lookup name = some p)
    (block hanging : Bool) (fuel : Nat) :
    read block hanging (fuel + 1) (s.on (.alias name :: r)) = .ok (p, s.on r) := by
  rw [read, bind_eq (peek_on (by rintro e ⟨⟩))]
  dsimp only
  rw [bind_eq skip_on, anchored_on h]

theorem readUnless_on {ends : List Token} (ht : IsProper t) (he : t ∉ ends) (block hanging : Bool)
    (fuel : Nat) : readUnless ends block hanging (fuel + 1) (s.on (t :: r)) =
      read block hanging fuel (s.on (t :: r)) := by
  rw [readUnless, bind_eq (peek_on ht), if_neg (by simpa using he)]

theorem readValue_on (ends : List Token) (block hanging : Bool) (fuel : Nat) :
    readValue ends block hanging (fuel + 1) (s.on (.value :: r)) =
      readUnless ends block hanging fuel (s.on r) := by
  rw [readValue, bind_eq (peek_on (by rintro e ⟨⟩)), if_pos rfl, bind_eq skip_on]

def Reading.opened (s : Reading) (anchor : Option Text) (tag : Tag) : Reading :=
  { s with
    nodes := s.nodes.push ⟨tag, .sequence []⟩
    anchors := match anchor with
      | some name => (name, s.nodes.size) :: s.anchors
      | none => s.anchors
    depth := s.depth + 1 }

def Reading.closed (s : Reading) (place : Nat) (n : Node) : Reading :=
  { s with depth := s.depth - 1, nodes := s.nodes.setIfInBounds place n }

theorem collect_eq {anchor : Option Text} {tag : Tag} {parts : Reader Content} {content : Content}
    (hd : s.depth < maxDepth) (hp : parts (s.opened anchor tag) = .ok (content, s')) :
    collect anchor tag parts s = .ok (s.nodes.size, s'.closed s.nodes.size ⟨tag, content⟩) := by
  have hn : ¬ maxDepth ≤ s.depth := by omega
  have hadd : add anchor ⟨tag, .sequence []⟩ s =
      .ok (s.nodes.size, { s.opened anchor tag with depth := s.depth }) := rfl
  have hopen : (modify (fun s => { s with depth := s.depth + 1 }) : Reader Unit)
      { s.opened anchor tag with depth := s.depth } = .ok ((), s.opened anchor tag) := rfl
  rw [collect, bind_eq hadd, bind_eq (get_eq _)]
  dsimp only
  rw [if_neg hn, bind_eq hopen, bind_eq hp]
  rfl

section Content

variable {anchor : Option Text} {fuel : Nat} {content : Content}

theorem readContent_scalar (block hanging plain : Bool) (text : Text) :
    readContent block hanging anchor none (.scalar plain text) (fuel + 1)
      (s.on (.scalar plain text :: r)) =
        add anchor ⟨scalarTag plain none text, .scalar text⟩ (s.on r) := by
  rw [readContent, if_neg (by simp), bind_eq skip_on]

theorem readContent_hanging (block : Bool) :
    readContent block true anchor none .blockEntry (fuel + 1) s =
      collect anchor .seq (.sequence <$> hangingItems fuel) s := by
  rw [readContent, if_pos (by simp)]
  · rfl
  all_goals simp

theorem readContent_blockSequence (hanging : Bool) :
    readContent true hanging anchor none .blockSequence (fuel + 1) (s.on (.blockSequence :: r)) =
      collect anchor .seq (.sequence <$> blockItems fuel) (s.on r) := by
  rw [readContent, if_neg (by simp), if_pos rfl, bind_eq skip_on]
  rfl

theorem readContent_blockMapping (hanging : Bool) :
    readContent true hanging anchor none .blockMapping (fuel + 1) (s.on (.blockMapping :: r)) =
      collect anchor .map (.mapping <$> blockEntries fuel) (s.on r) := by
  rw [readContent, if_neg (by simp), if_pos rfl, bind_eq skip_on]
  rfl

theorem readContent_empty (block hanging isMap : Bool) (hd : s.depth < maxDepth)
    (anchor : Option Text) (fuel : Nat) :
    readContent block hanging anchor none (if isMap then .flowMapping else .flowSequence) (fuel + 2)
      (s.on (emptyTokens isMap ++ r)) = .ok (s.nodes.size,
        ((s.opened anchor (if isMap then .map else .seq)).on r).closed s.nodes.size
          ⟨if isMap then .map else .seq, if isMap then .mapping [] else .sequence []⟩) := by
  cases isMap with
  | false =>
    have hitems (s : Reading) :
        flowItems true (fuel + 1) (s.on (.flowSequenceEnd :: r)) = .ok ([], s.on r) := by
      rw [flowItems, bind_eq (peek_on (by rintro e ⟨⟩)), if_pos rfl, bind_eq skip_on]
      rfl
    simp only [emptyTokens, Bool.false_eq_true, if_false, List.cons_append, List.nil_append]
    rw [readContent, if_neg (by simp), bind_eq skip_on]
    exact collect_eq (s := s.on (.flowSequenceEnd :: r)) hd (map_eq (hitems (s.opened anchor .seq)))
  | true =>
    have hentries (s : Reading) :
        flowEntries true (fuel + 1) (s.on (.flowMappingEnd :: r)) = .ok ([], s.on r) := by
      rw [flowEntries, bind_eq (peek_on (by rintro e ⟨⟩)), if_pos rfl, bind_eq skip_on]
      rfl
    simp only [emptyTokens, if_true, List.cons_append, List.nil_append]
    rw [readContent, if_neg (by simp), bind_eq skip_on]
    exact collect_eq (s := s.on (.flowMappingEnd :: r)) hd
      (map_eq (hentries (s.opened anchor .map)))

end Content

section Parts

variable {fuel : Nat} {n k : Nat} {ns : List Nat} {es : List (Nat × Nat)} {s'' : Reading}

def items (hanging : Bool) : Nat → Reader (List Nat) :=
  if hanging then hangingItems else blockItems

def itemEnds (hanging : Bool) : List Token :=
  if hanging then [.blockEntry, .key, .value, .blockEnd] else [.blockEntry, .blockEnd]

theorem items_cons {hanging : Bool}
    (hn : readUnless (itemEnds hanging) true false fuel (s.on r) = .ok (n, s'))
    (hns : items hanging fuel s' = .ok (ns, s'')) :
    items hanging (fuel + 1) (s.on (.blockEntry :: r)) = .ok (n :: ns, s'') := by
  have hp := peek_on (s := s) (t := .blockEntry) (r := r) (by rintro e ⟨⟩)
  cases hanging with
  | false =>
    rw [items, if_neg Bool.false_ne_true] at hns ⊢
    rw [itemEnds, if_neg Bool.false_ne_true] at hn
    rw [blockItems, bind_eq hp, if_pos rfl, bind_eq skip_on, bind_eq hn, bind_eq hns]
    rfl
  | true =>
    rw [items, if_pos rfl] at hns ⊢
    rw [itemEnds, if_pos rfl] at hn
    rw [hangingItems, bind_eq hp, if_pos rfl, bind_eq skip_on, bind_eq hn, bind_eq hns]
    rfl

/-- A sequence that hangs ends before any other token; others have their own end. -/
theorem items_nil (hanging : Bool) (ht : hanging → IsProper t ∧ t ≠ .blockEntry)
    (he : hanging = false → t = .blockEnd) :
    items hanging (fuel + 1) (s.on (t :: r)) = .ok ([], s.on (if hanging then t :: r else r)) := by
  cases hanging with
  | false =>
    obtain rfl := he rfl
    have hp := peek_on (s := s) (t := .blockEnd) (r := r) (by rintro e ⟨⟩)
    rw [items, if_neg Bool.false_ne_true, blockItems, bind_eq hp, if_neg (by simp),
      bind_eq (expect_on (by rintro e ⟨⟩))]
    rfl
  | true =>
    obtain ⟨hp, hne⟩ := ht rfl
    rw [items, if_pos rfl, hangingItems, bind_eq (peek_on hp), if_neg hne]
    rfl

theorem blockEntries_cons (hk : readUnless [.key, .value, .blockEnd] true true fuel (s.on r) =
      .ok (k, s')) {s₃ : Reading}
    (hv : readValue [.key, .value, .blockEnd] true true fuel s' = .ok (n, s''))
    (hes : blockEntries fuel s'' = .ok (es, s₃)) :
    blockEntries (fuel + 1) (s.on (.key :: r)) = .ok ((k, n) :: es, s₃) := by
  rw [blockEntries, bind_eq (peek_on (by rintro e ⟨⟩)), if_pos rfl, bind_eq skip_on, bind_eq hk,
    bind_eq hv, bind_eq hes]
  rfl

theorem blockEntries_nil : blockEntries (fuel + 1) (s.on (.blockEnd :: r)) = .ok ([], s.on r) := by
  rw [blockEntries, bind_eq (peek_on (by rintro e ⟨⟩)), if_neg (by simp),
    bind_eq (expect_on (by rintro e ⟨⟩))]
  rfl

end Parts

end Steps

end Node

end RouteAtlas.Yaml
