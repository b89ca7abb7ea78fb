import RouteAtlas.Proofs.Yaml.Nodes

/-!
# Reading the nodes of an outline

The tokens of an outline are read as nodes that stand for its value. An object that is written a
second time is known by then, since it is deeper than its parts.
-/

namespace RouteAtlas.Yaml

open Outline Node

section States

variable {again : List Nat} {env : Nat → Json} {opens : List Nat} {written written' : List Nat}
  {s s' s'' : Reading} {bound : Nat}

/-- A node under the label of an object stands for the object. -/
def Knows (again : List Nat) (env : Nat → Json) (opens : List Nat) (s : Reading) (m : Nat) : Prop :=
  ∃ n p, number? again m = some n ∧ s.anchors.lookup (anchorLabel n) = some p ∧
    (known opens s.nodes).Denotes p (env m)

/-- A reading before a value: all names are labels of written objects, and those that are no deeper
than `bound` are known. -/
structure Ready (again : List Nat) (env : Nat → Json) (opens written : List Nat) (bound : Nat)
    (s : Reading) : Prop where
  within : ∀ p ∈ opens, p < s.nodes.size
  named : ∀ name p, s.anchors.lookup name = some p →
    ∃ m ∈ written, ∃ n, number? again m = some n ∧ name = anchorLabel n
  knows : ∀ m ∈ written, Knows again env opens s m ∨ bound < (env m).depth

/-- A reading goes on: what is known stays, and the objects written since then are known. -/
structure Grows (again : List Nat) (env : Nat → Json) (opens written written' : List Nat)
    (s s' : Reading) : Prop where
  known : (known opens s.nodes).Extends (known opens s'.nodes)
  size : s.nodes.size ≤ s'.nodes.size
  anchors : ∀ name p, s.anchors.lookup name = some p → s'.anchors.lookup name = some p
  named : ∀ name p, s'.anchors.lookup name = some p → s.anchors.lookup name = some p ∨
    ∃ m ∈ written', ∃ n, number? again m = some n ∧ name = anchorLabel n
  depth : s'.depth = s.depth
  fresh : ∀ m ∈ written', m ∈ written ∨ Knows again env opens s' m
  keeps : ∀ m ∈ written, m ∈ written'

theorem Ready.mono (h : Ready again env opens written bound s) {b : Nat} (hb : b ≤ bound) :
    Ready again env opens written b s :=
  ⟨h.within, h.named, fun m hm => (h.knows m hm).imp_right (Nat.lt_of_le_of_lt hb)⟩

theorem Grows.knows (h : Grows again env opens written written' s s') {m : Nat}
    (hm : Knows again env opens s m) : Knows again env opens s' m := by
  obtain ⟨n, p, hn, hp, hd⟩ := hm
  exact ⟨n, p, hn, h.anchors _ _ hp, hd.mono h.known⟩

theorem Grows.refl (s : Reading) : Grows again env opens written written s s :=
  ⟨fun _ _ h => h, Nat.le_refl _, fun _ _ h => h, fun _ _ h => .inl h, rfl, fun _ h => .inl h,
    fun _ h => h⟩

theorem Grows.trans {written'' : List Nat} (h : Grows again env opens written written' s s')
    (h' : Grows again env opens written' written'' s' s'') :
    Grows again env opens written written'' s s'' := by
  refine ⟨h.known.trans h'.known, h.size.trans h'.size,
    fun n p hp => h'.anchors n p (h.anchors n p hp), fun name p hp => ?_, h'.depth.trans h.depth,
    fun m hm => ?_, fun m hm => h'.keeps m (h.keeps m hm)⟩
  · rcases h'.named name p hp with hp | hm
    · refine (h.named name p hp).imp_right ?_
      rintro ⟨m, hm, hn⟩
      exact ⟨m, h'.keeps m hm, hn⟩
    · exact .inr hm
  · exact (h'.fresh m hm).elim (fun hm => (h.fresh m hm).imp_right h'.knows) .inr

theorem Ready.grows (h : Ready again env opens written bound s)
    (hg : Grows again env opens written written' s s') :
    Ready again env opens written' bound s' := by
  refine ⟨fun p hp => Nat.lt_of_lt_of_le (h.within p hp) hg.size, fun name p hp => ?_,
    fun m hm => ?_⟩
  · rcases hg.named name p hp with hp | hm
    · obtain ⟨m, hm, hn⟩ := h.named name p hp
      exact ⟨m, hg.keeps m hm, hn⟩
    · exact hm
  · exact (hg.fresh m hm).elim (fun hm => (h.knows m hm).imp_left hg.knows) .inl

/-- The label of an object that is not written yet is free. -/
theorem Ready.lookup_label (h : Ready again env opens written bound s) {m n : Nat}
    (hn : number? again m = some n) (hm : m ∉ written) :
    s.anchors.lookup (anchorLabel n) = none := by
  cases hl : s.anchors.lookup (anchorLabel n) with
  | none => rfl
  | some p =>
    obtain ⟨k, hk, j, hj, he⟩ := h.named _ p hl
    obtain rfl := anchorLabel_inj he
    obtain rfl := number?_inj hj hn
    exact absurd hk hm

def added (s : Reading) (n : Node) : Reading := { s with nodes := s.nodes.push n }

theorem Grows.added (s : Reading) (n : Node) :
    Grows again env opens written written s (Yaml.added s n) :=
  ⟨known_push, by simp [Yaml.added], fun _ _ h => h, fun _ _ h => .inl h, rfl, fun _ h => .inl h,
    fun _ h => h⟩

/-- An anchor for an object that is being written: its label is free. -/
def IsFree (again written : List Nat) (s : Reading) (anchor : Option Nat) : Prop :=
  ∀ n, anchor = some n → s.anchors.lookup (anchorLabel n) = none ∧
    ∃ m ∈ written, number? again m = some n

theorem lookup_opened {anchor : Option Nat} (ha : IsFree again written s anchor) (tag : Tag)
    {name : Text} {p : Nat} (hp : s.anchors.lookup name = some p) :
    (s.opened (anchor.map anchorLabel) tag).anchors.lookup name = some p := by
  cases anchor with
  | none => exact hp
  | some n =>
    have hne : name ≠ anchorLabel n := by
      rintro rfl
      rw [(ha n rfl).1] at hp
      cases hp
    simpa [Reading.opened, List.lookup_cons, beq_false_of_ne hne] using hp

theorem exists_of_lookup_opened {anchor : Option Nat} (ha : IsFree again written s anchor)
    (tag : Tag) {name : Text} {p : Nat}
    (hp : (s.opened (anchor.map anchorLabel) tag).anchors.lookup name = some p) :
    s.anchors.lookup name = some p ∨
      ∃ m ∈ written, ∃ n, number? again m = some n ∧ name = anchorLabel n := by
  cases anchor with
  | none => exact .inl hp
  | some n =>
    by_cases hne : name = anchorLabel n
    · obtain ⟨-, m, hm, hn⟩ := ha n rfl
      exact .inr ⟨m, hm, n, hn, hne⟩
    · exact .inl (by simpa [Reading.opened, List.lookup_cons, beq_false_of_ne hne] using hp)

theorem Ready.opened (h : Ready again env opens written bound s) {anchor : Option Nat}
    (ha : IsFree again written s anchor) (tag : Tag) :
    Ready again env (s.nodes.size :: opens) written bound
      (s.opened (anchor.map anchorLabel) tag) := by
  refine ⟨fun p hp => ?_, fun name p hp => ?_, fun m hm => ?_⟩
  · have hs : (s.opened (anchor.map anchorLabel) tag).nodes.size = s.nodes.size + 1 :=
      Array.size_push _
    rcases List.mem_cons.1 hp with rfl | hp
    · omega
    · have := h.within p hp
      omega
  · exact (exists_of_lookup_opened ha tag hp).elim (h.named name p) id
  · refine (h.knows m hm).imp_left ?_
    rintro ⟨n, p, hn, hp, hd⟩
    exact ⟨n, p, hn, lookup_opened ha tag hp, hd.mono known_open⟩

/-- What is known when a collection has its parts. -/
theorem Grows.closed {anchor : Option Nat} (ha : IsFree again written s anchor) {tag : Tag}
    (hg : Grows again env (s.nodes.size :: opens) written written'
      (s.opened (anchor.map anchorLabel) tag) s') (n : Node) :
    Grows again env opens written written' s (s'.closed s.nodes.size n) := by
  have hsize : s.nodes.size + 1 ≤ s'.nodes.size := by
    simpa [Reading.opened] using hg.size
  have hclose : (Yaml.known (s.nodes.size :: opens) s'.nodes).Extends
      (Yaml.known opens (s'.closed s.nodes.size n).nodes) := known_close
  refine ⟨(known_open.trans hg.known).trans hclose, ?_, fun name p hp =>
    hg.anchors name p (lookup_opened ha tag hp), fun name p hp => ?_, ?_, fun m hm => ?_, hg.keeps⟩
  · simp only [Reading.closed, Array.size_setIfInBounds]
    omega
  · rcases hg.named name p hp with hp | hm
    · refine (exists_of_lookup_opened ha tag hp).imp_right ?_
      rintro ⟨m, hm, hn⟩
      exact ⟨m, hg.keeps m hm, hn⟩
    · exact .inr hm
  · have := hg.depth
    simp only [Reading.opened] at this
    simp only [Reading.closed, this]
    omega
  · refine (hg.fresh m hm).imp_right ?_
    rintro ⟨k, p, hk, hp, hd⟩
    exact ⟨k, p, hk, hp, hd.mono hclose⟩

theorem known_of_closed (h : Ready again env opens written bound s) {anchor : Option Nat}
    {tag : Tag}
    (hg : Grows again env (s.nodes.size :: opens) written written'
      (s.opened (anchor.map anchorLabel) tag) s') (n : Node) :
    known opens (s'.closed s.nodes.size n).nodes s.nodes.size = some n := by
  have hsize : s.nodes.size + 1 ≤ s'.nodes.size := by
    simpa [Reading.opened] using hg.size
  exact known_closed (fun hp => Nat.lt_irrefl _ (h.within _ hp)) (by omega)

theorem depth_opened (s : Reading) (anchor : Option Text) (tag : Tag) :
    (s.opened anchor tag).depth = s.depth + 1 :=
  rfl

theorem lookup_closed {n : Nat} {tag : Tag}
    (hg : Grows again env (s.nodes.size :: opens) written written'
      (s.opened ((some n).map anchorLabel) tag) s') (node : Node) :
    (s'.closed s.nodes.size node).anchors.lookup (anchorLabel n) = some s.nodes.size :=
  hg.anchors _ _ (by simp [Reading.opened])

end States

end RouteAtlas.Yaml

namespace RouteAtlas.Json

def inner : Json → Nat
  | .list vs => itemsDepth vs
  | .obj fs => fieldsDepth fs
  | .shared _ v => depth v
  | _ => 0

theorem inner_le_depth (v : Json) : v.inner ≤ v.depth := by
  cases v <;> simp [inner, depth]

end RouteAtlas.Json

namespace RouteAtlas.Yaml

open Outline Node Node.Reader

section Values

variable {again : List Nat} {env : Nat → Json}

def Follows (r : List Token) : Prop := ∃ r', r = .key :: r' ∨ r = .blockEnd :: r'

def ReadsValue (again : List Nat) (env : Nat → Json) (v : Json) : Prop :=
  ∀ (opens written : List Nat) (lead : Lead) (s : Reading) (r : List Token) (fuel : Nat),
    Ready again env opens written v.inner s → s.depth + v.depth ≤ maxDepth →
    (lead ≠ .item → Follows r) →
    4 * (valueTokens lead (draw again written none v).1).length ≤ fuel + 1 →
    ∃ p s', read true (lead != .item) fuel
        (s.on (valueTokens lead (draw again written none v).1 ++ r)) = .ok (p, s'.on r) ∧
      Grows again env opens written (draw again written none v).2 s s' ∧
      (known opens s'.nodes).Denotes p v

def ReadsItems (again : List Nat) (env : Nat → Json) (vs : List Json) : Prop :=
  ∀ (opens written : List Nat) (hanging : Bool) (s : Reading) (r : List Token) (fuel : Nat),
    Ready again env opens written (Json.itemsDepth vs) s →
    s.depth + Json.itemsDepth vs ≤ maxDepth → (hanging → Follows r) →
    4 * (itemsTokens (drawItems again written vs).1).length ≤ fuel + 3 → 1 ≤ fuel →
    ∃ ps s', items hanging fuel (s.on (itemsTokens (drawItems again written vs).1 ++
        (if hanging then r else .blockEnd :: r))) = .ok (ps, s'.on r) ∧
      Grows again env opens written (drawItems again written vs).2 s s' ∧
      (known opens s'.nodes).DenoteItems ps vs

def ReadsFields (again : List Nat) (env : Nat → Json) (fs : List (Text × Json)) : Prop :=
  ∀ (opens written : List Nat) (s : Reading) (r : List Token) (fuel : Nat),
    Ready again env opens written (Json.fieldsDepth fs) s →
    s.depth + Json.fieldsDepth fs ≤ maxDepth →
    4 * (entriesTokens (drawFields again written fs).1).length ≤ fuel + 3 → 1 ≤ fuel →
    ∃ es s', blockEntries fuel (s.on (entriesTokens (drawFields again written fs).1 ++
        .blockEnd :: r)) = .ok (es, s'.on r) ∧
      Grows again env opens written (drawFields again written fs).2 s s' ∧
      (known opens s'.nodes).DenoteFields es fs

theorem isContent_scalarToken (v : Json) : isContent (scalarToken v) := rfl

/-- The first token of a value is none that ends the values before it. -/
theorem exists_valueTokens_cons (lead : Lead) (o : Outline) : ∃ t r, valueTokens lead o = t :: r ∧
    IsProper t ∧ t ∉ [Token.key, .value, .blockEnd] ∧ (lead = .item → t ≠ .blockEntry) := by
  have hanchor (anchor : Option Nat) (t : Token) (r : List Token) (ht : IsProper t)
      (hk : t ∉ [Token.key, .value, .blockEnd]) (hl : lead = .item → t ≠ .blockEntry) :
      ∃ t' r', anchorTokens anchor ++ t :: r = t' :: r' ∧ IsProper t' ∧
        t' ∉ [Token.key, .value, .blockEnd] ∧ (lead = .item → t' ≠ .blockEntry) := by
    cases anchor with
    | none => exact ⟨t, r, rfl, ht, hk, hl⟩
    | some n => exact ⟨.anchor (anchorLabel n), t :: r, rfl, by rintro e ⟨⟩, by simp, by simp⟩
  cases o with
  | scalar v => exact ⟨_, _, rfl, by rintro e ⟨⟩, by simp [scalarToken], by simp [scalarToken]⟩
  | «alias» n => exact ⟨_, _, rfl, by rintro e ⟨⟩, by simp, by simp⟩
  | list anchor os =>
    cases os with
    | nil =>
      rw [valueTokens, if_pos (by rfl)]
      exact hanchor anchor .flowSequence _ (by rintro e ⟨⟩) (by simp) (by simp)
    | cons o os =>
      rw [valueTokens, if_neg (by simp)]
      split
      · rename_i hh
        rw [itemsTokens]
        refine hanchor anchor .blockEntry _ (by rintro e ⟨⟩) (by simp) ?_
        rintro rfl
        simp [hangs] at hh
      · exact hanchor anchor .blockSequence _ (by rintro e ⟨⟩) (by simp) (by simp)
  | map anchor es =>
    rw [valueTokens]
    split
    · exact hanchor anchor .flowMapping _ (by rintro e ⟨⟩) (by simp) (by simp)
    · exact hanchor anchor .blockMapping _ (by rintro e ⟨⟩) (by simp) (by simp)

def leaf (v : Json) : Node := ⟨formTag v, .scalar (form v)⟩

theorem read_scalarToken {v : Json} (ht : scalarTag (isPlain v) none (form v) = formTag v)
    (s : Reading) (r : List Token) (hanging : Bool) (fuel : Nat) :
    read true hanging (fuel + 2) (s.on (scalarToken v :: r)) =
      .ok (s.nodes.size, (added s (leaf v)).on r) := by
  have hread : read true hanging (fuel + 2) (s.on (anchorTokens none ++ scalarToken v :: r)) =
      readContent true hanging none none (scalarToken v) (fuel + 1) (s.on (scalarToken v :: r)) :=
    read_on (isContent_scalarToken v) (fun n hn => by cases hn) true _ (fuel + 1)
  refine hread.trans ?_
  rw [scalarToken, readContent_scalar, ht]
  rfl

theorem readsValue_scalar {v : Json}
    (hd : ∀ written, draw again written none v = (.scalar v, written))
    (ht : scalarTag (isPlain v) none (form v) = formTag v)
    (hv : ∀ (ns : Places) (p : Nat), ns p = some (leaf v) → ns.Denotes p v) :
    ReadsValue again env v := by
  intro opens written lead s r fuel hs _ _ hf
  rw [hd written] at hf ⊢
  simp only [valueTokens, List.length_cons, List.length_nil] at hf
  obtain ⟨fuel, rfl⟩ : ∃ k, fuel = k + 2 := ⟨fuel - 2, by omega⟩
  exact ⟨s.nodes.size, added s (leaf v), read_scalarToken ht s r _ fuel, .added s _,
    hv _ _ (known_size hs.within)⟩

theorem scalarTag_str (t : Text) : scalarTag (isPlain (.str t)) none t = .str := by
  rw [isPlain, scalarTag]
  split
  · rename_i h
    exact (ScalarStyle.isPlainText_of_plain (by simpa using h)).2
  · rfl

/-- A collection is read with its anchor: its node stands for it and is known by its label. -/
structure ReadsNode (again : List Nat) (env : Nat → Json) (opens written written' : List Nat)
    (anchor : Option Nat) (v : Json) (s s' : Reading) (p : Nat) : Prop where
  grows : Grows again env opens written written' s s'
  denotes : (known opens s'.nodes).Denotes p v
  named : ∀ n, anchor = some n → s'.anchors.lookup (anchorLabel n) = some p

section Collections

variable {opens written written' : List Nat} {anchor : Option Nat} {s s' : Reading} {bound : Nat}
  {lead : Lead} {r : List Token} {fuel : Nat}

theorem readsNode_closed (h : Ready again env opens written bound s)
    (ha : IsFree again written s anchor) {tag : Tag} {v : Json} {content : Content}
    (hg : Grows again env (s.nodes.size :: opens) written written'
      (s.opened (anchor.map anchorLabel) tag) s')
    (hv : ∀ ns : Places, ns s.nodes.size = some ⟨tag, content⟩ →
      (known (s.nodes.size :: opens) s'.nodes).Extends ns → ns.Denotes s.nodes.size v) :
    ReadsNode again env opens written written' anchor v s (s'.closed s.nodes.size ⟨tag, content⟩)
      s.nodes.size := by
  refine ⟨hg.closed ha _, hv _ (known_of_closed h hg _) known_close, ?_⟩
  rintro n rfl
  exact lookup_closed hg _

theorem reads_empty (isMap : Bool) (h : Ready again env opens written bound s)
    (ha : IsFree again written s anchor) (hd : s.depth < maxDepth) :
    ∃ s', read true (lead != .item) (fuel + 3)
      (s.on (anchorTokens anchor ++ emptyTokens isMap ++ r)) =
        .ok (s.nodes.size, s'.on r) ∧
      ReadsNode again env opens written written anchor (if isMap then .obj [] else .list []) s s'
        s.nodes.size := by
  refine ⟨(s.opened (anchor.map anchorLabel) (if isMap then .map else .seq)).closed s.nodes.size
    ⟨if isMap then .map else .seq, if isMap then .mapping [] else .sequence []⟩, ?_, ?_⟩
  · have hempty := readContent_empty (s := s) (r := r) true (lead != .item) isMap hd
      (anchor.map anchorLabel) fuel
    cases isMap with
    | false =>
      have hread := read_on (s := s) (t := .flowSequence) (r := .flowSequenceEnd :: r) rfl
        (fun n hn => (ha n hn).1) true (lead != .item) (fuel + 2)
      rw [List.append_assoc]
      exact hread.trans hempty
    | true =>
      have hread := read_on (s := s) (t := .flowMapping) (r := .flowMappingEnd :: r) rfl
        (fun n hn => (ha n hn).1) true (lead != .item) (fuel + 2)
      rw [List.append_assoc]
      exact hread.trans hempty
  · refine readsNode_closed h ha (.refl _) fun ns hns _ => ?_
    cases isMap with
    | false => exact ⟨[], hns, trivial⟩
    | true => exact ⟨[], hns, trivial⟩

/-- Items that stand where their key stands, up to what follows them. -/
theorem reads_hanging {vs : List Json} (hvs : ReadsItems again env vs) (hne : vs ≠ [])
    (h : Ready again env opens written (Json.itemsDepth vs) s) (ha : IsFree again written s anchor)
    (hd : s.depth + Json.itemsDepth vs + 1 ≤ maxDepth) (hr : Follows r)
    (hf : 4 * (anchorTokens anchor ++ itemsTokens (drawItems again written vs).1).length ≤
      fuel + 1) :
    ∃ s', read true true fuel
        (s.on (anchorTokens anchor ++ itemsTokens (drawItems again written vs).1 ++ r)) =
          .ok (s.nodes.size, s'.on r) ∧
      ReadsNode again env opens written (drawItems again written vs).2 anchor (.list vs) s s'
        s.nodes.size := by
  obtain ⟨its, hits⟩ : ∃ its, itemsTokens (drawItems again written vs).1 = .blockEntry :: its := by
    obtain ⟨v, vs, rfl⟩ := List.exists_cons_of_ne_nil hne
    simp [drawItems, itemsTokens]
  have hlen := congrArg List.length hits
  simp only [List.length_append, List.length_cons] at hf hlen
  obtain ⟨fuel, rfl⟩ : ∃ k, fuel = k + 2 := ⟨fuel - 2, by omega⟩
  obtain ⟨ps, s', hitems, hg, hden⟩ := hvs _ written true _ r fuel (h.opened ha .seq)
    (by rw [depth_opened]; omega) (fun _ => hr) (by omega) (by omega)
  refine ⟨_, ?_, readsNode_closed h ha hg fun ns hns hk => ⟨ps, hns, hden.mono hk⟩⟩
  have hread := read_on (s := s) (t := .blockEntry) (r := its ++ r) rfl
    (fun n hn => (ha n hn).1) true true (fuel + 1)
  rw [hits, if_pos rfl] at hitems
  rw [hits, List.append_assoc]
  refine hread.trans ?_
  rw [readContent_hanging]
  exact collect_eq (s := s.on (.blockEntry :: (its ++ r))) (by simp only [Reading.on]; omega)
    (map_eq hitems)

theorem reads_blockSequence {vs : List Json} (hvs : ReadsItems again env vs)
    (h : Ready again env opens written (Json.itemsDepth vs) s) (ha : IsFree again written s anchor)
    (hd : s.depth + Json.itemsDepth vs + 1 ≤ maxDepth) (hanging : Bool)
    (hf : 4 * (anchorTokens anchor ++ Token.blockSequence ::
      (itemsTokens (drawItems again written vs).1 ++ [Token.blockEnd])).length ≤ fuel + 1) :
    ∃ s', read true hanging fuel (s.on (anchorTokens anchor ++ .blockSequence ::
        (itemsTokens (drawItems again written vs).1 ++ [.blockEnd]) ++ r)) =
          .ok (s.nodes.size, s'.on r) ∧
      ReadsNode again env opens written (drawItems again written vs).2 anchor (.list vs) s s'
        s.nodes.size := by
  simp only [List.length_append, List.length_cons] at hf
  obtain ⟨fuel, rfl⟩ : ∃ k, fuel = k + 2 := ⟨fuel - 2, by omega⟩
  obtain ⟨ps, s', hitems, hg, hden⟩ := hvs _ written false _ r fuel (h.opened ha .seq)
    (by rw [depth_opened]; omega) (fun h => by cases h) (by omega) (by omega)
  refine ⟨_, ?_, readsNode_closed h ha hg fun ns hns hk => ⟨ps, hns, hden.mono hk⟩⟩
  have hread := read_on (s := s) (t := .blockSequence)
    (r := itemsTokens (drawItems again written vs).1 ++ .blockEnd :: r) rfl
    (fun n hn => (ha n hn).1) true hanging (fuel + 1)
  rw [if_neg Bool.false_ne_true] at hitems
  rw [List.append_assoc, List.cons_append, List.append_assoc]
  refine hread.trans ?_
  rw [readContent_blockSequence]
  exact collect_eq (s := s.on (itemsTokens (drawItems again written vs).1 ++ .blockEnd :: r))
    (by simp only [Reading.on]; omega) (map_eq hitems)

theorem reads_blockMapping {fs : List (Text × Json)} (hfs : ReadsFields again env fs)
    (h : Ready again env opens written (Json.fieldsDepth fs) s) (ha : IsFree again written s anchor)
    (hd : s.depth + Json.fieldsDepth fs + 1 ≤ maxDepth) (hanging : Bool)
    (hf : 4 * (anchorTokens anchor ++ Token.blockMapping ::
      (entriesTokens (drawFields again written fs).1 ++ [Token.blockEnd])).length ≤ fuel + 1) :
    ∃ s', read true hanging fuel (s.on (anchorTokens anchor ++ .blockMapping ::
        (entriesTokens (drawFields again written fs).1 ++ [.blockEnd]) ++ r)) =
          .ok (s.nodes.size, s'.on r) ∧
      ReadsNode again env opens written (drawFields again written fs).2 anchor (.obj fs) s s'
        s.nodes.size := by
  simp only [List.length_append, List.length_cons] at hf
  obtain ⟨fuel, rfl⟩ : ∃ k, fuel = k + 2 := ⟨fuel - 2, by omega⟩
  obtain ⟨es, s', hentries, hg, hden⟩ := hfs _ written _ r fuel (h.opened ha .map)
    (by rw [depth_opened]; omega) (by omega) (by omega)
  refine ⟨_, ?_, readsNode_closed h ha hg fun ns hns hk => ⟨es, hns, hden.mono hk⟩⟩
  have hread := read_on (s := s) (t := .blockMapping)
    (r := entriesTokens (drawFields again written fs).1 ++ .blockEnd :: r) rfl
    (fun n hn => (ha n hn).1) true hanging (fuel + 1)
  rw [List.append_assoc, List.cons_append, List.append_assoc]
  refine hread.trans ?_
  rw [readContent_blockMapping]
  exact collect_eq (s := s.on (entriesTokens (drawFields again written fs).1 ++ .blockEnd :: r))
    (by simp only [Reading.on]; omega) (map_eq hentries)

def ReadsCollection (again : List Nat) (env : Nat → Json) (v : Json) : Prop :=
  ∀ (opens written : List Nat) (anchor : Option Nat) (lead : Lead) (s : Reading) (r : List Token)
    (fuel : Nat),
    Ready again env opens written v.inner s → IsFree again written s anchor →
    s.depth + v.depth ≤ maxDepth → (lead ≠ .item → Follows r) →
    4 * (valueTokens lead (draw again written anchor v).1).length ≤ fuel + 1 →
    ∃ s', read true (lead != .item) fuel
        (s.on (valueTokens lead (draw again written anchor v).1 ++ r)) =
          .ok (s.nodes.size, s'.on r) ∧
      ReadsNode again env opens written (draw again written anchor v).2 anchor v s s' s.nodes.size

theorem readsCollection_list {vs : List Json} (hvs : ReadsItems again env vs) :
    ReadsCollection again env (.list vs) := by
  intro opens written anchor lead s r fuel h ha hd hr hf
  rw [draw] at hf ⊢
  simp only [Json.depth] at hd
  cases vs with
  | nil =>
    simp only [drawItems, valueTokens, List.isEmpty_nil, if_true] at hf ⊢
    obtain ⟨fuel, rfl⟩ : ∃ k, fuel = k + 3 := ⟨fuel - 3, by simp [emptyTokens] at hf; omega⟩
    exact reads_empty false h ha (by omega)
  | cons v vs =>
    have hne : (drawItems again written (v :: vs)).1.isEmpty = false := by simp [drawItems]
    by_cases hh : hangs lead anchor
    · have hlead : lead ≠ .item := by
        rintro rfl
        simp [hangs] at hh
      simp only [valueTokens, hne, hh, Bool.false_eq_true, if_false, if_true] at hf ⊢
      rw [show (lead != .item) = true by simpa using hlead]
      exact reads_hanging hvs (by simp) h ha hd (hr hlead) hf
    · simp only [valueTokens, hne, hh, Bool.false_eq_true, if_false] at hf ⊢
      exact reads_blockSequence hvs h ha hd _ hf

theorem readsCollection_obj {fs : List (Text × Json)} (hfs : ReadsFields again env fs) :
    ReadsCollection again env (.obj fs) := by
  intro opens written anchor lead s r fuel h ha hd _ hf
  rw [draw] at hf ⊢
  simp only [Json.depth] at hd
  cases fs with
  | nil =>
    simp only [drawFields, valueTokens, List.isEmpty_nil, if_true] at hf ⊢
    obtain ⟨fuel, rfl⟩ : ∃ k, fuel = k + 3 := ⟨fuel - 3, by simp [emptyTokens] at hf; omega⟩
    exact reads_empty true h ha (by omega)
  | cons f fs =>
    have hne : (drawFields again written (f :: fs)).1.isEmpty = false := by simp [drawFields]
    simp only [valueTokens, hne, Bool.false_eq_true, if_false] at hf ⊢
    exact reads_blockMapping hfs h ha hd _ hf

end Collections

section Parts

theorem follows_isProper {r : List Token} (h : Follows r) :
    ∃ t r', r = t :: r' ∧ IsProper t ∧ t ≠ .blockEntry := by
  obtain ⟨r', rfl | rfl⟩ := h
  · exact ⟨_, _, rfl, by rintro e ⟨⟩, by simp⟩
  · exact ⟨_, _, rfl, by rintro e ⟨⟩, by simp⟩

theorem readsItems_nil : ReadsItems again env [] := by
  intro opens written hanging s r fuel _ _ hr _ hf
  obtain ⟨fuel, rfl⟩ : ∃ k, fuel = k + 1 := ⟨fuel - 1, by omega⟩
  refine ⟨[], s, ?_, .refl s, trivial⟩
  cases hanging with
  | false => exact items_nil (s := s) (t := .blockEnd) false (fun h => by cases h) fun _ => rfl
  | true =>
    obtain ⟨t, r, rfl, ht, hne⟩ := follows_isProper (hr rfl)
    exact items_nil (s := s) (t := t) true (fun _ => ⟨ht, hne⟩) (fun h => by cases h)

theorem readsItems_cons {v : Json} {vs : List Json} (hv : ReadsValue again env v)
    (hvs : ReadsItems again env vs) : ReadsItems again env (v :: vs) := by
  intro opens written hanging s r fuel hs hd hr hf _
  have hdraw : drawItems again written (v :: vs) =
      ((draw again written none v).1 :: (drawItems again (draw again written none v).2 vs).1,
        (drawItems again (draw again written none v).2 vs).2) := by rw [drawItems]
  rw [hdraw] at hf ⊢
  simp only [itemsTokens, List.length_cons, List.length_append, Json.itemsDepth] at hf hd hs
  obtain ⟨t, ts, hts, ht, hkey, hentry⟩ :=
    exists_valueTokens_cons .item (draw again written none v).1
  have hlen := congrArg List.length hts
  rw [List.length_cons] at hlen
  obtain ⟨fuel, rfl⟩ : ∃ k, fuel = k + 2 := ⟨fuel - 2, by omega⟩
  obtain ⟨p, s', hread, hg, hden⟩ := hv opens written .item s
    (itemsTokens (drawItems again (draw again written none v).2 vs).1 ++
      (if hanging then r else .blockEnd :: r)) fuel
    (hs.mono (v.inner_le_depth.trans (Nat.le_max_left _ _))) (by omega) (fun h => absurd rfl h)
    (by omega)
  obtain ⟨ps, s'', hitems, hg', hden'⟩ := hvs opens _ hanging s' r (fuel + 1)
    ((hs.mono (Nat.le_max_right _ _)).grows hg) (by rw [hg.depth]; omega) hr (by omega) (by omega)
  refine ⟨p :: ps, s'', ?_, hg.trans hg', hden.mono hg'.known, hden'⟩
  simp only [itemsTokens, List.cons_append, List.append_assoc]
  refine items_cons ?_ hitems
  rw [hts] at hread ⊢
  rw [List.cons_append, readUnless_on ht]
  · exact hread
  · have := hentry rfl
    cases hanging <;> simp_all [itemEnds]

theorem follows_entriesTokens (es : List (Text × Outline)) (r : List Token) :
    Follows (entriesTokens es ++ .blockEnd :: r) := by
  cases es with
  | nil => exact ⟨r, .inr rfl⟩
  | cons e es =>
    obtain ⟨k, o⟩ := e
    exact ⟨_, .inl rfl⟩

theorem readsFields_nil : ReadsFields again env [] := by
  intro opens written s r fuel _ _ _ hf
  obtain ⟨fuel, rfl⟩ : ∃ k, fuel = k + 1 := ⟨fuel - 1, by omega⟩
  exact ⟨[], s, blockEntries_nil, .refl s, trivial⟩

theorem readsFields_cons {k : Text} {v : Json} {fs : List (Text × Json)}
    (hv : ReadsValue again env v) (hfs : ReadsFields again env fs) :
    ReadsFields again env ((k, v) :: fs) := by
  intro opens written s r fuel hs hd hf _
  have hdraw : drawFields again written ((k, v) :: fs) =
      ((k, (draw again written none v).1) :: (drawFields again (draw again written none v).2 fs).1,
        (drawFields again (draw again written none v).2 fs).2) := by rw [drawFields]
  rw [hdraw] at hf ⊢
  simp only [entriesTokens, List.length_cons, List.length_append, Json.fieldsDepth] at hf hd hs
  obtain ⟨t, ts, hts, ht, hends, -⟩ :=
    exists_valueTokens_cons (keyLead k) (draw again written none v).1
  have hlead : keyLead k ≠ .item := by
    unfold keyLead
    split <;> simp
  obtain ⟨fuel, rfl⟩ : ∃ j, fuel = j + 4 := ⟨fuel - 4, by omega⟩
  have hkey : Grows again env opens written written s (added s (leaf (.str k))) := .added s _
  have hknown : known opens (added s (leaf (.str k))).nodes s.nodes.size = some (leaf (.str k)) :=
    known_size hs.within
  obtain ⟨p, s', hread, hg, hden⟩ := hv opens written (keyLead k) (added s (leaf (.str k)))
    (entriesTokens (drawFields again (draw again written none v).2 fs).1 ++ .blockEnd :: r)
    (fuel + 1)
    ((hs.mono (v.inner_le_depth.trans (Nat.le_max_left _ _))).grows hkey)
    (by rw [hkey.depth]; omega) (fun _ => follows_entriesTokens _ r) (by omega)
  obtain ⟨es, s'', hentries, hg', hden'⟩ := hfs opens _ s' r (fuel + 3)
    (((hs.mono (Nat.le_max_right _ _)).grows hkey).grows hg)
    (by rw [hg.depth, hkey.depth]; omega) (by omega) (by omega)
  refine ⟨(s.nodes.size, p) :: es, s'', ?_, (hkey.trans hg).trans hg',
    (hg.known.trans hg'.known) _ _ hknown, hden.mono hg'.known, hden'⟩
  have hlead : (keyLead k != .item) = true := by simpa using hlead
  have hkeyRead (r : List Token) : readUnless [.key, .value, .blockEnd] true true (fuel + 3)
      (s.on (scalarToken (.str k) :: r)) =
        .ok (s.nodes.size, (added s (leaf (.str k))).on r) := by
    rw [readUnless_on (by rintro e ⟨⟩) (by simp [scalarToken])]
    exact read_scalarToken (scalarTag_str k) s r true fuel
  simp only [entriesTokens, List.cons_append, List.append_assoc]
  refine blockEntries_cons (hkeyRead _) ?_ hentries
  rw [hts, hlead] at hread
  rw [readValue_on, hts, List.cons_append, readUnless_on ht hends]
  exact hread

end Parts

section Objects

variable {opens written written' : List Nat} {s s' : Reading} {m n p : Nat} {w : Json} {bound : Nat}

theorem ReadsNode.grows_object
    (h : ReadsNode again env opens (m :: written) written' (some n) w s s' p)
    (hn : number? again m = some n) (he : env m = w) :
    Grows again env opens written written' s s' := by
  have hg := h.grows
  refine ⟨hg.known, hg.size, hg.anchors, hg.named, hg.depth, fun k hk => ?_,
    fun k hk => hg.keeps k (List.mem_cons_of_mem m hk)⟩
  rcases hg.fresh k hk with hk | hk
  · rcases List.mem_cons.1 hk with rfl | hk
    · exact .inr ⟨n, p, hn, h.named n rfl, he ▸ h.denotes⟩
    · exact .inl hk
  · exact .inr hk

/-- An object that is being written is deeper than its parts. -/
theorem Ready.object (h : Ready again env opens written bound s) {b : Nat} (hb : b ≤ bound)
    (hm : b < (env m).depth) : Ready again env opens (m :: written) b s := by
  refine ⟨h.within, fun name p hp => ?_, fun k hk => ?_⟩
  · obtain ⟨k, hk, hname⟩ := h.named name p hp
    exact ⟨k, List.mem_cons_of_mem m hk, hname⟩
  · rcases List.mem_cons.1 hk with rfl | hk
    · exact .inr hm
    · exact (h.mono hb).knows k hk

theorem isFree_object (h : Ready again env opens written bound s) (hn : number? again m = some n)
    (hm : m ∉ written) : IsFree again (m :: written) s (some n) := by
  rintro _ ⟨⟩
  exact ⟨h.lookup_label hn hm, m, by simp, hn⟩

theorem isFree_none : IsFree again written s none := by
  rintro n ⟨⟩

end Objects

theorem reads_alias {opens written : List Nat} {s : Reading} {m n : Nat}
    (h : Knows again env opens s m) (hn : number? again m = some n) (r : List Token)
    (hanging : Bool) (fuel : Nat) : ∃ p,
      read true hanging (fuel + 1) (s.on (.alias (anchorLabel n) :: r)) = .ok (p, s.on r) ∧
        Grows again env opens written written s s ∧ (known opens s.nodes).Denotes p (env m) := by
  obtain ⟨k, p, hk, hp, hd⟩ := h
  obtain rfl := Option.some.inj (hn.symm.trans hk)
  exact ⟨p, read_alias hp true hanging fuel, .refl s, hd⟩

end Values

section Documents

variable {again : List Nat} {env : Nat → Json}

section Draw

variable {written : List Nat} {anchor : Option Nat} {m n : Nat} {w : Json}

theorem draw_shared_none (hn : number? again m = none) :
    draw again written anchor (.shared m w) = draw again written anchor w := by
  rw [draw, hn]

theorem draw_shared_alias (hn : number? again m = some n) (hm : m ∈ written) :
    draw again written anchor (.shared m w) = (.alias n, written) := by
  rw [draw, hn]
  simp [hm]

theorem draw_shared_new (hn : number? again m = some n) (hm : m ∉ written) :
    draw again written anchor (.shared m w) = draw again (m :: written) (some n) w := by
  rw [draw, hn]
  simp [hm]

end Draw

theorem ReadsCollection.readsValue {v : Json} (h : ReadsCollection again env v) :
    ReadsValue again env v := by
  intro opens written lead s r fuel hr hdepth hfol hf
  obtain ⟨s', hread, hn⟩ := h opens written none lead s r fuel hr isFree_none hdepth hfol hf
  exact ⟨_, s', hread, hn.grows, hn.denotes⟩

/-- A shared object: without a number it is read as its value, at its first place as a collection
with an anchor, and in another place as an alias. -/
theorem readsValue_shared {m : Nat} {w : Json} (he : env m = w) (hv : ReadsValue again env w)
    (hw : m ∈ again → ReadsCollection again env w ∧ w.inner < w.depth) :
    ReadsValue again env (.shared m w) := by
  intro opens written lead s r fuel hr hdepth hfol hf
  cases hn : number? again m with
  | none =>
    rw [draw_shared_none hn] at hf ⊢
    exact hv opens written lead s r fuel (hr.mono w.inner_le_depth) hdepth hfol hf
  | some n =>
    by_cases hm : m ∈ written
    · have hknows : Knows again env opens s m :=
        (hr.knows m hm).resolve_right fun h => Nat.lt_irrefl w.depth (he ▸ h)
      rw [draw_shared_alias hn hm] at hf ⊢
      obtain ⟨fuel, rfl⟩ : ∃ k, fuel = k + 1 := ⟨fuel - 1, by simp [valueTokens] at hf; omega⟩
      obtain ⟨p, hread, hg, hden⟩ := reads_alias hknows hn r (lead != .item) fuel
      exact ⟨p, s, hread, hg, he ▸ hden⟩
    · obtain ⟨hcol, hdeep⟩ := hw (mem_of_number? hn)
      rw [draw_shared_new hn hm] at hf ⊢
      obtain ⟨s', hread, hnode⟩ := hcol opens (m :: written) (some n) lead s r fuel
        (hr.object w.inner_le_depth (he ▸ hdeep)) (isFree_object hr hn hm) hdepth hfol hf
      exact ⟨_, s', hread, hnode.grows_object hn he, hnode.denotes⟩

mutual

theorem reads_value (hagain : ∀ m ∈ again, isCollection (env m)) {v : Json} (hd : v.IsData)
    (hs : v.Shares env) : ReadsValue again env v := by
  cases v with
  | null => exact readsValue_scalar (fun _ => rfl) ofForm_null fun _ _ h => h
  | bool b => exact readsValue_scalar (fun _ => rfl) (ofForm_bool b) fun _ _ h => h
  | int n => exact readsValue_scalar (fun _ => rfl) (ofForm_ofInt n) fun _ _ h => h
  | str t => exact readsValue_scalar (fun _ => rfl) (scalarTag_str t) fun _ _ h => h
  | float x => exact hd.elim
  | list vs => exact (readsCollection_list (reads_items hagain hd hs)).readsValue
  | obj fs => exact (readsCollection_obj (reads_fields hagain hd.2 hs)).readsValue
  | shared m w =>
    obtain ⟨he, hbare, hs⟩ := hs
    refine readsValue_shared he (reads_value (v := w) hagain hd hs) fun hm => ?_
    have hcol := hagain m hm
    rw [he] at hcol
    cases w with
    | list vs => exact ⟨readsCollection_list (reads_items hagain hd hs), Nat.lt_succ_self _⟩
    | obj fs => exact ⟨readsCollection_obj (reads_fields hagain hd.2 hs), Nat.lt_succ_self _⟩
    | shared k w => exact absurd hbare (Json.bare_ne_shared _ k w)
    | _ => cases hcol

theorem reads_items (hagain : ∀ m ∈ again, isCollection (env m)) {vs : List Json}
    (hd : Json.ItemsAreData vs) (hs : Json.ItemsShare env vs) : ReadsItems again env vs := by
  cases vs with
  | nil => exact readsItems_nil
  | cons v vs => exact readsItems_cons (reads_value hagain hd.1 hs.1) (reads_items hagain hd.2 hs.2)

theorem reads_fields (hagain : ∀ m ∈ again, isCollection (env m)) {fs : List (Text × Json)}
    (hd : Json.FieldsAreData fs) (hs : Json.FieldsShare env fs) : ReadsFields again env fs := by
  cases fs with
  | nil => exact readsFields_nil
  | cons f fs =>
    obtain ⟨k, v⟩ := f
    exact readsFields_cons (reads_value hagain hd.2.1 hs.1) (reads_fields hagain hd.2.2 hs.2)

end

end Documents

end RouteAtlas.Yaml
