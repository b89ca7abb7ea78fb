import Mathlib.Data.List.Forall2
import RouteAtlas.Proofs.Value.Denotes
import RouteAtlas.Proofs.Yaml.Nodes

/-!
# Values of nodes

Each node is given one value. A collection gets its parts when those met before it have theirs, in
no more rounds than there are nodes.
-/

namespace RouteAtlas.Yaml

namespace Making

def Has (s : Making) (p : Nat) (u : Value) : Prop := s.values[p]? = some (some u)

/-- The parts of a collection stand in its place, all of them values of their nodes. -/
def Filled (ns : Nodes) (s : Making) (p i : Nat) : Prop :=
  match ns[p]? with
  | some ⟨.seq, .sequence ps⟩ => ∃ us, s.collections[i]? = some (.list us) ∧
      List.Forall₂ s.Has ps us
  | some ⟨.map, .mapping es⟩ => ∃ us, s.collections[i]? = some (.map us) ∧
      List.Forall₂ (fun e u => s.Has e.1 u.1 ∧ s.Has e.2 u.2) es us
  | _ => False

/-- A value that a node can have: that of its text, or a place of a collection. -/
def Means (ns : Nodes) (p : Nat) (u : Value) : Prop :=
  match ns[p]? with
  | some ⟨tag, .scalar t⟩ => scalarValue tag t = .ok u
  | some _ => ∃ i, u = .collection i
  | none => False

def IsGood (ns : Nodes) (p : Nat) : Prop := ∃ v : Json, v.IsData ∧ Places.Denotes (ns[·]?) p v

/-- A document in the making: what has a value has its own, and a collection has parts unless it is
due. -/
structure Sound (ns : Nodes) (rest : List (Nat × Nat)) (s : Making) : Prop where
  nodes : s.nodes = ns
  size : s.values.size = ns.size
  means : ∀ p u, s.Has p u → Means ns p u
  filled : ∀ p i, s.Has p (.collection i) → i < s.collections.size ∧
    ((p, i) ∈ rest ++ s.due ∨ Filled ns s p i)
  due : ∀ q ∈ rest ++ s.due, s.Has q.1 (.collection q.2) ∧ IsGood ns q.1
  unique : ∀ p q i, s.Has p (.collection i) → s.Has q (.collection i) → p = q

def missing (s : Making) : Nat := s.values.toList.countP Option.isNone

/-- Values stay, and only nodes that had none are due. -/
structure Later (s s' : Making) : Prop where
  has : ∀ p u, s.Has p u → s'.Has p u
  missing : s'.missing + s'.due.length ≤ s.missing + s.due.length

theorem Later.refl (s : Making) : Later s s := ⟨fun _ _ h => h, Nat.le_refl _⟩

theorem Later.trans {s s' s'' : Making} (h : Later s s') (h' : Later s' s'') : Later s s'' :=
  ⟨fun p u hu => h'.has p u (h.has p u hu), h'.missing.trans h.missing⟩

section Nodes

variable {ns : Nodes} {p : Nat}

structure IsLeaf (n : Node) (u : Value) : Prop where
  text : ∃ t, n.content = .scalar t ∧ scalarValue n.tag t = .ok u
  plain : ∀ i, u ≠ .collection i
  collection : n.tag.collection? = none
  timestamp : n.tag ≠ .timestamp

def AreGood (ns : Nodes) (es : List (Nat × Nat)) : Prop :=
  (∀ e ∈ es, IsGood ns e.1 ∧ IsGood ns e.2) ∧
    ∃ ts : List Text, ts.Nodup ∧ List.Forall₂ (fun e t => ns[e.1]? = some ⟨.str, .scalar t⟩) es ts

theorem isLeaf_null : IsLeaf ⟨.null, .scalar (form .null)⟩ .null :=
  ⟨⟨_, rfl, rfl⟩, by simp, rfl, by simp⟩

theorem isLeaf_bool (b : Bool) : IsLeaf ⟨.bool, .scalar (form (.bool b))⟩ (.bool b) := by
  refine ⟨⟨_, rfl, ?_⟩, by simp, rfl, by simp⟩
  cases b <;> decide +kernel

theorem isLeaf_int {n : Int} (h : Decimal.tooLong n.natAbs = false) :
    IsLeaf ⟨.int, .scalar (form (.int n))⟩ (.int n) := by
  refine ⟨⟨_, rfl, ?_⟩, by simp, rfl, by simp⟩
  simp only [scalarValue, form, Number.int_ofInt h]
  rfl

theorem isLeaf_str (t : Text) : IsLeaf ⟨.str, .scalar t⟩ (.str t) :=
  ⟨⟨_, rfl, rfl⟩, by simp, rfl, by simp⟩

theorem isGood_items {ps : List Nat} {vs : List Json} (hd : Json.ItemsAreData vs)
    (h : Places.DenoteItems (ns[·]?) ps vs) : ∀ q ∈ ps, IsGood ns q := by
  induction ps generalizing vs with
  | nil => simp
  | cons p ps ih =>
    cases vs with
    | nil => exact h.elim
    | cons v vs => simpa using ⟨⟨v, hd.1, h.1⟩, ih hd.2 h.2⟩

theorem areGood_fields {es : List (Nat × Nat)} {fs : List (Text × Json)}
    (hn : (fs.map (·.1)).Nodup) (hd : Json.FieldsAreData fs)
    (h : Places.DenoteFields (ns[·]?) es fs) : AreGood ns es := by
  suffices h : (∀ e ∈ es, IsGood ns e.1 ∧ IsGood ns e.2) ∧
      List.Forall₂ (fun e t => ns[e.1]? = some ⟨.str, .scalar t⟩) es (fs.map (·.1)) from
    ⟨h.1, _, hn, h.2⟩
  clear hn
  induction es generalizing fs with
  | nil =>
    cases fs with
    | nil => simp
    | cons f fs => exact h.elim
  | cons e es ih =>
    cases fs with
    | nil => exact h.elim
    | cons f fs =>
      obtain ⟨k, v⟩ := f
      obtain ⟨hk, hv, h⟩ := h
      obtain ⟨ih₁, ih₂⟩ := ih hd.2.2 h
      refine ⟨List.forall_mem_cons.2 ⟨⟨⟨.str k, hd.1, hk⟩, v, hd.2.1, hv⟩, ih₁⟩, .cons hk ih₂⟩

theorem IsGood.cases (h : IsGood ns p) : ∃ n, ns[p]? = some n ∧ ((∃ u, IsLeaf n u) ∨
    (∃ ps, n = ⟨.seq, .sequence ps⟩ ∧ ∀ q ∈ ps, IsGood ns q) ∨
      ∃ es, n = ⟨.map, .mapping es⟩ ∧ AreGood ns es) := by
  obtain ⟨v, hd, h⟩ := h
  induction v using Json.bare.induct with
  | case1 m v ih => exact ih hd h
  | case2 v hv =>
    cases v with
    | null => exact ⟨_, h, .inl ⟨_, isLeaf_null⟩⟩
    | bool b => exact ⟨_, h, .inl ⟨_, isLeaf_bool b⟩⟩
    | int n => exact ⟨_, h, .inl ⟨_, isLeaf_int hd⟩⟩
    | str t => exact ⟨_, h, .inl ⟨_, isLeaf_str t⟩⟩
    | float x => exact hd.elim
    | list vs =>
      obtain ⟨ps, hp, h⟩ := h
      exact ⟨_, hp, .inr (.inl ⟨ps, rfl, isGood_items hd h⟩)⟩
    | obj fs =>
      obtain ⟨es, hp, h⟩ := h
      exact ⟨_, hp, .inr (.inr ⟨es, rfl, areGood_fields hd.1 hd.2 h⟩)⟩
    | shared m v => exact absurd rfl (hv m v)

end Nodes

section Given

variable {ns : Nodes} {rest : List (Nat × Nat)} {s s' : Making} {p q i : Nat} {u w : Value}

def given (s : Making) (p : Nat) (u : Value) : Making :=
  { s with values := s.values.setIfInBounds p (some u) }

theorem has_given (hp : p < s.values.size) :
    (s.given p u).Has q w ↔ q = p ∧ w = u ∨ q ≠ p ∧ s.Has q w := by
  by_cases hq : q = p
  · subst hq
    simp [Has, given, hp, eq_comm]
  · simp [Has, given, Array.getElem?_setIfInBounds_ne (Ne.symm hq), hq]

theorem missing_given (hp : s.values[p]? = some none) :
    (s.given p u).missing + 1 = s.missing := by
  obtain ⟨hlt, hv⟩ := Array.getElem?_eq_some_iff.1 hp
  have hpos : 0 < s.values.toList.countP Option.isNone :=
    List.countP_pos_iff.2 ⟨none, by rw [← hv]; exact Array.getElem_mem_toList hlt, rfl⟩
  have hlt' : p < s.values.toList.length := by simpa using hlt
  simp only [missing, given, Array.toList_setIfInBounds]
  rw [List.countP_set hlt']
  simp only [Array.getElem_toList, hv, Option.isNone_none, Option.isNone_some, if_true,
    Bool.false_eq_true, if_false]
  omega

theorem Filled.mono (h : Filled ns s p i) (hv : ∀ q w, s.Has q w → s'.Has q w)
    (hc : s'.collections[i]? = s.collections[i]?) : Filled ns s' p i := by
  unfold Filled at h ⊢
  split at h
  · obtain ⟨us, hi, hu⟩ := h
    exact ⟨us, hc.trans hi, hu.imp fun _ _ h => hv _ _ h⟩
  · obtain ⟨us, hi, hu⟩ := h
    exact ⟨us, hc.trans hi, hu.imp fun _ _ h => ⟨hv _ _ h.1, hv _ _ h.2⟩⟩
  · exact h

theorem IsLeaf.means {n : Node} (h : IsLeaf n u) (hn : ns[p]? = some n) : Means ns p u := by
  obtain ⟨t, ht, hu⟩ := h.text
  obtain ⟨tag, content⟩ := n
  obtain rfl := ht
  rw [Means, hn]
  exact hu

theorem Sound.given_leaf (h : Sound ns rest s) (hp : s.values[p]? = some none) {n : Node}
    (hn : ns[p]? = some n) (hu : IsLeaf n u) :
    Sound ns rest (s.given p u) ∧ Later s (s.given p u) := by
  have hlt : p < s.values.size := (Array.getElem?_eq_some_iff.1 hp).1
  have hhas : ∀ q w, s.Has q w → (s.given p u).Has q w := fun q w hw =>
    (has_given hlt).2 (.inr ⟨by rintro rfl; simp [Has, hp] at hw, hw⟩)
  have hold {q i : Nat} (hq : (s.given p u).Has q (.collection i)) : s.Has q (.collection i) := by
    rcases (has_given hlt).1 hq with ⟨-, he⟩ | ⟨-, hq⟩
    · exact absurd he.symm (hu.plain i)
    · exact hq
  refine ⟨⟨h.nodes, by simp [given, h.size], fun q w hw => ?_, fun q i hq => ?_,
    fun q hq => ⟨hhas _ _ (h.due q hq).1, (h.due q hq).2⟩,
    fun q q' i hq hq' => h.unique q q' i (hold hq) (hold hq')⟩, hhas, ?_⟩
  · rcases (has_given hlt).1 hw with ⟨rfl, rfl⟩ | ⟨-, hw⟩
    · exact hu.means hn
    · exact h.means q w hw
  · obtain ⟨hi, hf⟩ := h.filled q i (hold hq)
    exact ⟨hi, hf.imp_right fun hf => hf.mono hhas rfl⟩
  · have := missing_given (u := u) hp
    simp only [given] at this ⊢
    omega

def placed (s : Making) (p : Nat) (c : Collection) : Making :=
  { s.given p (.collection s.collections.size) with
    collections := s.collections.push c
    due := (p, s.collections.size) :: s.due }

theorem Sound.placed (h : Sound ns rest s) (hp : s.values[p]? = some none) {n : Node}
    (hn : ns[p]? = some n) (hg : IsGood ns p) (hc : ∀ t, n.content ≠ .scalar t) (c : Collection) :
    Sound ns rest (s.placed p c) ∧ Later s (s.placed p c) := by
  have hlt : p < s.values.size := (Array.getElem?_eq_some_iff.1 hp).1
  have hhas : ∀ q w, s.Has q w → (s.placed p c).Has q w := fun q w hw =>
    (has_given hlt).2 (.inr ⟨by rintro rfl; simp [Has, hp] at hw, hw⟩)
  have hnew : (s.placed p c).Has p (.collection s.collections.size) :=
    (has_given hlt).2 (.inl ⟨rfl, rfl⟩)
  have hold {q i : Nat} (hq : (s.placed p c).Has q (.collection i)) :
      q = p ∧ i = s.collections.size ∨ s.Has q (.collection i) ∧ i < s.collections.size := by
    rcases (has_given hlt).1 hq with ⟨he, hi⟩ | ⟨-, hq⟩
    · exact .inl ⟨he, by injection hi⟩
    · exact .inr ⟨hq, (h.filled q i hq).1⟩
  refine ⟨⟨h.nodes, by simp [Making.placed, given, h.size], fun q w hw => ?_, fun q i hq => ?_,
    fun q hq => ?_, fun q q' i hq hq' => ?_⟩, hhas, ?_⟩
  · rcases (has_given hlt).1 hw with ⟨rfl, rfl⟩ | ⟨-, hw⟩
    · obtain ⟨tag, content⟩ := n
      rw [Means, hn]
      cases content with
      | scalar t => exact absurd rfl (hc t)
      | _ => exact ⟨_, rfl⟩
    · exact h.means q w hw
  · rcases hold hq with ⟨rfl, rfl⟩ | ⟨hq, hlti⟩
    · simp [Making.placed]
    · obtain ⟨hi, hf⟩ := h.filled q i hq
      refine ⟨by simp [Making.placed]; omega, hf.imp (fun hf => ?_) fun hf => hf.mono hhas ?_⟩
      · simp only [Making.placed, List.mem_append, List.mem_cons] at hf ⊢
        exact hf.imp_right .inr
      · rw [Making.placed, Array.getElem?_push_lt hlti, Array.getElem?_eq_getElem hlti]
  · simp only [Making.placed, List.mem_append, List.mem_cons] at hq
    rcases hq with hq | rfl | hq
    · exact ⟨hhas _ _ (h.due q (by simp [hq])).1, (h.due q (by simp [hq])).2⟩
    · exact ⟨hnew, hg⟩
    · exact ⟨hhas _ _ (h.due q (by simp [hq])).1, (h.due q (by simp [hq])).2⟩
  · rcases hold hq with ⟨rfl, rfl⟩ | ⟨hq, hi⟩
    · exact (hold hq').elim (fun h => h.1.symm) fun h => absurd h.2 (Nat.lt_irrefl _)
    · exact (hold hq').elim (fun h => absurd hi (h.2 ▸ Nat.lt_irrefl _)) fun h' =>
        h.unique q q' i hq h'.1
  · have := missing_given (u := .collection s.collections.size) hp
    simp only [Making.placed, given, List.length_cons] at this ⊢
    simp only [missing] at this ⊢
    omega

end Given

end Making

open Making

section Values

variable {ns : Nodes} {rest : List (Nat × Nat)} {s s' : Making} {p : Nat} {u : Value} {n : Node}

theorem tagAt_eq (hn : ns[p]? = some n) : ns.tagAt p = n.tag := by simp [Nodes.tagAt, hn]

theorem scalar_of_leaf (hn : ns[p]? = some n) (hu : IsLeaf n u) : ns.scalar p = .ok u := by
  obtain ⟨t, ht, hu'⟩ := hu.text
  have htext : ns.text Nodes.maxDepth p = .ok t := by
    rw [Nodes.maxDepth, Nodes.text, hn]
    simp [ht]
  rw [Nodes.scalar, htext]
  simp [bind, Except.bind, tagAt_eq hn, hu.timestamp, hu']

/-- A node of plain data has a value or is given one. -/
theorem value_run (h : Sound ns rest s) (hp : IsGood ns p) : ∃ u s', Maker.value p s = .ok (u, s') ∧
    s'.Has p u ∧ Sound ns rest s' ∧ Later s s' := by
  obtain ⟨n, hn, hcases⟩ := hp.cases
  have hlt : p < s.values.size := by
    rw [h.size]
    exact (Array.getElem?_eq_some_iff.1 hn).1
  rw [Maker.value, bind_eq (get_eq s)]
  cases hv : s.values[p] with
  | some u =>
    have hv : s.values[p]? = some (some u) := by rw [Array.getElem?_eq_getElem hlt, hv]
    rw [hv]
    exact ⟨u, s, rfl, hv, h, .refl s⟩
  | none =>
    have hv : s.values[p]? = some none := by rw [Array.getElem?_eq_getElem hlt, hv]
    have htag : s.nodes.tagAt p = n.tag := h.nodes ▸ tagAt_eq hn
    rw [hv]
    dsimp only
    rw [htag]
    rcases hcases with ⟨u, hu⟩ | ⟨ps, rfl, -⟩ | ⟨es, rfl, -⟩
    · have hscalar : s.nodes.scalar p = .ok u := h.nodes ▸ scalar_of_leaf hn hu
      obtain ⟨hs, hl⟩ := h.given_leaf hv hn hu
      rw [hu.collection]
      dsimp only
      rw [hscalar]
      exact ⟨u, s.given p u, rfl, (has_given hlt).2 (.inl ⟨rfl, rfl⟩), hs, hl⟩
    · obtain ⟨hs, hl⟩ := h.placed hv hn hp (by simp) (.list [])
      exact ⟨_, s.placed p (.list []), rfl, (has_given hlt).2 (.inl ⟨rfl, rfl⟩), hs, hl⟩
    · obtain ⟨hs, hl⟩ := h.placed hv hn hp (by simp) (.map [])
      exact ⟨_, s.placed p (.map []), rfl, (has_given hlt).2 (.inl ⟨rfl, rfl⟩), hs, hl⟩

theorem values_run {ps : List Nat} (h : Sound ns rest s) (hps : ∀ q ∈ ps, IsGood ns q) :
    ∃ us s', ps.mapM Maker.value s = .ok (us, s') ∧ List.Forall₂ s'.Has ps us ∧
      Sound ns rest s' ∧ Later s s' := by
  induction ps generalizing s with
  | nil => exact ⟨[], s, rfl, .nil, h, .refl s⟩
  | cons p ps ih =>
    obtain ⟨u, s₁, hu, hhas, hs₁, hl₁⟩ := value_run h (hps p (by simp))
    obtain ⟨us, s₂, hus, hall, hs₂, hl₂⟩ := ih hs₁ fun q hq => hps q (by simp [hq])
    refine ⟨u :: us, s₂, ?_, .cons (hl₂.has _ _ hhas) hall, hs₂, hl₁.trans hl₂⟩
    rw [List.mapM_cons, bind_eq hu, bind_eq hus]
    rfl

section Keys

theorem same_str {j k : Key} {t t' : Text} (hj : j.value = .str t) (hk : k.value = .str t') :
    j.same k = (t == t') := by
  simp [Key.same, hj, hk, Value.sameKey]

theorem put_of_new {k : Key} {v : Value} {acc : List (Key × Value)}
    (h : ∀ e ∈ acc, e.1.same k = false) : Key.put k v acc = acc ++ [(k, v)] := by
  induction acc with
  | nil => rfl
  | cons e acc ih =>
    obtain ⟨j, w⟩ := e
    have hj : j.same k = false := h (j, w) (by simp)
    rw [Key.put, hj, ih fun e he => h e (by simp [he])]
    simp

theorem eq_str_of_has {t : Text} (h : Sound ns rest s) (hn : ns[p]? = some ⟨.str, .scalar t⟩)
    (hu : s.Has p u) : u = .str t := by
  have := h.means p u hu
  rw [Means, hn] at this
  exact (Except.ok.inj this).symm

theorem entry_run (origin : Value → Nat × Nat → Nat) {e : Nat × Nat} {t : Text}
    (h : Sound ns rest s) (he : IsGood ns e.1 ∧ IsGood ns e.2)
    (hn : ns[e.1]? = some ⟨.str, .scalar t⟩) {acc : List (Key × Value)}
    (hacc : ∀ a ∈ acc, ∃ t', a.1.value = .str t' ∧ t' ≠ t) :
    ∃ v s', (do
        let k ← Maker.value e.1
        if !k.isKey then throw .malformed
        let v ← Maker.value e.2
        return Key.put ⟨k, origin k e⟩ v acc : Maker (List (Key × Value))) s =
          .ok (acc ++ [(⟨.str t, origin (.str t) e⟩, v)], s') ∧
      s'.Has e.1 (.str t) ∧ s'.Has e.2 v ∧ Sound ns rest s' ∧ Later s s' := by
  obtain ⟨k, s₁, hkr, hkh, hs₁, hl₁⟩ := value_run h he.1
  obtain ⟨v, s₂, hvr, hvh, hs₂, hl₂⟩ := value_run hs₁ he.2
  obtain rfl := eq_str_of_has hs₁ hn hkh
  have hput : Key.put ⟨.str t, origin (.str t) e⟩ v acc =
      acc ++ [(⟨.str t, origin (.str t) e⟩, v)] := by
    refine put_of_new fun a ha => ?_
    obtain ⟨t', ht', hne⟩ := hacc a ha
    rw [same_str ht' rfl]
    exact beq_false_of_ne hne
  refine ⟨v, s₂, ?_, hl₂.has _ _ hkh, hvh, hs₂, hl₁.trans hl₂⟩
  rw [bind_eq hkr]
  rw [if_neg (show ¬ (!(Value.str t).isKey) = true by simp [Value.isKey])]
  dsimp only
  rw [bind_eq hvr, hput]
  rfl

theorem entries_fold (origin : Value → Nat × Nat → Nat) {es : List (Nat × Nat)} {ts : List Text}
    (h : Sound ns rest s) (hes : ∀ e ∈ es, IsGood ns e.1 ∧ IsGood ns e.2) (hts : ts.Nodup)
    (hkeys : List.Forall₂ (fun e t => ns[e.1]? = some ⟨.str, .scalar t⟩) es ts)
    (acc : List (Key × Value)) (hacc : ∀ a ∈ acc, ∃ t, a.1.value = .str t ∧ t ∉ ts) :
    ∃ us s', es.foldlM (fun (acc : List (Key × Value)) e => (do
        let k ← Maker.value e.1
        if !k.isKey then throw .malformed
        let v ← Maker.value e.2
        return Key.put ⟨k, origin k e⟩ v acc : Maker (List (Key × Value)))) acc s =
          .ok (acc ++ us, s') ∧
      List.Forall₂ (fun e u => s'.Has e.1 u.1.value ∧ s'.Has e.2 u.2) es us ∧
        Sound ns rest s' ∧ Later s s' := by
  induction hkeys generalizing s acc with
  | nil => exact ⟨[], s, by rw [List.append_nil]; rfl, .nil, h, .refl s⟩
  | @cons e t es ts hn hkeys ih =>
    obtain ⟨hnt, hts⟩ := List.nodup_cons.1 hts
    obtain ⟨v, s₁, hrun, hk, hv, hs₁, hl₁⟩ := entry_run origin h (hes e (by simp)) hn fun a ha => by
      obtain ⟨t', ht', hne⟩ := hacc a ha
      exact ⟨t', ht', fun he => hne (by simp [he])⟩
    have hacc' : ∀ a ∈ acc ++ [((⟨.str t, origin (.str t) e⟩, v) : Key × Value)],
        ∃ t', a.1.value = .str t' ∧ t' ∉ ts := by
      intro a ha
      rcases List.mem_append.1 ha with ha | ha
      · obtain ⟨t', ht', hne⟩ := hacc a ha
        exact ⟨t', ht', fun h => hne (by simp [h])⟩
      · obtain rfl := List.mem_singleton.1 ha
        exact ⟨t, rfl, hnt⟩
    obtain ⟨us, s₂, hfold, hall, hs₂, hl₂⟩ :=
      ih hs₁ (fun e he => hes e (by simp [he])) hts _ hacc'
    refine ⟨(⟨.str t, origin (.str t) e⟩, v) :: us, s₂, ?_,
      .cons ⟨hl₂.has _ _ hk, hl₂.has _ _ hv⟩ hall, hs₂, hl₁.trans hl₂⟩
    rw [List.append_assoc] at hfold
    rw [List.foldlM_cons, bind_eq hrun]
    exact hfold

end Keys

section Parts

theorem tagAt_key {es : List (Nat × Nat)} (h : AreGood ns es) : ∀ e ∈ es, ns.tagAt e.1 = .str := by
  obtain ⟨-, ts, -, hts⟩ := h
  induction hts with
  | nil => simp
  | cons he _ ih => simpa [tagAt_eq he] using ih

/-- A mapping without merge keys is not changed by merging. -/
theorem resolve_of_good {es : List (Nat × Nat)} (hn : ns[p]? = some ⟨.map, .mapping es⟩)
    (h : AreGood ns es) (fuel : Nat) : Nodes.resolve ns [] p (fuel + 1) = .ok ns := by
  have hkeys := tagAt_key h
  have hmerge : ns.takeMerge es = none := by
    clear hn h
    induction es with
    | nil => rfl
    | cons e es ih =>
      obtain ⟨k, v⟩ := e
      have hk : ns.tagAt k = .str := hkeys (k, v) (by simp)
      rw [Nodes.takeMerge, ih fun e he => hkeys e (by simp [he]), hk]
      rfl
  have hretag : (es.map (·.1)).foldl Nodes.retag ns = ns := by
    clear hn h hmerge
    induction es with
    | nil => rfl
    | cons e es ih =>
      have hk : ns.retag e.1 = ns := by
        have := hkeys e (by simp)
        unfold Nodes.retag
        split
        · rename_i n hn
          rw [tagAt_eq hn] at this
          simp [this]
        · rfl
      rw [List.map_cons, List.foldl_cons, hk]
      exact ih fun e he => hkeys e (by simp [he])
  have hes : ns.entries? p = some es := by simp [Nodes.entries?, hn]
  rw [Nodes.resolve, hes]
  simp only [hmerge, hretag]
  rfl

theorem entries_run {es : List (Nat × Nat)} (h : Sound ns rest s)
    (hn : ns[p]? = some ⟨.map, .mapping es⟩) (hes : AreGood ns es) (bound : Nat) :
    ∃ us s', Maker.entries (bound + 1) p s = .ok (us, s') ∧
      List.Forall₂ (fun e u => s'.Has e.1 u.1 ∧ s'.Has e.2 u.2) es us ∧ Sound ns rest s' ∧
        Later s s' := by
  obtain ⟨hgood, ts, hts, hkeys⟩ := hes
  obtain ⟨us, s', hfold, hall, hs, hl⟩ := entries_fold (fun k e =>
    if k = .float .undefined && Maker.entries.isPoint ns e.1 then 0 else e.1 + 1)
      h hgood hts hkeys [] (by simp)
  refine ⟨us.map fun e => (e.1.value, e.2), s', ?_, ?_, hs, hl⟩
  · have hresolve := resolve_of_good hn ⟨hgood, ts, hts, hkeys⟩ bound
    have hentries : (ns.entries? p).getD [] = es := by simp [Nodes.entries?, hn]
    have hset : (modify fun s => { s with nodes := ns } : Maker Unit) s = .ok ((), s) := by
      have := h.nodes
      subst this
      rfl
    rw [Maker.entries, bind_eq (get_eq s), h.nodes, hresolve]
    dsimp only
    rw [bind_eq hset, hentries, bind_eq hfold]
    rfl
  · exact List.forall₂_map_right_iff.2 hall

def put (s : Making) (i : Nat) (c : Collection) : Making :=
  { s with collections := s.collections.setIfInBounds i c }

theorem content_run (h : Sound ns rest s) (hn : ns[p]? = some n) :
    Maker.content p s = .ok (n.content, s) := by
  rw [Maker.content, bind_eq (get_eq s), h.nodes, hn]
  rfl

theorem parts_run (h : Sound ns rest s) (hp : IsGood ns p) {i : Nat} (hi : s.Has p (.collection i))
    (bound : Nat) : ∃ c s', Maker.parts (bound + 1) p s = .ok (c, s') ∧ Sound ns rest s' ∧
      Later s s' ∧ ∀ i < s'.collections.size, Filled ns (put s' i c) p i := by
  obtain ⟨n, hn, hcases⟩ := hp.cases
  have htag : s.nodes.tagAt p = n.tag := h.nodes ▸ tagAt_eq hn
  rw [Maker.parts, bind_eq (get_eq s), htag, bind_eq (content_run h hn)]
  rcases hcases with ⟨u, hu⟩ | ⟨ps, rfl, hps⟩ | ⟨es, rfl, hes⟩
  · exfalso
    have hm := h.means p _ hi
    obtain ⟨t, ht, hut⟩ := hu.text
    obtain ⟨tag, content⟩ := n
    obtain rfl := ht
    rw [Means, hn] at hm
    exact hu.plain i (Except.ok.inj (hut.symm.trans hm))
  · obtain ⟨us, s', hus, hall, hs, hl⟩ := values_run h hps
    refine ⟨.list us, s', ?_, hs, hl, fun i hi => ?_⟩
    · dsimp only
      rw [bind_eq hus]
      rfl
    · rw [Filled, hn]
      exact ⟨us, by simp [put, hi], hall⟩
  · obtain ⟨us, s', hus, hall, hs, hl⟩ := entries_run h hn hes bound
    refine ⟨.map us, s', ?_, hs, hl, fun i hi => ?_⟩
    · dsimp only
      rw [bind_eq hus]
      rfl
    · rw [Filled, hn]
      exact ⟨us, by simp [put, hi], hall⟩

end Parts

section Rounds

theorem Making.Sound.put {q : Nat × Nat} (h : Sound ns (q :: rest) s) {c : Collection}
    (hc : Filled ns (put s q.2 c) q.1 q.2) : Sound ns rest (Yaml.put s q.2 c) := by
  have hq := (h.due q (by simp)).1
  refine ⟨h.nodes, h.size, h.means, fun p i hp => ?_,
    fun r hr => h.due r (List.mem_cons_of_mem q hr), h.unique⟩
  obtain ⟨hi, hf⟩ := h.filled p i hp
  refine ⟨by simpa [Yaml.put] using hi, ?_⟩
  by_cases hpq : p = q.1
  · subst hpq
    obtain rfl : q.2 = i := by
      have := hq.symm.trans hp
      simpa using this
    exact .inr hc
  · have hne : q.2 ≠ i := fun he => hpq (h.unique _ _ i hp (he ▸ hq))
    refine hf.imp (fun hf => ?_) fun hf =>
      hf.mono (fun _ _ h => h) (Array.getElem?_setIfInBounds_ne hne)
    rcases List.mem_cons.1 hf with rfl | hf
    · exact absurd rfl hpq
    · exact hf

theorem due_run {due : List (Nat × Nat)} (h : Sound ns due s) (bound : Nat) :
    ∃ s', (due.forM fun (place, spot) => do
        let c ← Maker.parts (bound + 1) place
        modify fun s =>
          { s with collections := s.collections.setIfInBounds spot c } : Maker Unit) s =
          .ok ((), s') ∧ Sound ns [] s' ∧ Later s s' := by
  induction due generalizing s with
  | nil => exact ⟨s, rfl, h, .refl s⟩
  | cons q due ih =>
    obtain ⟨hq, hg⟩ := h.due q (by simp)
    obtain ⟨c, s₁, hc, hs₁, hl₁, hf⟩ := parts_run h hg hq bound
    have hs₂ := hs₁.put (hf q.2 (hs₁.filled _ _ (hl₁.has _ _ hq)).1)
    obtain ⟨s₃, hrun, hs₃, hl₃⟩ := ih hs₂
    have hl₂ : Later s₁ (put s₁ q.2 c) := ⟨fun _ _ h => h, Nat.le_refl _⟩
    refine ⟨s₃, ?_, hs₃, (hl₁.trans hl₂).trans hl₃⟩
    have hstep : (do
        let c ← Maker.parts (bound + 1) q.1
        modify fun s =>
          { s with collections := s.collections.setIfInBounds q.2 c } : Maker Unit) s =
          .ok ((), put s₁ q.2 c) := by
      rw [bind_eq hc]
      rfl
    exact (bind_eq hstep).trans hrun

theorem complete_run (bound : Nat) {rounds : Nat} (h : Sound ns [] s) (hr : 1 ≤ rounds)
    (hm : s.due ≠ [] → s.missing + 2 ≤ rounds) :
    ∃ s', Maker.complete (bound + 1) rounds s = .ok ((), s') ∧ Sound ns [] s' ∧ s'.due = [] ∧
      ∀ p u, s.Has p u → s'.Has p u := by
  induction rounds generalizing s with
  | zero => omega
  | succ rounds ih =>
    rw [Maker.complete, bind_eq (get_eq s)]
    cases hd : s.due.reverse with
    | nil => exact ⟨s, rfl, h, by simpa using hd, fun _ _ h => h⟩
    | cons q due =>
      have hne : s.due ≠ [] := by
        rintro he
        simp [he] at hd
      have hstart : Sound ns (q :: due) { s with due := [] } := by
        have hmem (r : Nat × Nat) : r ∈ q :: due ++ [] ↔ r ∈ s.due := by
          rw [List.append_nil, ← hd, List.mem_reverse]
        refine ⟨h.nodes, h.size, h.means, fun p i hp => ?_, fun r hr => h.due r ((hmem r).1 hr),
          h.unique⟩
        obtain ⟨hi, hf⟩ := h.filled p i hp
        exact ⟨hi, hf.imp_left (hmem _).2⟩
      obtain ⟨s₁, hrun, hs₁, hl₁⟩ := due_run hstart bound
      have hmissing : s₁.missing + s₁.due.length ≤ s.missing := by
        simpa [missing] using hl₁.missing
      have hrounds := hm hne
      obtain ⟨s₂, hrun₂, hs₂, hd₂, hhas⟩ := ih hs₁ (by omega) fun hne => by
        have := List.length_pos_iff.2 hne
        omega
      refine ⟨s₂, ?_, hs₂, hd₂, fun p u hu => hhas p u (hl₁.has p u hu)⟩
      have hclear : (modify fun s => { s with due := [] } : Maker Unit) s =
          .ok ((), { s with due := [] }) := rfl
      dsimp only
      rw [bind_eq hclear, bind_eq hrun]
      exact hrun₂

end Rounds

end Values

section Documents

variable {ns : Nodes} {s : Making}

/-- When nothing is due, the value of a scalar is the value it stands for. -/
theorem eq_of_leaf {p : Nat} {u w : Value} {n : Node} (h : Sound ns [] s) (hn : ns[p]? = some n)
    (hw : IsLeaf n w) (hu : s.Has p u) : u = w := by
  obtain ⟨t, ht, hwt⟩ := hw.text
  obtain ⟨tag, content⟩ := n
  obtain rfl := ht
  have hm := h.means p u hu
  rw [Means, hn] at hm
  exact Except.ok.inj (hm.symm.trans hwt)

/-- When nothing is due, the value of a collection has its parts. -/
theorem filled_of_sound {p : Nat} {u : Value} {tag : Tag} {content : Content} (h : Sound ns [] s)
    (hd : s.due = []) (hn : ns[p]? = some ⟨tag, content⟩) (hc : ∀ t, content ≠ .scalar t)
    (hu : s.Has p u) : ∃ i, u = .collection i ∧ Filled ns s p i := by
  have hm := h.means p u hu
  rw [Means, hn] at hm
  obtain ⟨i, rfl⟩ : ∃ i, u = .collection i := by
    cases content with
    | scalar t => exact absurd rfl (hc t)
    | _ => exact hm
  obtain ⟨-, hf⟩ := h.filled p i hu
  exact ⟨i, rfl, hf.resolve_left (by simp [hd])⟩

mutual

/-- What stands for a value as a node stands for it as a value. -/
theorem denotes_of_sound (h : Sound ns [] s) (hd : s.due = []) {p : Nat} {u : Value} {v : Json}
    (hv : v.IsData) (hp : Places.Denotes (ns[·]?) p v) (hu : s.Has p u) :
    s.collections.Denotes u v := by
  cases v with
  | null => exact eq_of_leaf h hp isLeaf_null hu
  | bool b => exact eq_of_leaf h hp (isLeaf_bool b) hu
  | int n => exact eq_of_leaf h hp (isLeaf_int hv) hu
  | str t => exact eq_of_leaf h hp (isLeaf_str t) hu
  | float x => exact hv.elim
  | list vs =>
    obtain ⟨ps, hn, hps⟩ := hp
    replace hn : ns[p]? = _ := hn
    obtain ⟨i, rfl, hf⟩ := filled_of_sound h hd hn (by simp) hu
    rw [Filled, hn] at hf
    obtain ⟨us, hi, hus⟩ := hf
    exact ⟨us, Collections.items?_eq_some.2 hi, denoteItems_of_sound h hd hv hps hus⟩
  | obj fs =>
    obtain ⟨es, hn, hes⟩ := hp
    replace hn : ns[p]? = _ := hn
    obtain ⟨i, rfl, hf⟩ := filled_of_sound h hd hn (by simp) hu
    rw [Filled, hn] at hf
    obtain ⟨us, hi, hus⟩ := hf
    exact ⟨us, Collections.entries?_eq_some.2 hi, denoteFields_of_sound h hd hv.2 hes hus⟩
  | shared m v => exact denotes_of_sound (v := v) h hd hv hp hu

theorem denoteItems_of_sound (h : Sound ns [] s) (hd : s.due = []) {ps : List Nat} {us : List Value}
    {vs : List Json} (hv : Json.ItemsAreData vs) (hp : Places.DenoteItems (ns[·]?) ps vs)
    (hu : List.Forall₂ s.Has ps us) : s.collections.DenoteItems us vs := by
  cases vs with
  | nil =>
    cases ps with
    | nil =>
      cases hu
      trivial
    | cons p ps => exact hp.elim
  | cons v vs =>
    cases ps with
    | nil => exact hp.elim
    | cons p ps =>
      obtain ⟨u, us, hpu, hus, rfl⟩ := List.forall₂_cons_left_iff.1 hu
      exact ⟨denotes_of_sound h hd hv.1 hp.1 hpu, denoteItems_of_sound h hd hv.2 hp.2 hus⟩

theorem denoteFields_of_sound (h : Sound ns [] s) (hd : s.due = []) {es : List (Nat × Nat)}
    {us : List (Value × Value)} {fs : List (Text × Json)} (hv : Json.FieldsAreData fs)
    (hp : Places.DenoteFields (ns[·]?) es fs)
    (hu : List.Forall₂ (fun e u => s.Has e.1 u.1 ∧ s.Has e.2 u.2) es us) :
    s.collections.DenoteFields us fs := by
  cases fs with
  | nil =>
    cases es with
    | nil =>
      cases hu
      trivial
    | cons e es => exact hp.elim
  | cons f fs =>
    obtain ⟨k, v⟩ := f
    cases es with
    | nil => exact hp.elim
    | cons e es =>
      obtain ⟨u, us, ⟨hk, hw⟩, hus, rfl⟩ := List.forall₂_cons_left_iff.1 hu
      exact ⟨eq_of_leaf h hp.1 (isLeaf_str k) hk, denotes_of_sound h hd hv.2.1 hp.2.1 hw,
        denoteFields_of_sound h hd hv.2.2 hp.2.2 hus⟩

end

/-- Nodes that stand for a value are loaded as the value. -/
theorem load_of_denotes {g : Graph} {v : Json} (hv : v.IsData)
    (h : Places.Denotes (g.nodes[·]?) g.root v) : ∃ d, g.load = .ok d ∧ d.Denotes v := by
  have hnone (p : Nat) (u : Value) :
      ¬ Has ⟨g.nodes, Array.replicate g.nodes.size none, #[], []⟩ p u := by
    simp [Has, Array.getElem?_replicate]
  have hstart : Sound g.nodes [] ⟨g.nodes, Array.replicate g.nodes.size none, #[], []⟩ :=
    ⟨rfl, by simp, fun p u h => absurd h (hnone p u), fun p i h => absurd h (hnone p _), by simp,
      fun p q i h => absurd h (hnone p _)⟩
  obtain ⟨u, s₁, hvalue, hhas, hs₁, hl⟩ := value_run hstart ⟨v, hv, h⟩
  have hmissing : s₁.missing + s₁.due.length ≤ g.nodes.size := by
    simpa [missing, List.countP_replicate] using hl.missing
  obtain ⟨s₂, hcomplete, hs₂, hd, hhas₂⟩ := complete_run g.nodes.entryCount hs₁
    (show 1 ≤ g.nodes.size + 1 by omega) fun hne => by
      have := List.length_pos_iff.2 hne
      omega
  refine ⟨⟨s₂.collections, u⟩, ?_, denotes_of_sound hs₂ hd hv h (hhas₂ _ _ hhas)⟩
  rw [Graph.load, StateT.run, bind_eq hvalue, bind_eq hcomplete]
  rfl

end Documents

end RouteAtlas.Yaml
