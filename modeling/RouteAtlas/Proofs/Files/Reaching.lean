import RouteAtlas.Proofs.Files.Writing
import RouteAtlas.Proofs.Pairs

/-!
# Names that are followed step by step

What names lead to is a matter of the entries they pass: it is the same in two trees with the same
nodes at these places.
-/

namespace RouteAtlas.Files

namespace Node

structure IsName (c : Text) : Prop where
  notUp : c ≠ ".."
  notHere : ¬(c.isEmpty || c = ".")
  short : ¬maxName < byteLength c

instance (c : Text) : Decidable (IsName c) :=
  decidable_of_iff (c ≠ ".." ∧ ¬(c.isEmpty || c = ".") ∧ ¬maxName < byteLength c)
    ⟨fun ⟨hu, hh, hs⟩ => ⟨hu, hh, hs⟩, fun ⟨hu, hh, hs⟩ => ⟨hu, hh, hs⟩⟩

mutual

/-- The entries of every directory are named properly, and each has a name of its own. -/
def WellFormed : Node → Prop
  | .dir es => (es.map (·.1)).Nodup ∧ EntriesWellFormed es
  | _ => True

def EntriesWellFormed : List (Text × Node) → Prop
  | [] => True
  | (c, n) :: es => IsName c ∧ WellFormed n ∧ EntriesWellFormed es

end

/-- Names lead from a place to another one by way of certain entries. The numbers are those of the
links that may be followed before and after. -/
inductive Reaches (tree : Node) (via : Place → Prop) :
    Nat → Place → List Text → Nat → Place → Prop
  | done {b : Nat} {place : Place} : Reaches tree via b place [] b place
  | up {b b' : Nat} {place q : Place} {rest : List Text} {es : List (Text × Node)}
      (hp : tree.at? place = some (.dir es)) (h : Reaches tree via b place.dropLast rest b' q) :
      Reaches tree via b place (".." :: rest) b' q
  | stay {b b' : Nat} {place q : Place} {c : Text} {rest : List Text} {es : List (Text × Node)}
      (hp : tree.at? place = some (.dir es)) (hu : c ≠ "..") (hc : c.isEmpty || c = ".")
      (h : Reaches tree via b place rest b' q) : Reaches tree via b place (c :: rest) b' q
  | enter {b b' : Nat} {place q : Place} {c : Text} {rest : List Text} {es : List (Text × Node)}
      {n : Node} (hp : tree.at? place = some (.dir es)) (hc : IsName c)
      (hn : tree.at? (place ++ [c]) = some n) (hl : ∀ target, n ≠ .link target)
      (hv : via (place ++ [c])) (h : Reaches tree via b (place ++ [c]) rest b' q) :
      Reaches tree via b place (c :: rest) b' q
  | follow {b b' : Nat} {place q : Place} {c target : Text} {rest : List Text}
      {es : List (Text × Node)} (hp : tree.at? place = some (.dir es)) (hc : IsName c)
      (hn : tree.at? (place ++ [c]) = some (.link target)) (hv : via (place ++ [c]))
      (h : Reaches tree via b (if target.startsWith "/" then [] else place)
        (steps target ++ rest) b' q) :
      Reaches tree via (b + 1) place (c :: rest) b' q

abbrev Leads (tree : Node) : Nat → Place → List Text → Nat → Place → Prop :=
  Reaches tree fun _ => True

variable {tree tree' : Node} {via via' : Place → Prop} {b b' b'' : Nat} {place q r : Place}
  {xs ys : List Text} {n : Node}

theorem entriesWellFormed_iff {es : List (Text × Node)} :
    EntriesWellFormed es ↔ ∀ e ∈ es, IsName e.1 ∧ WellFormed e.2 := by
  induction es with
  | nil => simp [EntriesWellFormed]
  | cons e es ih =>
    obtain ⟨c, n⟩ := e
    simp [EntriesWellFormed, ih, and_assoc]

theorem at?_append (tree : Node) (p q : Place) :
    tree.at? (p ++ q) = (tree.at? p).bind fun n => n.at? q := by
  induction p generalizing tree with
  | nil => simp [at?_nil]
  | cons c p ih =>
    cases tree with
    | dir es =>
      rw [List.cons_append, at?, at?, Option.bind_assoc]
      exact Option.bind_congr fun n _ => ih n
    | file bs => rfl
    | link target => rfl

theorem mem_of_lookup {c : Text} {es : List (Text × Node)} (h : es.lookup c = some n) :
    (c, n) ∈ es := by
  obtain ⟨l, r, rfl, -⟩ := List.lookup_eq_some_iff.1 h
  simp

theorem WellFormed.at? (hw : tree.WellFormed) (h : tree.at? place = some n) : n.WellFormed := by
  induction place generalizing tree with
  | nil =>
    rw [at?_nil] at h
    exact Option.some.inj h ▸ hw
  | cons c place ih =>
    cases tree with
    | dir es =>
      obtain ⟨m, hm, hn⟩ := Option.bind_eq_some_iff.1 h
      exact ih (entriesWellFormed_iff.1 hw.2 _ (mem_of_lookup hm)).2 hn
    | file bs => cases h
    | link target => cases h

/-- What a place below another one needs there. -/
theorem exists_dir_of_at?_cons {c : Text} (h : n.at? (c :: xs) ≠ none) : ∃ es, n = .dir es := by
  cases n with
  | dir es => exact ⟨es, rfl⟩
  | file bs => exact absurd rfl h
  | link target => exact absurd rfl h

theorem exists_dir_of_at?_append {c : Text} (h : tree.at? (place ++ c :: xs) ≠ none) :
    ∃ es, tree.at? place = some (.dir es) := by
  rw [at?_append] at h
  cases hp : tree.at? place with
  | none => simp [hp] at h
  | some n =>
    rw [hp] at h
    obtain ⟨es, rfl⟩ := exists_dir_of_at?_cons h
    exact ⟨es, rfl⟩

theorem exists_dir_root {es : List (Text × Node)} (h : tree.at? place = some (.dir es)) :
    ∃ es', tree = .dir es' := by
  cases place with
  | nil => exact ⟨es, Option.some.inj ((at?_nil tree).symm.trans h)⟩
  | cons c p => exact exists_dir_of_at?_cons (by rw [h]; simp)

theorem exists_dir_dropLast {es : List (Text × Node)} (h : tree.at? place = some (.dir es)) :
    ∃ es', tree.at? place.dropLast = some (.dir es') := by
  rcases List.eq_nil_or_concat place with rfl | ⟨p, c, rfl⟩
  · exact ⟨es, h⟩
  · rw [List.concat_eq_append] at h ⊢
    rw [List.dropLast_concat]
    have hne : tree.at? (p ++ [c]) ≠ none := by simp [h]
    exact exists_dir_of_at?_append hne

theorem resolve_node_eq_ok_iff :
    tree.resolve .node b place xs = .ok (q, some n) ↔
      (∃ b', tree.Leads b place xs b' q) ∧ tree.at? q = some n := by
  constructor
  · intro h
    refine ⟨?_, (resolve_eq_ok h).1⟩
    fun_induction Node.resolve tree .node b place xs with
    | case2 b place n hp =>
      cases h
      exact ⟨b, .done⟩
    | case6 b place rest es hp ih =>
      obtain ⟨b', hr⟩ := ih h
      exact ⟨b', .up hp hr⟩
    | case7 b place c rest es hp hu hc ih =>
      obtain ⟨b', hr⟩ := ih h
      exact ⟨b', .stay hp hu hc hr⟩
    | case12 b place c rest es hp _ _ _ _ target _ hr => simp at hr
    | case14 place c rest es hp hu hc hl _ target hn _ b start ih =>
      obtain ⟨b', hr⟩ := ih h
      exact ⟨b', .follow hp ⟨hu, hc, hl⟩ ((at?_append_singleton hp c).trans hn) trivial hr⟩
    | case15 b place c rest es hp hu hc hl _ m hm hn ih =>
      obtain ⟨b', hr⟩ := ih h
      exact ⟨b', .enter hp ⟨hu, hc, hl⟩ ((at?_append_singleton hp c).trans hn) hm trivial hr⟩
    | _ => cases h
  · rintro ⟨⟨b', h⟩, hq⟩
    induction h with
    | done => rw [resolve, hq]
    | up hp _ ih => exact (resolve_up hp).trans (ih hq)
    | stay hp hu hc _ ih => exact (resolve_stay hp hu hc).trans (ih hq)
    | enter hp hc hn hl _ _ ih =>
      exact (resolve_enter hp hc.notUp hc.notHere hc.short (by simp) hn hl).trans (ih hq)
    | follow hp hc hn _ _ ih =>
      exact (resolve_follow hp hc.notUp hc.notHere hc.short (by simp) hn (by simp)).trans (ih hq)

theorem Reaches.mono (h : tree.Reaches via b place xs b' q) (hv : ∀ p, via p → via' p) :
    tree.Reaches via' b place xs b' q := by
  induction h with
  | done => exact .done
  | up hp _ ih => exact .up hp ih
  | stay hp hu hc _ ih => exact .stay hp hu hc ih
  | enter hp hc hn hl hp' _ ih => exact .enter hp hc hn hl (hv _ hp') ih
  | follow hp hc hn hp' _ ih => exact .follow hp hc hn (hv _ hp') ih

theorem Reaches.add (h : tree.Reaches via b place xs b' q) (k : Nat) :
    tree.Reaches via (b + k) place xs (b' + k) q := by
  induction h with
  | done => exact .done
  | up hp _ ih => exact .up hp ih
  | stay hp hu hc _ ih => exact .stay hp hu hc ih
  | enter hp hc hn hl hp' _ ih => exact .enter hp hc hn hl hp' ih
  | @follow b b' place q c target rest es hp hc hn hp' _ ih =>
    rw [Nat.add_right_comm]
    exact .follow hp hc hn hp' ih

theorem Reaches.append (h : tree.Reaches via b place xs b' q)
    (h' : tree.Reaches via b' q ys b'' r) : tree.Reaches via b place (xs ++ ys) b'' r := by
  induction h with
  | done => exact h'
  | up hp _ ih => exact .up hp (ih h')
  | stay hp hu hc _ ih => exact .stay hp hu hc (ih h')
  | enter hp hc hn hl hp' _ ih => exact .enter hp hc hn hl hp' (ih h')
  | @follow b b' place q c target rest es hp hc hn hp' _ ih =>
    exact .follow hp hc hn hp' (List.append_assoc (steps target) rest ys ▸ ih h')

theorem Reaches.exists_of_append (h : tree.Reaches via b place (xs ++ ys) b'' r) :
    ∃ b' q, tree.Reaches via b place xs b' q ∧ tree.Reaches via b' q ys b'' r := by
  generalize hz : xs ++ ys = zs at h
  -- Nothing of the first part is left to follow, or what is followed next belongs to it.
  induction h generalizing xs with
  | @done b place =>
    obtain ⟨rfl, rfl⟩ := List.append_eq_nil_iff.1 hz
    exact ⟨b, place, .done, .done⟩
  | @up b b' place q rest es hp h ih =>
    rcases List.append_eq_cons_iff.1 hz with ⟨rfl, rfl⟩ | ⟨xs, rfl, rfl⟩
    · exact ⟨b, place, .done, .up hp h⟩
    · obtain ⟨c, p, hx, hy⟩ := ih rfl
      exact ⟨c, p, .up hp hx, hy⟩
  | @stay b b' place q c rest es hp hu hc h ih =>
    rcases List.append_eq_cons_iff.1 hz with ⟨rfl, rfl⟩ | ⟨xs, rfl, rfl⟩
    · exact ⟨b, place, .done, .stay hp hu hc h⟩
    · obtain ⟨c, p, hx, hy⟩ := ih rfl
      exact ⟨c, p, .stay hp hu hc hx, hy⟩
  | @enter b b' place q c rest es m hp hc hn hl hv h ih =>
    rcases List.append_eq_cons_iff.1 hz with ⟨rfl, rfl⟩ | ⟨xs, rfl, rfl⟩
    · exact ⟨b, place, .done, .enter hp hc hn hl hv h⟩
    · obtain ⟨c, p, hx, hy⟩ := ih rfl
      exact ⟨c, p, .enter hp hc hn hl hv hx, hy⟩
  | @follow b b' place q c target rest es hp hc hn hv h ih =>
    rcases List.append_eq_cons_iff.1 hz with ⟨rfl, rfl⟩ | ⟨xs, rfl, rfl⟩
    · exact ⟨b + 1, place, .done, .follow hp hc hn hv h⟩
    · obtain ⟨c, p, hx, hy⟩ := ih (List.append_assoc _ _ _)
      exact ⟨c, p, .follow hp hc hn hv hx, hy⟩

/-- What names lead to does not depend on what they may pass. -/
theorem Reaches.unique (h : tree.Reaches via b place xs b' q)
    (h' : tree.Reaches via' b place xs b'' r) : b' = b'' ∧ q = r := by
  induction h with
  | done =>
    cases h'
    exact ⟨rfl, rfl⟩
  | up hp _ ih =>
    cases h' with
    | up _ h' => exact ih h'
    | stay _ hu => exact absurd rfl hu
    | enter _ hc => exact absurd rfl hc.notUp
    | follow _ hc => exact absurd rfl hc.notUp
  | stay hp hu hc _ ih =>
    cases h' with
    | up => exact absurd rfl hu
    | stay _ _ _ h' => exact ih h'
    | enter _ hc' => exact absurd hc hc'.notHere
    | follow _ hc' => exact absurd hc hc'.notHere
  | enter hp hc hn hl _ _ ih =>
    cases h' with
    | up => exact absurd rfl hc.notUp
    | stay _ _ hc' => exact absurd hc' hc.notHere
    | enter _ _ _ _ _ h' => exact ih h'
    | follow _ _ hn' => exact absurd (Option.some.inj (hn.symm.trans hn')) (hl _)
  | follow hp hc hn _ _ ih =>
    cases h' with
    | up => exact absurd rfl hc.notUp
    | stay _ _ hc' => exact absurd hc' hc.notHere
    | enter _ _ hn' hl' => exact absurd (Option.some.inj (hn'.symm.trans hn)) (hl' _)
    | follow _ _ hn' _ h' =>
      cases hn.symm.trans hn'
      exact ih h'

/-- Names lead to a node that is no link. -/
theorem Reaches.exists_at? (h : tree.Reaches via b place xs b' q)
    (hp : ∃ n, tree.at? place = some n ∧ ∀ target, n ≠ .link target) :
    ∃ n, tree.at? q = some n ∧ ∀ target, n ≠ .link target := by
  induction h with
  | done => exact hp
  | up hd _ ih =>
    obtain ⟨es, he⟩ := exists_dir_dropLast hd
    exact ih ⟨_, he, by simp⟩
  | stay _ _ _ _ ih => exact ih hp
  | enter _ _ hn hl _ _ ih => exact ih ⟨_, hn, hl⟩
  | @follow b b' place q c target rest es hd hc hn hv h ih =>
    refine ih ?_
    split
    · obtain ⟨fs, rfl⟩ := exists_dir_root hd
      exact ⟨_, at?_nil _, by simp⟩
    · exact hp

/-- Names that lead somewhere do not pass a place, or they lead from its directory through it. -/
theorem Reaches.past_or_through (h : tree.Leads b place xs b' q) (u : Place) :
    tree.Reaches (· ≠ u) b place xs b' q ∨
      ∃ k p c ys, u = p ++ [c] ∧ k ≤ b ∧ tree.Leads k p (c :: ys) b' q := by
  induction h with
  | done => exact .inl .done
  | up hp h ih =>
    rcases ih with h' | ⟨k, p, c, ys, hu, hk, h'⟩
    · exact .inl (.up hp h')
    · exact .inr ⟨k, p, c, ys, hu, hk, h'⟩
  | stay hp hu hc h ih =>
    rcases ih with h' | ⟨k, p, c, ys, hu', hk, h'⟩
    · exact .inl (.stay hp hu hc h')
    · exact .inr ⟨k, p, c, ys, hu', hk, h'⟩
  | @enter b b' place q c rest es n hp hc hn hl hv h ih =>
    by_cases hu : place ++ [c] = u
    · exact .inr ⟨b, place, c, rest, hu.symm, Nat.le_refl b, .enter hp hc hn hl hv h⟩
    · rcases ih with h' | ⟨k, p, d, ys, hu', hk, h'⟩
      · exact .inl (.enter hp hc hn hl hu h')
      · exact .inr ⟨k, p, d, ys, hu', hk, h'⟩
  | @follow b b' place q c target rest es hp hc hn hv h ih =>
    by_cases hu : place ++ [c] = u
    · exact .inr ⟨b + 1, place, c, rest, hu.symm, Nat.le_refl _, .follow hp hc hn hv h⟩
    · rcases ih with h' | ⟨k, p, d, ys, hu', hk, h'⟩
      · exact .inl (.follow hp hc hn hu h')
      · exact .inr ⟨k, p, d, ys, hu', Nat.le_succ_of_le hk, h'⟩

theorem WellFormed.leads (hw : tree.WellFormed) {es : List (Text × Node)}
    (h : tree.at? (place ++ xs) = some (.dir es)) (b : Nat) :
    tree.Leads b place xs b (place ++ xs) := by
  induction xs generalizing place with
  | nil => simpa using Reaches.done
  | cons c xs ih =>
    obtain ⟨fs, hp⟩ := exists_dir_of_at?_append (by rw [h]; simp)
    rw [List.append_cons] at h ⊢
    obtain ⟨gs, hc⟩ : ∃ gs, tree.at? (place ++ [c]) = some (.dir gs) := by
      cases xs with
      | nil => exact ⟨es, by simpa using h⟩
      | cons d xs => exact exists_dir_of_at?_append (by rw [h]; simp)
    have hl := (at?_append_singleton hp c).symm.trans hc
    have hn := (entriesWellFormed_iff.1 (hw.at? hp).2 _ (mem_of_lookup hl)).1
    exact .enter hp hn hc (by simp) trivial (ih h)

/-- Names that pass the same entries lead on in another tree with these entries, if it has all
directories of the first. -/
theorem Reaches.transfer (h : tree.Reaches via b place xs b' q)
    (hd : ∀ p es, tree.at? p = some (.dir es) → ∃ es', tree'.at? p = some (.dir es'))
    (hv : ∀ p m, via p → tree.at? p = some m → Alike (some m) (tree'.at? p)) :
    tree'.Reaches via b place xs b' q := by
  induction h with
  | done => exact .done
  | up hp _ ih =>
    obtain ⟨es', hp'⟩ := hd _ _ hp
    exact .up hp' ih
  | stay hp hu hc _ ih =>
    obtain ⟨es', hp'⟩ := hd _ _ hp
    exact .stay hp' hu hc ih
  | @enter _ _ _ _ _ _ _ m hp hc hn hl hv' _ ih =>
    obtain ⟨es', hp'⟩ := hd _ _ hp
    have ha := hv _ _ hv' hn
    cases m with
    | file bs => exact .enter hp' hc ha.file (by simp) hv' ih
    | dir es =>
      obtain ⟨es'', hn'⟩ := ha.of_dir
      exact .enter hp' hc hn' (by simp) hv' ih
    | link target => exact absurd rfl (hl target)
  | follow hp hc hn hv' _ ih =>
    obtain ⟨es', hp'⟩ := hd _ _ hp
    exact .follow hp' hc (hv _ _ hv' hn).link hv' ih

def PartOf (tree tree' : Node) : Prop :=
  ∀ p n, tree.at? p = some n → Alike (some n) (tree'.at? p)

theorem PartOf.leads (ht : PartOf tree tree') (h : tree.Leads b place xs b' q) :
    tree'.Leads b place xs b' q :=
  h.transfer (fun p _ hp => (ht p _ hp).of_dir) fun p m _ hm => ht p m hm

section Erasing

variable {u : Place}

theorem lookup_filter_ne (c d : Text) (es : List (Text × Node)) :
    (es.filter (·.1 != c)).lookup d = if d = c then none else es.lookup d := by
  induction es with
  | nil => simp
  | cons e es ih =>
    obtain ⟨a, m⟩ := e
    by_cases ha : a = c
    · subst ha
      by_cases hd : d = a
      · simpa [hd] using ih
      · simp [ih, hd, List.lookup_cons, beq_false_of_ne hd]
    · by_cases hd : d = a
      · subst hd
        simp [ha]
      · simp [ha, ih, List.lookup_cons, beq_false_of_ne hd]

theorem at?_erase_self (tree : Node) (hu : u ≠ []) : (tree.erase u).at? u = none := by
  induction u generalizing tree with
  | nil => exact absurd rfl hu
  | cons c cs ih =>
    cases tree with
    | file bs => simp [erase, at?]
    | link target => simp [erase, at?]
    | dir es =>
      cases cs with
      | nil => simp [erase, at?, lookup_filter_ne]
      | cons d cs =>
        rw [erase]
        · cases hl : es.lookup c with
          | none => simp [at?, hl]
          | some m => simpa [at?, lookup_setEntry] using ih m (by simp)
        · simp

theorem erase_dir (es : List (Text × Node)) (c d : Text) (cs : Place) :
    (dir es).erase (c :: d :: cs) =
      match es.lookup c with
      | some n => .dir (setEntry c (n.erase (d :: cs)) es)
      | none => .dir es := by
  cases h : es.lookup c <;> simp [erase, h]

/-- Where no directory is taken away, all other nodes stay. -/
theorem alike_erase (hd : ∀ es, tree.at? u ≠ some (.dir es)) {p : Place} (hp : p ≠ u) :
    Alike (tree.at? p) ((tree.erase u).at? p) := by
  induction u generalizing tree p with
  | nil =>
    simp only [erase]
    exact .refl _
  | cons c cs ih =>
    cases tree with
    | file bs =>
      simp only [erase]
      exact .refl _
    | link target =>
      simp only [erase]
      exact .refl _
    | dir es =>
      cases cs with
      | nil =>
        have hc : ∀ fs, es.lookup c ≠ some (.dir fs) := by simpa [at?, at?_nil] using hd
        rcases p with _ | ⟨d, _ | ⟨e, p⟩⟩
        · exact .dir _ _
        · have hne : d ≠ c := fun h => hp (h ▸ rfl)
          simp only [erase, at?, lookup_filter_ne, if_neg hne]
          exact .refl _
        · by_cases hdc : d = c
          · subst hdc
            simp only [erase, at?, lookup_filter_ne, if_pos, at?_cons_of_not_dir hc]
            exact .refl none
          · simp only [erase, at?, lookup_filter_ne, if_neg hdc]
            exact .refl _
      | cons d cs =>
        rw [erase_dir]
        cases hl : es.lookup c with
        | none => exact .refl _
        | some m =>
          have hm : ∀ fs, m.at? (d :: cs) ≠ some (.dir fs) := by simpa [at?, hl] using hd
          refine alike_setEntry fun r hr => ?_
          rw [hl]
          exact ih hm fun h => hp (h ▸ hr)

theorem partOf_erase (hu : u ≠ []) (hd : ∀ es, tree.at? u ≠ some (.dir es)) :
    PartOf (tree.erase u) tree := by
  intro p n hn
  have hp : p ≠ u := by
    rintro rfl
    rw [at?_erase_self tree hu] at hn
    cases hn
  exact hn ▸ (alike_erase hd hp).symm

theorem Reaches.ne (h : tree.Reaches (· ≠ u) b place xs b' q)
    (hd : ∀ es, tree.at? u ≠ some (.dir es)) (hp : place ≠ u) : q ≠ u := by
  have hne {p : Place} {es : List (Text × Node)} (hs : tree.at? p = some (.dir es)) : p ≠ u :=
    fun he => hd es (he ▸ hs)
  induction h with
  | done => exact hp
  | up hs _ ih =>
    obtain ⟨es, he⟩ := exists_dir_dropLast hs
    exact ih (hne he)
  | stay _ _ _ _ ih => exact ih hp
  | enter _ _ _ _ hv _ ih => exact ih hv
  | follow hs _ _ _ _ ih =>
    obtain ⟨es, rfl⟩ := exists_dir_root hs
    refine ih ?_
    split
    · exact hne (at?_nil _)
    · exact hp

theorem Reaches.exists_dir {c : Text} (h : tree.Reaches via b place (c :: xs) b' q) :
    ∃ es, tree.at? place = some (.dir es) := by
  cases h <;> exact ⟨_, ‹_›⟩

theorem Reaches.erase (h : tree.Reaches (· ≠ u) b place xs b' q)
    (hd : ∀ es, tree.at? u ≠ some (.dir es)) : (tree.erase u).Leads b place xs b' q := by
  have ha {p : Place} {m : Node} (hp : p ≠ u) (hm : tree.at? p = some m) :
      Alike (some m) ((tree.erase u).at? p) := hm ▸ alike_erase hd hp
  refine (h.transfer (fun p es hp => ?_) fun p m hp hm => ha hp hm).mono fun _ _ => trivial
  have hne : p ≠ u := by
    rintro rfl
    exact hd es hp
  exact (ha hne hp).of_dir

theorem keys_setEntry_of_lookup (es : List (Text × Node)) (c : Text) (m n : Node)
    (h : es.lookup c = some n) : (setEntry c m es).map (·.1) = es.map (·.1) := by
  rw [setEntry_eq_put, Pairs.keys_put, if_pos]
  exact List.mem_map.2 ⟨_, mem_of_lookup h, rfl⟩

theorem mem_setEntry {c : Text} {m : Node} {es : List (Text × Node)} {e : Text × Node}
    (h : e ∈ setEntry c m es) : e = (c, m) ∨ e ∈ es := by
  induction es with
  | nil => exact .inl (List.mem_singleton.1 h)
  | cons f es ih =>
    obtain ⟨d, o⟩ := f
    rw [setEntry] at h
    split at h
    · rename_i hd
      rcases List.mem_cons.1 h with rfl | h
      · exact .inl (by rw [hd])
      · exact .inr (List.mem_cons_of_mem _ h)
    · rcases List.mem_cons.1 h with rfl | h
      · exact .inr (List.mem_cons_self ..)
      · exact (ih h).imp_right (List.mem_cons_of_mem _)

theorem WellFormed.erase (hw : tree.WellFormed) (u : Place) : (tree.erase u).WellFormed := by
  induction u generalizing tree with
  | nil => simpa only [Node.erase] using hw
  | cons c cs ih =>
    cases tree with
    | file bs => simpa only [Node.erase] using hw
    | link target => simpa only [Node.erase] using hw
    | dir es =>
      have he := entriesWellFormed_iff.1 hw.2
      cases cs with
      | nil =>
        refine ⟨hw.1.sublist (List.filter_sublist.map _), entriesWellFormed_iff.2 fun e h => ?_⟩
        exact he e (List.mem_of_mem_filter h)
      | cons d cs =>
        rw [erase_dir]
        cases hl : es.lookup c with
        | none => exact hw
        | some m =>
          refine ⟨?_, entriesWellFormed_iff.2 fun e h => ?_⟩
          · rw [keys_setEntry_of_lookup es c _ m hl]
            exact hw.1
          · have hm := he _ (mem_of_lookup hl)
            rcases mem_setEntry h with rfl | h
            · exact ⟨hm.1, ih hm.2⟩
            · exact he e h

end Erasing

end Node

namespace System

open Node

variable {s s' : System} {p : Path} {q u : Place} {n : Node} {bs : Bytes}

/-- A path leads somewhere, and no link or directory on its way, nor its end, stands at a place. -/
def LeadsPast (s : System) (p : Path) (u : Place) : Prop :=
  ∃ b q, s.tree.Reaches (· ≠ u) 40 (if p.isAbsolute then [] else s.working) p.names b q

theorem locate_node_eq_ok_iff :
    s.locate .node p = .ok (q, some n) ↔
      NameError.ofText? p.toText = none ∧ byteLength p.toText ≤ maxPath ∧
        (∃ b, s.tree.Leads 40 (if p.isAbsolute then [] else s.working) p.names b q) ∧
          s.tree.at? q = some n := by
  rw [locate_eq_ok, resolve_node_eq_ok_iff]

theorem locate_of_partOf (s' : System) (ht : PartOf s.tree s'.tree) (hw : s'.working = s.working)
    (h : s.locate .node p = .ok (q, some n)) :
    ∃ m, s'.locate .node p = .ok (q, some m) ∧ Alike (some n) (some m) := by
  obtain ⟨he, hl, ⟨b, hb⟩, hq⟩ := locate_node_eq_ok_iff.1 h
  have ha := ht q n hq
  obtain ⟨m, hm⟩ : ∃ m, s'.tree.at? q = some m := by
    cases hm : s'.tree.at? q with
    | some m => exact ⟨m, rfl⟩
    | none =>
      rw [hm] at ha
      cases ha
  rw [hm] at ha
  exact ⟨m, locate_node_eq_ok_iff.2 ⟨he, hl, ⟨b, hw ▸ ht.leads hb⟩, hm⟩, ha⟩

theorem readBytes_of_partOf (ht : PartOf s.tree s'.tree) (hw : s'.working = s.working)
    (h : s.readBytes p = .ok bs) : s'.readBytes p = .ok bs := by
  obtain ⟨q, hq⟩ := readBytes_eq_ok.1 h
  obtain ⟨m, hm, ha⟩ := locate_of_partOf s' ht hw hq
  exact readBytes_eq_ok.2 ⟨q, (Option.some.inj ha.file) ▸ hm⟩

theorem locate_erase (hd : ∀ es, s.tree.at? u ≠ some (.dir es)) (hp : s.LeadsPast p u)
    (hs : (if p.isAbsolute then [] else s.working) ≠ u)
    (h : s.locate .node p = .ok (q, some n)) :
    ∃ m, { s with tree := s.tree.erase u }.locate .node p = .ok (q, some m) ∧
      Alike (some n) (some m) := by
  obtain ⟨he, hl, ⟨b, hb⟩, hq⟩ := locate_node_eq_ok_iff.1 h
  obtain ⟨b', q', hr⟩ := hp
  obtain ⟨rfl, rfl⟩ := hr.unique hb
  have ha := alike_erase hd (hr.ne hd hs)
  rw [hq] at ha
  obtain ⟨m, hm⟩ : ∃ m, (s.tree.erase u).at? q' = some m := by
    cases hm : (s.tree.erase u).at? q' with
    | some m => exact ⟨m, rfl⟩
    | none =>
      rw [hm] at ha
      cases ha
  rw [hm] at ha
  exact ⟨m, locate_node_eq_ok_iff.2 ⟨he, hl, ⟨_, hr.erase hd⟩, hm⟩, ha⟩

end System

end RouteAtlas.Files
