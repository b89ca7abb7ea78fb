import Mathlib.Tactic.Common
import RouteAtlas.Files.Tree
import RouteAtlas.Pairs

/-!
# Places of a file tree

A node that is set below a directory is found there, and all other nodes stay where they are, but
for the entries of the directories on the way.
-/

namespace RouteAtlas.Files.Node

inductive Grounded : Node → Place → Prop
  | root {n : Node} : Grounded n []
  | entry {es : List (Text × Node)} {c : Text} : Grounded (.dir es) [c]
  | inside {es : List (Text × Node)} {c : Text} {n : Node} {cs : Place}
      (h : es.lookup c = some n) (hn : Grounded n cs) : Grounded (.dir es) (c :: cs)

/-- What stands at a place of two trees differs at most in the entries of a directory. -/
inductive Alike : Option Node → Option Node → Prop
  | refl (n : Option Node) : Alike n n
  | dir (es es' : List (Text × Node)) : Alike (some (.dir es)) (some (.dir es'))

theorem Alike.file {n : Option Node} {bs : Bytes} (h : Alike (some (.file bs)) n) :
    n = some (.file bs) := by
  cases h
  rfl

theorem Alike.link {n : Option Node} {target : Text} (h : Alike (some (.link target)) n) :
    n = some (.link target) := by
  cases h
  rfl

theorem Alike.of_dir {n : Option Node} {es : List (Text × Node)} (h : Alike (some (.dir es)) n) :
    ∃ es', n = some (.dir es') := by
  cases h with
  | refl => exact ⟨es, rfl⟩
  | dir _ es' => exact ⟨es', rfl⟩

theorem Alike.symm {m n : Option Node} (h : Alike m n) : Alike n m := by
  cases h with
  | refl => exact .refl m
  | dir es es' => exact .dir es' es

theorem Alike.none {n : Option Node} (h : Alike none n) : n = none := by
  cases h
  rfl

theorem Alike.trans {l m n : Option Node} (h : Alike l m) (h' : Alike m n) : Alike l n := by
  cases h with
  | refl => exact h'
  | dir es es' =>
    obtain ⟨es'', rfl⟩ := h'.of_dir
    exact .dir es es''

section

variable {tree new : Node} {place : Place} {es : List (Text × Node)} {c : Text}

theorem setEntry_eq_put (c : Text) (n : Node) (es : List (Text × Node)) :
    setEntry c n es = Pairs.put es c n := by
  induction es with
  | nil => rfl
  | cons e es ih => simp only [setEntry, Pairs.put, ih]

theorem lookup_setEntry (c d : Text) (n : Node) (es : List (Text × Node)) :
    (setEntry c n es).lookup d = if d = c then some n else es.lookup d := by
  rw [setEntry_eq_put, Pairs.get?_put]

theorem at?_nil (tree : Node) : tree.at? [] = some tree := by
  cases tree <;> rfl

theorem at?_append_singleton (h : tree.at? place = some (.dir es)) (c : Text) :
    tree.at? (place ++ [c]) = es.lookup c := by
  induction place generalizing tree with
  | nil =>
    obtain rfl : tree = .dir es := by simpa [at?_nil] using h
    simp [at?]
  | cons d place ih =>
    cases tree with
    | dir fs =>
      obtain ⟨n, hn, hd⟩ := Option.bind_eq_some_iff.1 h
      simp [at?, hn, ih hd]
    | file bs => cases h
    | link target => cases h

theorem grounded_of_at? {n : Node} (h : tree.at? place = some n) : Grounded tree place := by
  induction place generalizing tree with
  | nil => exact .root
  | cons c place ih =>
    cases tree with
    | dir fs =>
      obtain ⟨m, hm, hd⟩ := Option.bind_eq_some_iff.1 h
      exact .inside hm (ih hd)
    | file bs => cases h
    | link target => cases h

theorem grounded_append_singleton (h : tree.at? place = some (.dir es)) (c : Text) :
    Grounded tree (place ++ [c]) := by
  induction place generalizing tree with
  | nil =>
    obtain rfl : tree = .dir es := by simpa [at?_nil] using h
    exact .entry
  | cons d place ih =>
    cases tree with
    | dir fs =>
      obtain ⟨m, hm, hd⟩ := Option.bind_eq_some_iff.1 h
      exact .inside hm (ih hd)
    | file bs => cases h
    | link target => cases h

theorem at?_set (h : Grounded tree place) : (tree.set place new).at? place = some new := by
  induction h with
  | root => simp [set, at?_nil]
  | entry => simp [set, at?, lookup_setEntry]
  | inside h _ ih => simp [set, at?, lookup_setEntry, h, ih]

theorem at?_cons_of_not_dir {m : Option Node} (hm : ∀ es, m ≠ some (.dir es)) (c : Text)
    (cs : Place) : (m.bind fun n => n.at? (c :: cs)) = none := by
  rcases m with _ | _ | es | _
  · rfl
  · rfl
  · exact absurd rfl (hm es)
  · rfl

/-- A directory with another node under one name is alike where it is so behind this name. -/
theorem alike_setEntry {m : Node} {q : Place}
    (h : ∀ r, q = c :: r → Alike ((es.lookup c).bind fun n => n.at? r) (m.at? r)) :
    Alike ((dir es).at? q) ((dir (setEntry c m es)).at? q) := by
  cases q with
  | nil =>
    rw [at?_nil, at?_nil]
    exact .dir _ _
  | cons d q =>
    by_cases hc : d = c
    · subst hc
      simpa only [at?, lookup_setEntry, if_pos, Option.bind_some] using h q rfl
    · simp only [at?, lookup_setEntry, if_neg hc]
      exact .refl _

/-- A node without entries that takes the place of no directory leaves all others. -/
theorem alike_set (h : Grounded tree place) (hd : ∀ es, tree.at? place ≠ some (.dir es))
    (hnew : ∀ c cs, new.at? (c :: cs) = none) {q : Place} (hq : q ≠ place) :
    Alike (tree.at? q) ((tree.set place new).at? q) := by
  induction h generalizing q with
  | @root n =>
    rw [at?_nil] at hd
    cases q with
    | nil => exact absurd rfl hq
    | cons d q =>
      have hn : n.at? (d :: q) = none := at?_cons_of_not_dir hd d q
      rw [hn, set, hnew]
      exact .refl none
  | @entry es c =>
    have hc : ∀ fs, es.lookup c ≠ some (.dir fs) := by simpa [at?, at?_nil] using hd
    rw [set, set]
    refine alike_setEntry fun r hr => ?_
    cases r with
    | nil => exact absurd hr hq
    | cons e r =>
      rw [hnew, at?_cons_of_not_dir hc]
      exact .refl none
  | @inside es c m cs h hm ih =>
    rw [set, h]
    refine alike_setEntry fun r hr => ?_
    rw [h]
    exact ih (fun fs hf => hd fs (by simpa [at?, h] using hf)) fun hr' => hq (hr' ▸ hr)

end

end RouteAtlas.Files.Node
