import RouteAtlas.Proofs.Files.Tree
import RouteAtlas.Proofs.Session

/-!
# Files that are written

A file that has been written is read back. Directories that are made leave the files and links of a
tree as they are.
-/

namespace RouteAtlas.Files

namespace Node

variable {tree tree' : Node} {goal goal' : Goal} {budget : Nat} {place q : Place}
  {names : List Text} {n : Option Node}

/-- Names lead to what stands at their place, which is below a directory. -/
theorem resolve_eq_ok (h : tree.resolve goal budget place names = .ok (q, n)) :
    tree.at? q = n ∧ Grounded tree q := by
  fun_induction Node.resolve tree goal budget place names with
  | case2 _ place n hp =>
    cases h
    exact ⟨hp, grounded_of_at? hp⟩
  | case10 _ place c rest es hp _ _ _ _ hc _ =>
    cases h
    exact ⟨(at?_append_singleton hp c).trans hc, grounded_append_singleton hp c⟩
  | case12 _ place c rest es hp _ _ _ _ target hc _ =>
    cases h
    exact ⟨(at?_append_singleton hp c).trans hc, grounded_append_singleton hp c⟩
  | case6 _ _ _ _ _ ih => exact ih h
  | case7 _ _ _ _ _ _ _ _ ih => exact ih h
  | case14 _ _ _ _ _ _ _ _ _ _ _ _ _ _ ih => exact ih h
  | case15 _ _ _ _ _ _ _ _ _ _ _ _ _ ih => exact ih h
  | _ => cases h

/-- One tree has a file at a place where the other has at most a file, and all else that the other
has. -/
structure Holds (tree tree' : Node) (q : Place) (bs : Bytes) : Prop where
  here : tree'.at? q = some (.file bs)
  free : ∀ m, tree.at? q = some m → ∃ cs, m = .file cs
  rest : ∀ p, p ≠ q → tree.at? p ≠ none → Alike (tree.at? p) (tree'.at? p)

section Holds

variable {p : Place} {bs : Bytes} {es : List (Text × Node)} {target : Text} {m : Node}

theorem Holds.dir (h : Holds tree tree' q bs) (hp : tree.at? p = some (.dir es)) :
    ∃ es', tree'.at? p = some (.dir es') := by
  have hne : p ≠ q := by
    rintro rfl
    obtain ⟨cs, hc⟩ := h.free _ hp
    cases hc
  exact (hp ▸ h.rest p hne (by simp [hp])).of_dir

theorem Holds.link (h : Holds tree tree' q bs) (hp : tree.at? p = some (.link target)) :
    tree'.at? p = some (.link target) := by
  have hne : p ≠ q := by
    rintro rfl
    obtain ⟨cs, hc⟩ := h.free _ hp
    cases hc
  exact (hp ▸ h.rest p hne (by simp [hp])).link

theorem Holds.notLink (h : Holds tree tree' q bs) (hp : tree.at? p = some m)
    (hm : ∀ target, m ≠ .link target) :
    ∃ m', tree'.at? p = some m' ∧ ∀ target, m' ≠ .link target := by
  by_cases hne : p = q
  · exact ⟨_, hne ▸ h.here, by simp⟩
  · cases m with
    | file cs => exact ⟨_, (hp ▸ h.rest p hne (by simp [hp])).file, by simp⟩
    | dir fs =>
      obtain ⟨fs', hfs⟩ := h.dir hp
      exact ⟨_, hfs, by simp⟩
    | link target => exact absurd rfl (hm target)

end Holds

section Steps

variable {c target : Text} {rest : List Text} {es : List (Text × Node)} {m : Node}

theorem resolve_up (hp : tree.at? place = some (.dir es)) :
    tree.resolve goal budget place (".." :: rest) =
      tree.resolve goal budget place.dropLast rest := by
  rw [Node.resolve, hp]
  simp only [if_pos]

theorem resolve_stay (hp : tree.at? place = some (.dir es)) (hu : c ≠ "..")
    (hc : c.isEmpty || c = ".") :
    tree.resolve goal budget place (c :: rest) = tree.resolve goal budget place rest := by
  rw [Node.resolve, hp]
  simp only [if_neg hu, if_pos hc]

theorem resolve_enter (hp : tree.at? place = some (.dir es)) (hu : c ≠ "..")
    (hs : ¬(c.isEmpty || c = ".")) (hl : ¬maxName < byteLength c)
    (hf : ¬(goal = .file && rest = [[]])) (hc : tree.at? (place ++ [c]) = some m)
    (hm : ∀ target, m ≠ .link target) :
    tree.resolve goal budget place (c :: rest) =
      tree.resolve goal budget (place ++ [c]) rest := by
  rw [at?_append_singleton hp c] at hc
  rw [Node.resolve, hp]
  simp only [if_neg hu, if_neg hs, if_neg hl, if_neg hf, hc]

theorem resolve_follow (hp : tree.at? place = some (.dir es)) (hu : c ≠ "..")
    (hs : ¬(c.isEmpty || c = ".")) (hl : ¬maxName < byteLength c)
    (hf : ¬(goal = .file && rest = [[]])) (hc : tree.at? (place ++ [c]) = some (.link target))
    (hr : ¬(rest.isEmpty && goal = .entry)) :
    tree.resolve goal (budget + 1) place (c :: rest) =
      tree.resolve goal budget (if target.startsWith "/" then [] else place)
        (steps target ++ rest) := by
  rw [at?_append_singleton hp c] at hc
  rw [Node.resolve, hp]
  simp only [if_neg hu, if_neg hs, if_neg hl, if_neg hf, hc, if_neg hr]

theorem resolve_absent (hp : tree.at? place = some (.dir es)) (hu : c ≠ "..")
    (hs : ¬(c.isEmpty || c = ".")) (hl : ¬maxName < byteLength c)
    (hf : ¬(goal = .file && rest = [[]])) (hc : tree.at? (place ++ [c]) = none)
    (hr : ¬rest.isEmpty) :
    tree.resolve goal budget place (c :: rest) = .error .absent := by
  rw [at?_append_singleton hp c] at hc
  rw [Node.resolve, hp]
  simp only [if_neg hu, if_neg hs, if_neg hl, if_neg hf, hc, if_neg hr]

/-- A goal that asks for no more than another one. -/
theorem not_file_of_goal (hg : goal' = goal ∨ goal' = .node)
    (h : ¬(goal = .file && rest = [[]])) : ¬(goal' = .file && rest = [[]]) := by
  rcases hg with rfl | rfl
  · exact h
  · simp

theorem not_entry_of_goal (hg : goal' = goal ∨ goal' = .node)
    (h : ¬(rest.isEmpty && goal = .entry)) : ¬(rest.isEmpty && goal' = .entry) := by
  rcases hg with rfl | rfl
  · exact h
  · simp

end Steps

/-- Names that lead to a file, or to a place where one can be made, lead to the file that another
tree holds there. -/
theorem resolve_of_holds {bs : Bytes} (h : tree.resolve goal budget place names = .ok (q, n))
    (ht : Holds tree tree' q bs) (hg : goal' = goal ∨ goal' = .node) :
    tree'.resolve goal' budget place names = .ok (q, some (.file bs)) := by
  -- The directories and links on the way are in both trees, so the same names are followed.
  fun_induction Node.resolve tree goal budget place names with
  | case2 _ place n hp =>
    cases h
    rw [Node.resolve, ht.here]
  | case6 _ place rest es hp ih =>
    obtain ⟨es', hp'⟩ := ht.dir hp
    exact (resolve_up hp').trans (ih h)
  | case7 _ place c rest es hp hu hc ih =>
    obtain ⟨es', hp'⟩ := ht.dir hp
    exact (resolve_stay hp' hu hc).trans (ih h)
  | case10 _ place c rest es hp hu hs hl hf hc hr =>
    cases h
    obtain ⟨es', hp'⟩ := ht.dir hp
    obtain rfl := List.isEmpty_iff.1 hr
    rw [resolve_enter hp' hu hs hl (not_file_of_goal hg hf) ht.here (by simp), Node.resolve,
      ht.here]
  | case12 _ place c rest es hp hu hs hl hf target hc hr =>
    cases h
    obtain ⟨cs, hn⟩ := ht.free _ ((at?_append_singleton hp c).trans hc)
    cases hn
  | case14 place c rest es hp hu hs hl hf target hc hr b start ih =>
    obtain ⟨es', hp'⟩ := ht.dir hp
    have hc' := ht.link ((at?_append_singleton hp c).trans hc)
    exact (resolve_follow hp' hu hs hl (not_file_of_goal hg hf) hc'
      (not_entry_of_goal hg hr)).trans (ih h)
  | case15 _ place c rest es hp hu hs hl hf m hm hc ih =>
    obtain ⟨es', hp'⟩ := ht.dir hp
    obtain ⟨m', hc', hm'⟩ := ht.notLink ((at?_append_singleton hp c).trans hc) hm
    exact (resolve_enter hp' hu hs hl (not_file_of_goal hg hf) hc' hm').trans (ih h)
  | _ => cases h

def Grows (tree tree' : Node) : Prop :=
  ∀ q, Alike (tree.at? q) (tree'.at? q) ∨ tree.at? q = none ∧ ∃ es, tree'.at? q = some (.dir es)

theorem Grows.refl (tree : Node) : Grows tree tree := fun _ => .inl (.refl _)

theorem Grows.trans {tree'' : Node} (h : Grows tree tree') (h' : Grows tree' tree'') :
    Grows tree tree'' := by
  intro q
  rcases h q, h' q with ⟨ha | ⟨hn, es, hd⟩, ha' | ⟨hn', es', hd'⟩⟩
  · exact .inl (ha.trans ha')
  · rw [hn'] at ha
    exact .inr ⟨ha.symm.none, es', hd'⟩
  · rw [hd] at ha'
    exact .inr ⟨hn, ha'.of_dir⟩
  · rw [hd] at hn'
    cases hn'

theorem Grows.alike (h : Grows tree tree') (hq : tree.at? q ≠ none) :
    Alike (tree.at? q) (tree'.at? q) :=
  (h q).resolve_right fun hn => hq hn.1

/-- No file is made or lost, nor does one change. -/
theorem Grows.file_iff (h : Grows tree tree') {bs : Bytes} :
    tree'.at? q = some (.file bs) ↔ tree.at? q = some (.file bs) := by
  constructor
  · intro hf
    rcases h q with ha | ⟨-, es, hd⟩
    · exact (hf ▸ ha.symm).file
    · rw [hd] at hf
      cases hf
  · intro hf
    exact (hf ▸ h.alike (by simp [hf])).file

theorem grows_set (hq : tree.at? q = none) (h : Grounded tree q) :
    Grows tree (tree.set q (.dir [])) := by
  intro p
  by_cases hp : p = q
  · subst hp
    exact .inr ⟨hq, [], at?_set h⟩
  · exact .inl (alike_set h (by simp [hq]) (fun _ _ => rfl) hp)

end Node

namespace System

open Node

variable {s s' : System} {p : Path} {bs : Bytes} {goal goal' : Goal} {q : Place}
  {n : Option Node}

theorem locate_eq_ok {x : Place × Option Node} :
    s.locate goal p = .ok x ↔
      NameError.ofText? p.toText = none ∧ byteLength p.toText ≤ maxPath ∧
        s.tree.resolve goal 40 (if p.isAbsolute then [] else s.working) p.names = .ok x := by
  unfold locate
  cases NameError.ofText? p.toText with
  | some e => simp
  | none =>
    by_cases hl : maxPath < byteLength p.toText
    · simp [hl, Nat.not_le.2 hl]
    · simp [hl, mapError_eq_ok, Nat.le_of_not_lt hl]

theorem at?_of_locate (h : s.locate goal p = .ok (q, n)) :
    s.tree.at? q = n ∧ Grounded s.tree q :=
  resolve_eq_ok (locate_eq_ok.1 h).2.2

theorem locate_of_holds (h : s.locate goal p = .ok (q, n)) (ht : Holds s.tree s'.tree q bs)
    (hw : s'.working = s.working) (hg : goal' = goal ∨ goal' = .node) :
    s'.locate goal' p = .ok (q, some (.file bs)) := by
  obtain ⟨he, hl, hr⟩ := locate_eq_ok.1 h
  refine locate_eq_ok.2 ⟨he, hl, ?_⟩
  rw [hw]
  exact resolve_of_holds hr ht hg

theorem readBytes_eq_ok :
    s.readBytes p = .ok bs ↔ ∃ q, s.locate .node p = .ok (q, some (.file bs)) := by
  unfold readBytes
  rcases s.locate .node p with e | ⟨q, _ | _ | _ | _⟩ <;> simp

theorem writeBytes_eq_ok :
    s.writeBytes p bs = .ok s' ↔
      ∃ q n, s.locate .file p = .ok (q, n) ∧ (∀ m, n = some m → ∃ cs, m = .file cs) ∧
        s' = { s with tree := s.tree.set q (.file bs) } := by
  unfold writeBytes
  rcases s.locate .file p with e | ⟨q, _ | _ | _ | _⟩ <;> simp [eq_comm]

/-- A file that is written takes the place of no directory, and all other nodes stay. -/
theorem locate_of_writeBytes (h : s.writeBytes p bs = .ok s') (hg : goal = .file ∨ goal = .node) :
    ∃ q, s'.locate goal p = .ok (q, some (.file bs)) := by
  obtain ⟨q, n, hl, hn, rfl⟩ := writeBytes_eq_ok.1 h
  obtain ⟨hat, hgr⟩ := at?_of_locate hl
  have hf : ∀ m, s.tree.at? q = some m → ∃ cs, m = .file cs := fun m hm => hn m (hat.symm.trans hm)
  have hd : ∀ es, s.tree.at? q ≠ some (.dir es) := by
    intro es he
    obtain ⟨cs, hc⟩ := hf _ he
    cases hc
  have ht : Holds s.tree (s.tree.set q (.file bs)) q bs :=
    ⟨at?_set hgr, hf, fun p hp _ => alike_set hgr hd (fun _ _ => rfl) hp⟩
  exact ⟨q, locate_of_holds hl ht rfl hg⟩

theorem readBytes_writeBytes (h : s.writeBytes p bs = .ok s') : s'.readBytes p = .ok bs :=
  readBytes_eq_ok.2 (locate_of_writeBytes h (.inr rfl))

theorem exists_writeBytes_writeBytes (h : s.writeBytes p bs = .ok s') (bs' : Bytes) :
    ∃ s'', s'.writeBytes p bs' = .ok s'' := by
  obtain ⟨q, hl⟩ := locate_of_writeBytes h (.inl rfl)
  refine ⟨_, writeBytes_eq_ok.2 ⟨q, _, hl, ?_, rfl⟩⟩
  rintro m ⟨⟩
  exact ⟨bs, rfl⟩

theorem grows_makeDir (h : s.makeDir p = .ok s') :
    Grows s.tree s'.tree ∧ s'.working = s.working := by
  unfold makeDir at h
  rcases hl : s.locate .entry p with e | ⟨q, _ | m⟩ <;> rw [hl] at h
  · cases h
  · cases h
    obtain ⟨hat, hgr⟩ := at?_of_locate hl
    exact ⟨grows_set hat hgr, rfl⟩
  · cases h

theorem grows_makeLast (s : System) (p : Path) :
    Grows s.tree (madeDirs.makeLast s p).1.tree ∧
      (madeDirs.makeLast s p).1.working = s.working := by
  unfold madeDirs.makeLast
  cases h : s.makeDir p with
  | ok s' => exact grows_makeDir h
  | error e => exact ⟨.refl _, rfl⟩

theorem grows_makeFrom (s : System) (anchor : Anchor) (names : List Text) :
    Grows s.tree (madeDirs.makeFrom s anchor names).1.tree ∧
      (madeDirs.makeFrom s anchor names).1.working = s.working := by
  induction names with
  | nil => exact grows_makeLast s _
  | cons c above ih =>
    simp only [madeDirs.makeFrom]
    cases h : s.makeDir ⟨anchor, (c :: above).reverse⟩ with
    | ok s' => exact grows_makeDir h
    | error e =>
      simp only
      split
      · rcases hm : madeDirs.makeFrom s anchor above with ⟨s', _ | e⟩
        · rw [hm] at ih
          have hl := grows_makeLast s' ⟨anchor, (c :: above).reverse⟩
          exact ⟨ih.1.trans hl.1, hl.2.trans ih.2⟩
        · rwa [hm] at ih
      · exact ⟨.refl _, rfl⟩

/-- Directories that are made, all or some of those asked for, leave every file as it is. -/
theorem grows_madeDirs (s : System) (p : Path) :
    Grows s.tree (s.madeDirs p).1.tree ∧ (s.madeDirs p).1.working = s.working :=
  grows_makeFrom s p.anchor p.names.reverse

/-- What can be read stays readable when directories are added. -/
theorem readBytes_of_grows (h : Grows s.tree s'.tree) (hw : s'.working = s.working)
    (hr : s.readBytes p = .ok bs) : s'.readBytes p = .ok bs := by
  obtain ⟨q, hl⟩ := readBytes_eq_ok.1 hr
  have hat := (at?_of_locate hl).1
  have ht : Holds s.tree s'.tree q bs :=
    ⟨h.file_iff.2 hat, fun m hm => ⟨bs, Option.some.inj (hm.symm.trans hat)⟩, fun _ _ => h.alike⟩
  exact readBytes_eq_ok.2 ⟨q, locate_of_holds hl ht hw (.inr rfl)⟩

end System

end RouteAtlas.Files
