import RouteAtlas.Proofs.Files.Writing
import RouteAtlas.Proofs.Session

/-!
# Files that others are written beside

Where files are written and directories are made, names that lead to another file still lead to it.
-/

namespace RouteAtlas.Files

namespace Node

variable {tree tree' tree'' : Node} {goal goal' : Goal} {budget : Nat} {place q : Place}
  {names : List Text}

/-- All that one tree has is in the other, files with whatever content. -/
structure Retains (tree tree' : Node) : Prop where
  dir : ∀ p es, tree.at? p = some (.dir es) → ∃ es', tree'.at? p = some (.dir es')
  link : ∀ p target, tree.at? p = some (.link target) → tree'.at? p = some (.link target)
  file : ∀ p bs, tree.at? p = some (.file bs) → ∃ bs', tree'.at? p = some (.file bs')

theorem Retains.refl (tree : Node) : Retains tree tree :=
  ⟨fun _ es h => ⟨es, h⟩, fun _ _ h => h, fun _ bs h => ⟨bs, h⟩⟩

theorem Retains.trans (h : Retains tree tree') (h' : Retains tree' tree'') :
    Retains tree tree'' := by
  constructor
  · intro p es hp
    obtain ⟨es', hp'⟩ := h.dir p es hp
    exact h'.dir p es' hp'
  · intro p target hp
    exact h'.link p target (h.link p target hp)
  · intro p bs hp
    obtain ⟨bs', hp'⟩ := h.file p bs hp
    exact h'.file p bs' hp'

theorem Retains.entry {es : List (Text × Node)} {m : Node} {c : Text} (h : Retains tree tree')
    (hp : tree.at? place = some (.dir es)) (hc : es.lookup c = some m)
    (hm : ∀ target, m ≠ .link target) : ∃ m', tree'.at? (place ++ [c]) = some m' ∧
      ∀ target, m' ≠ .link target := by
  have ht : tree.at? (place ++ [c]) = some m := (at?_append_singleton hp c).trans hc
  cases m with
  | file bs =>
    obtain ⟨bs', h'⟩ := h.file _ bs ht
    exact ⟨_, h', by simp⟩
  | dir fs =>
    obtain ⟨fs', h'⟩ := h.dir _ fs ht
    exact ⟨_, h', by simp⟩
  | link target => exact absurd rfl (hm target)

/-- Names that lead to a file lead to one at the same place of a tree that has all that this one
has. -/
theorem resolve_of_retains {bs : Bytes}
    (h : tree.resolve goal budget place names = .ok (q, some (.file bs)))
    (ht : Retains tree tree') (hg : goal' = goal ∨ goal' = .node) :
    ∃ bs', tree'.resolve goal' budget place names = .ok (q, some (.file bs')) := by
  -- The directories and links on the way are in both trees, so the same names are followed.
  fun_induction Node.resolve tree goal budget place names with
  | case2 _ place n hp =>
    cases h
    obtain ⟨bs', hp'⟩ := ht.file _ bs hp
    exact ⟨bs', by rw [Node.resolve, hp']⟩
  | case6 _ place rest es hp ih =>
    obtain ⟨es', hp'⟩ := ht.dir _ es hp
    rw [resolve_up hp']
    exact ih h
  | case7 _ place c rest es hp hu hc ih =>
    obtain ⟨es', hp'⟩ := ht.dir _ es hp
    rw [resolve_stay hp' hu hc]
    exact ih h
  | case14 place c rest es hp hu hs hl hf target hc hr b start ih =>
    obtain ⟨es', hp'⟩ := ht.dir _ es hp
    have hc' := ht.link _ target ((at?_append_singleton hp c).trans hc)
    rw [resolve_follow hp' hu hs hl (not_file_of_goal hg hf) hc' (not_entry_of_goal hg hr)]
    exact ih h
  | case15 _ place c rest es hp hu hs hl hf m hm hc ih =>
    obtain ⟨es', hp'⟩ := ht.dir _ es hp
    obtain ⟨m', hc', hm'⟩ := ht.entry hp hc hm
    rw [resolve_enter hp' hu hs hl (not_file_of_goal hg hf) hc' hm']
    exact ih h
  | _ => cases h

end Node

namespace System

open Node

variable {s s' s'' : System} {p : Path} {bs : Bytes} {goal goal' : Goal} {q : Place}
  {written : Place → Prop}

/-- Files may be written at some places, and directories be made; all files but those stay. -/
structure Spares (s s' : System) (written : Place → Prop) : Prop where
  working : s'.working = s.working
  retains : Retains s.tree s'.tree
  rest : ∀ q, ¬ written q → Alike (s.tree.at? q) (s'.tree.at? q) ∨
    s.tree.at? q = none ∧ ∃ es, s'.tree.at? q = some (.dir es)

theorem Spares.refl (s : System) (written : Place → Prop) : s.Spares s written :=
  ⟨rfl, .refl _, fun _ _ => .inl (.refl _)⟩

theorem Spares.trans (h : s.Spares s' written) (h' : s'.Spares s'' written) :
    s.Spares s'' written := by
  refine ⟨h'.working.trans h.working, h.retains.trans h'.retains, ?_⟩
  intro q hq
  rcases h.rest q hq, h'.rest q hq with ⟨ha | ⟨hn, es, hd⟩, ha' | ⟨hn', es', hd'⟩⟩
  · exact .inl (ha.trans ha')
  · rw [hn'] at ha
    exact .inr ⟨ha.symm.none, es', hd'⟩
  · rw [hd] at ha'
    exact .inr ⟨hn, ha'.of_dir⟩
  · rw [hd] at hn'
    cases hn'

theorem Spares.mono {written' : Place → Prop} (h : s.Spares s' written)
    (hw : ∀ q, written q → written' q) : s.Spares s' written' :=
  ⟨h.working, h.retains, fun q hq => h.rest q fun hq' => hq (hw q hq')⟩

/-- No file is made, lost or changed but where files are written. -/
theorem Spares.file_iff (h : s.Spares s' written) (hq : ¬ written q) :
    s'.tree.at? q = some (.file bs) ↔ s.tree.at? q = some (.file bs) := by
  constructor
  · intro hf
    rcases h.rest q hq with ha | ⟨-, es, hd⟩
    · exact (hf ▸ ha.symm).file
    · rw [hd] at hf
      cases hf
  · intro hf
    rcases h.rest q hq with ha | ⟨hn, -⟩
    · exact (hf ▸ ha).file
    · rw [hf] at hn
      cases hn

theorem locate_of_retains (h : s.locate goal p = .ok (q, some (.file bs)))
    (ht : Retains s.tree s'.tree) (hw : s'.working = s.working)
    (hg : goal' = goal ∨ goal' = .node) :
    ∃ bs', s'.locate goal' p = .ok (q, some (.file bs')) := by
  obtain ⟨he, hl, hr⟩ := locate_eq_ok.1 h
  obtain ⟨bs', hr'⟩ := resolve_of_retains hr ht hg
  exact ⟨bs', locate_eq_ok.2 ⟨he, hl, by rw [hw, hr']⟩⟩

theorem Spares.locate (h : s.Spares s' written) (hl : s.locate .node p = .ok (q, some (.file bs)))
    (hq : ¬ written q) : s'.locate .node p = .ok (q, some (.file bs)) := by
  obtain ⟨bs', hl'⟩ := locate_of_retains hl h.retains h.working (.inl rfl)
  have hf := (h.file_iff hq).2 (at?_of_locate hl).1
  rw [(at?_of_locate hl').1] at hf
  rw [hl', hf]

theorem Spares.readBytes (h : s.Spares s' written) (hr : s.readBytes p = .ok bs)
    (hp : ∀ q n, s'.locate .node p = .ok (q, n) → ¬ written q) : s'.readBytes p = .ok bs := by
  obtain ⟨q, hl⟩ := readBytes_eq_ok.1 hr
  obtain ⟨bs', hl'⟩ := locate_of_retains hl h.retains h.working (.inl rfl)
  exact readBytes_eq_ok.2 ⟨q, h.locate hl (hp q _ hl')⟩

theorem spares_of_grows (h : Grows s.tree s'.tree) (hw : s'.working = s.working)
    (written : Place → Prop) : s.Spares s' written := by
  refine ⟨hw, ⟨?_, ?_, ?_⟩, fun q _ => h q⟩
  · intro p es hp
    exact (hp ▸ h.alike (by simp [hp])).of_dir
  · intro p target hp
    exact (hp ▸ h.alike (by simp [hp])).link
  · intro p bs hp
    exact ⟨bs, h.file_iff.2 hp⟩

theorem spares_set (h : Grounded s.tree q) (hf : ∀ m, s.tree.at? q = some m → ∃ cs, m = .file cs)
    (bs : Bytes) : s.Spares { s with tree := s.tree.set q (.file bs) } (· = q) := by
  have hd : ∀ es, s.tree.at? q ≠ some (.dir es) := by
    intro es he
    obtain ⟨cs, hc⟩ := hf _ he
    cases hc
  have hne {p : Place} {n : Node} (hp : s.tree.at? p = some n) (hn : ∀ cs, n ≠ .file cs) :
      p ≠ q := by
    rintro rfl
    obtain ⟨cs, hc⟩ := hf _ hp
    exact hn cs hc
  have hrest {p : Place} (hp : p ≠ q) : Alike (s.tree.at? p) ((s.tree.set q (.file bs)).at? p) :=
    alike_set h hd (fun _ _ => rfl) hp
  refine ⟨rfl, ⟨?_, ?_, ?_⟩, fun p hp => .inl (hrest hp)⟩
  · intro p es hp
    exact (hp ▸ hrest (hne hp (by simp))).of_dir
  · intro p target hp
    exact (hp ▸ hrest (hne hp (by simp))).link
  · intro p cs hp
    by_cases hpq : p = q
    · rw [hpq]
      exact ⟨bs, at?_set h⟩
    · exact ⟨cs, (hp ▸ hrest hpq).file⟩

theorem spares_madeDirs (s : System) (p : Path) (written : Place → Prop) :
    s.Spares (s.madeDirs p).1 written :=
  spares_of_grows (grows_madeDirs s p).1 (grows_madeDirs s p).2 written

/-- A file that is opened and filled is at the place where its path leads. -/
theorem locate_spares_set {n : Option Node} (hl : s.locate .file p = .ok (q, n))
    (hn : ∀ m, n = some m → ∃ cs, m = .file cs) (bs : Bytes) (hg : goal = .file ∨ goal = .node) :
    let s' := { s with tree := s.tree.set q (.file bs) }
    s'.locate goal p = .ok (q, some (.file bs)) ∧ s.Spares s' (· = q) := by
  obtain ⟨hat, hgr⟩ := at?_of_locate hl
  have hf : ∀ m, s.tree.at? q = some m → ∃ cs, m = .file cs := fun m hm => hn m (hat.symm.trans hm)
  have hs := spares_set hgr hf bs
  have ht : Holds s.tree (s.tree.set q (.file bs)) q bs := by
    refine ⟨at?_set hgr, hf, fun p hp hne => ?_⟩
    exact (hs.rest p hp).resolve_right fun hr => hne hr.1
  exact ⟨locate_of_holds hl ht rfl hg, hs⟩

theorem exists_spares_writeBytes (h : s.writeBytes p bs = .ok s') :
    ∃ q, s'.locate .node p = .ok (q, some (.file bs)) ∧ s.Spares s' (· = q) := by
  obtain ⟨q, n, hl, hn, rfl⟩ := writeBytes_eq_ok.1 h
  exact ⟨q, locate_spares_set hl hn bs (.inr rfl)⟩

theorem exists_spares_appendBytes (h : s.appendBytes p bs = .ok s') :
    ∃ q cs, s'.locate .file p = .ok (q, some (.file cs)) ∧ s.Spares s' (· = q) := by
  obtain ⟨q, n, cs, hl, hn, rfl⟩ : ∃ q n cs, s.locate .file p = .ok (q, n) ∧
      (∀ m, n = some m → ∃ cs, m = .file cs) ∧
      s' = { s with tree := s.tree.set q (.file cs) } := by
    unfold appendBytes at h
    rcases hl : s.locate .file p with e | ⟨q, _ | _ | _ | _⟩ <;> rw [hl] at h <;> cases h <;>
      exact ⟨_, _, _, rfl, by simp, rfl⟩
  exact ⟨q, cs, locate_spares_set hl hn cs (.inl rfl)⟩

end System

end RouteAtlas.Files

namespace RouteAtlas.Action

open Files

theorem spares_makeDirs (p : Path) (s : Session) (written : Place → Prop) :
    s.files.Spares ((makeDirs p).outcome s).2.files written := by
  have hd := System.spares_madeDirs s.files p written
  rw [outcome_makeDirs]
  rcases hm : s.files.madeDirs p with ⟨fs, _ | e⟩ <;> rwa [hm] at hd

end RouteAtlas.Action
