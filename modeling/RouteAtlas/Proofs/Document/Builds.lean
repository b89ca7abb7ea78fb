import RouteAtlas.Document.Build
import RouteAtlas.Proofs.Entity.Catalog
import RouteAtlas.Proofs.Store

/-!
# Builds with one builder

Nothing of a build is left for those behind it but the file of its document, and where that is.
-/

namespace RouteAtlas

/-- A build with a builder that is kept. One that fails leaves the builder as it was. -/
structure Builder.Call where
  table : Route.Table
  before : Builder
  found : Session
  result : Except BuildError Document
  after : Builder
  left : Session

namespace Builder

def call (b : Builder) (t : Route.Table) (s : Session) : Call :=
  match (b.build t).outcome s with
  | (.ok (d, b'), s') => ⟨t, b, s, .ok d, b', s'⟩
  | (.error e, s') => ⟨t, b, s, .error e, b, s'⟩

/-- Tables built one after the other. Before each of them the files may change. -/
def calls (b : Builder) (s : Session) :
    List ((Files.System → Files.System) × Route.Table) → List Call
  | [] => []
  | (change, t) :: rest =>
    let c := b.call t { s with files := change s.files }
    c :: calls c.after c.left rest

def fresh (b : Builder) : Builder := { b with store := none, written := none }

/-- What a build leaves whose document is stored: the bytes of its file are those of its text. -/
structure Call.Stored (c : Call) (d : Document) (store : Store) : Prop where
  written : c.after.written = some store.path
  text : ∃ text bytes, store.text d.toJson = .ok text ∧ Utf8.encode text = .ok bytes ∧
    Utf8.decode bytes = .ok text ∧ c.left.files.readBytes store.path = .ok bytes

/-- What a build leaves whose document cannot be stored: a warning says why. -/
structure Call.Unstored (c : Call) (d : Document) (store : Store) : Prop where
  written : c.after.written = none
  reported : ∃ s s' e, s.files = c.found.files ∧
    (store.write d.toJson).outcome s = (.error e, s') ∧ c.left.files = s'.files ∧
    c.left.log =
      s'.log ++ [⟨.warning, .assembler, "Could not persist API document: " ++ e.message⟩]

/-- What holds of every build with a builder that is kept. -/
structure Call.Sound (b : Builder) (c : Call) : Prop where
  before : c.before = { b with written := c.before.written }
  after : c.after = { b with written := c.after.written }
  /-- The result is that of a fresh builder wherever the catalog reads the same. -/
  fresh : ∀ s, Catalog.contents s.files b.catalog = Catalog.contents c.found.files b.catalog →
    c.result = (b.fresh.call c.table s).result
  failed : ∀ e, c.result = .error e →
    c.after.written = c.before.written ∧ c.left.files = c.found.files
  noStore : ∀ d, c.result = .ok d → b.store = none →
    c.after.written = none ∧ c.left.files = c.found.files
  store : ∀ d store, c.result = .ok d → b.store = some store → c.Stored d store ∨ c.Unstored d store

variable {b : Builder} {t : Route.Table} {s s' : Session}

/-- Assembling a document does no more than log, and depends on the text of the catalog alone. -/
theorem exists_settles_assemble (b : Builder) (t : Route.Table)
    (k : Option (Except Files.ReadError Text)) :
    ∃ x, (b.assemble t).Settles (fun fs => Catalog.contents fs b.catalog = k) x := by
  obtain ⟨entities, hc⟩ := Catalog.exists_settles_read (ε := BuildError) b.catalog k
  refine Action.exists_settles_bind ⟨_, hc⟩ fun entities => ?_
  refine Action.exists_settles_bind ⟨_, Action.settles_ofExcept _⟩ fun entries => ?_
  refine Action.exists_settles_bind ⟨_, Action.settles_note _ _ _⟩ fun _ => ?_
  refine Action.exists_settles_bind ⟨_, Action.settles_ofExcept _⟩ fun d => ?_
  exact Action.exists_settles_bind ⟨_, Action.settles_note _ _ _⟩ fun _ =>
    ⟨_, Action.settles_pure _⟩

theorem outcome_persist_none {ε : Type} (d : Document) (s : Session) :
    (persist none d : Action ε _).outcome s = (.ok none, s) := rfl

theorem outcome_persist_some {ε : Type} (store : Store) (d : Document) (s : Session) :
    (persist (some store) d : Action ε _).outcome s =
      match (store.write d.toJson).outcome s with
      | (.ok path, s) => (.ok (some path),
          { s with log := s.log ++
            [⟨.info, .assembler, "API document written to " ++ path.toText⟩] })
      | (.error e, s) => (.ok none,
          { s with log := s.log ++
            [⟨.warning, .assembler, "Could not persist API document: " ++ e.message⟩] }) := by
  simp only [persist, Action.outcome_bind, Action.outcome_attempt]
  rcases (store.write d.toJson).outcome s with ⟨_ | path, s'⟩ <;> rfl

/-- Storing a document leaves all files but its own. -/
theorem exists_spares_persist {ε : Type} (store : Store) (d : Document) (s : Session) :
    ∃ q, s.files.Spares ((persist (some store) d : Action ε _).outcome s).2.files (· = q) := by
  obtain ⟨q, hs⟩ := store.exists_spares_write d.toJson s
  rw [outcome_persist_some]
  rcases ho : (store.write d.toJson).outcome s with ⟨_ | path, s'⟩ <;> rw [ho] at hs <;>
    exact ⟨q, hs⟩

theorem exists_outcome_persist {ε : Type} (store : Option Store) (d : Document) (s : Session) :
    ∃ written s', (persist store d : Action ε _).outcome s = (.ok written, s') := by
  cases store with
  | none => exact ⟨_, _, outcome_persist_none d s⟩
  | some store =>
    rw [outcome_persist_some]
    rcases (store.write d.toJson).outcome s with ⟨_ | path, s'⟩ <;> exact ⟨_, _, rfl⟩

/-- A document is stored, or a write fails and is reported. -/
theorem stored_or_reported {ε : Type} {store : Store} {d : Document} {written : Option Files.Path}
    (h : (persist (some store) d : Action ε _).outcome s = (.ok written, s')) :
    (written = some store.path ∧ ∃ text bytes, store.text d.toJson = .ok text ∧
      Utf8.encode text = .ok bytes ∧ Utf8.decode bytes = .ok text ∧
      s'.files.readBytes store.path = .ok bytes) ∨
    (written = none ∧ ∃ left e, (store.write d.toJson).outcome s = (.error e, left) ∧
      s'.files = left.files ∧ s'.log =
        left.log ++ [⟨.warning, .assembler, "Could not persist API document: " ++ e.message⟩]) := by
  rw [outcome_persist_some] at h
  have hw := store.writes d.toJson s
  rcases ho : (store.write d.toJson).outcome s with ⟨e | path, left⟩ <;> rw [ho] at h hw <;> cases h
  · exact .inr ⟨rfl, left, e, rfl, rfl, rfl⟩
  · cases hw with
    | done ht he hr => exact .inl ⟨rfl, _, _, ht, he, Utf8.decode_of_encode he, hr⟩

theorem call_of_error {e : BuildError} (h : (b.assemble t).outcome s = (.error e, s')) :
    b.call t s = ⟨t, b, s, .error e, b, s'⟩ := by
  simp only [call, build, Action.outcome_bind, h]

theorem call_of_ok {d : Document} {s₁ : Session} {written : Option Files.Path}
    (h : (b.assemble t).outcome s = (.ok d, s₁))
    (hp : (persist b.store d : Action BuildError _).outcome s₁ = (.ok written, s')) :
    b.call t s = ⟨t, b, s, .ok d, { b with written := written }, s'⟩ := by
  simp only [call, build, Action.outcome_bind, h, hp, Action.outcome_pure]

theorem result_call {x : Except BuildError Document}
    (h : (b.assemble t).outcome s = (x, s')) : (b.call t s).result = x := by
  cases x with
  | error e => rw [call_of_error h]
  | ok d =>
    obtain ⟨written, s₂, hp⟩ := exists_outcome_persist b.store d s'
    rw [call_of_ok h hp]

theorem sound_call (b : Builder) (written : Option Files.Path) (t : Route.Table) (s : Session) :
    (call { b with written := written } t s).Sound b := by
  let kept : Builder := { b with written := written }
  obtain ⟨x, hx⟩ := exists_settles_assemble b t (Catalog.contents s.files b.catalog)
  obtain ⟨added, ha⟩ := hx s rfl
  have hfresh (r : Session)
      (hr : Catalog.contents r.files b.catalog = Catalog.contents s.files b.catalog) :
      x = (b.fresh.call t r).result := by
    obtain ⟨added', ha'⟩ := hx r hr
    exact (result_call (b := b.fresh) ha').symm
  cases x with
  | error e =>
    rw [call_of_error (b := kept) ha]
    exact {
      before := rfl
      after := rfl
      fresh := hfresh
      failed := fun _ _ => ⟨rfl, rfl⟩
      noStore := fun _ h => by cases h
      store := fun _ _ h => by cases h }
  | ok d =>
    obtain ⟨now, s₂, hp⟩ := exists_outcome_persist b.store d { s with log := s.log ++ added }
    rw [call_of_ok (b := kept) ha hp]
    refine {
      before := rfl
      after := rfl
      fresh := hfresh
      failed := fun _ h => by cases h
      noStore := ?_
      store := ?_ }
    · intro _ _ hn
      rw [hn, outcome_persist_none] at hp
      cases hp
      exact ⟨rfl, rfl⟩
    · rintro _ store ⟨⟩ hs
      rw [hs] at hp
      rcases stored_or_reported hp with ⟨hn, ht⟩ | ⟨hn, left, e, ho, hf, hl⟩
      · exact .inl ⟨hn, ht⟩
      · exact .inr ⟨hn, { s with log := s.log ++ added }, left, e, rfl, ho, hf, hl⟩

/-- Every build with one builder gives what a fresh builder without a store gives of the same table,
wherever the catalog reads the same. One that fails leaves the files, and where the latest document
is, as they were. The others store their document and say where, or they warn and say nothing. -/
theorem sound_calls (b : Builder) (s : Session)
    (steps : List ((Files.System → Files.System) × Route.Table)) :
    ∀ c ∈ b.calls s steps, c.Sound b := by
  -- The builder is the first one but for where the latest document is.
  have hrun (written : Option Files.Path) (s : Session) :
      ∀ c ∈ calls { b with written := written } s steps, c.Sound b := by
    induction steps generalizing written s with
    | nil => simp [calls]
    | cons step steps ih =>
      intro c hc
      have hs := sound_call b written step.2 { s with files := step.1 s.files }
      rcases List.mem_cons.1 hc with rfl | hc
      · exact hs
      · rw [hs.after] at hc
        exact ih _ _ c hc
  exact hrun b.written s

/-- A build that fails for a node that is no route, and one behind it. -/
theorem sound_calls_foreignNode : ∃ c₁ c₂ d, calls { store := some Store.kept }
      ⟨Store.keptFiles, []⟩ [(id, [.foreign "node"]), (id, [.route (some "/a") ["get"] []])] =
        [c₁, c₂] ∧
    c₁.result = .error (.walk (.foreignNode "node")) ∧ c₂.result = .ok d ∧
    c₁.Sound { store := some Store.kept } ∧ c₂.Sound { store := some Store.kept } := by
  obtain ⟨c₁, c₂, d, h, h₁, h₂⟩ : ∃ c₁ c₂ d, calls { store := some Store.kept }
        ⟨Store.keptFiles, []⟩ [(id, [.foreign "node"]), (id, [.route (some "/a") ["get"] []])] =
          [c₁, c₂] ∧
      c₁.result = .error (.walk (.foreignNode "node")) ∧ c₂.result = .ok d :=
    ⟨_, _, _, rfl, rfl, result_call rfl⟩
  have hs := sound_calls { store := some Store.kept } ⟨Store.keptFiles, []⟩
    [(id, [.foreign "node"]), (id, [.route (some "/a") ["get"] []])]
  rw [h] at hs
  exact ⟨c₁, c₂, d, h, h₁, h₂, hs c₁ (by simp), hs c₂ (by simp)⟩

end Builder

end RouteAtlas
