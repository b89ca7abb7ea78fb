import Mathlib.Data.List.Forall2
import Mathlib.Tactic.Common
import RouteAtlas.Session

/-!
# Steps that succeed

A run of two steps succeeds when both do, and a failing step ends it.
-/

namespace RouteAtlas

variable {ε ε' α β : Type}

theorem bind_eq_ok {x : Except ε α} {f : α → Except ε β} {b : β} :
    x >>= f = .ok b ↔ ∃ a, x = .ok a ∧ f a = .ok b := by
  cases x <;> simp [bind, Except.bind]

theorem bind_eq_error {x : Except ε α} {f : α → Except ε β} {e : ε} :
    x >>= f = .error e ↔ x = .error e ∨ ∃ a, x = .ok a ∧ f a = .error e := by
  cases x <;> simp [bind, Except.bind]

theorem mapError_eq_ok {x : Except ε α} {f : ε → ε'} {a : α} :
    x.mapError f = .ok a ↔ x = .ok a := by
  cases x <;> simp [Except.mapError]

theorem mapError_eq_error {x : Except ε α} {f : ε → ε'} {e : ε'} :
    x.mapError f = .error e ↔ ∃ e', x = .error e' ∧ f e' = e := by
  cases x <;> simp [Except.mapError]

theorem map_eq_error {x : Except ε α} {f : α → β} {e : ε} :
    x.map f = .error e ↔ x = .error e := by
  cases x <;> simp [Except.map]

/-- A run of steps succeeds when each of them does. -/
theorem mapM_eq_ok_iff {f : α → Except ε β} {xs : List α} {ys : List β} :
    xs.mapM f = .ok ys ↔ List.Forall₂ (fun x y => f x = .ok y) xs ys := by
  induction xs generalizing ys with
  | nil => cases ys <;> simp [pure, Except.pure]
  | cons x xs ih =>
    rw [List.mapM_cons, bind_eq_ok, List.forall₂_cons_left_iff]
    constructor
    · rintro ⟨y, hy, h⟩
      obtain ⟨zs, hzs, h⟩ := bind_eq_ok.1 h
      exact ⟨y, zs, hy, ih.1 hzs, (Except.ok.inj h).symm⟩
    · rintro ⟨y, zs, hy, hzs, rfl⟩
      exact ⟨y, hy, bind_eq_ok.2 ⟨zs, ih.2 hzs, rfl⟩⟩

theorem exists_of_mapM_eq_ok {f : α → Except ε β} {xs : List α} {ys : List β}
    (h : xs.mapM f = .ok ys) {y : β} (hy : y ∈ ys) : ∃ x ∈ xs, f x = .ok y := by
  have hf := mapM_eq_ok_iff.1 h
  clear h
  induction hf with
  | nil => cases hy
  | @cons x z xs zs hz _ ih =>
    rcases List.mem_cons.1 hy with rfl | hy
    · exact ⟨x, by simp, hz⟩
    · obtain ⟨w, hw, hf⟩ := ih hy
      exact ⟨w, by simp [hw], hf⟩

namespace Action

@[simp] theorem outcome_files (s : Session) : (files : Action ε _).outcome s = (.ok s.files, s) :=
  rfl

theorem outcome_change (f : Files.System → Except ε Files.System) (s : Session) :
    (change f).outcome s = match f s.files with
      | .ok fs => (.ok (), { s with files := fs })
      | .error e => (.error e, s) := by
  simp only [change, outcome_bind, outcome_files]
  cases f s.files <;> rfl

theorem outcome_makeDirs (p : Files.Path) (s : Session) :
    (makeDirs p).outcome s = match s.files.madeDirs p with
      | (fs, none) => (.ok (), { s with files := fs })
      | (fs, some e) => (.error e, { s with files := fs }) := by
  simp only [makeDirs, outcome_bind, outcome_files]
  rcases s.files.madeDirs p with ⟨fs, _ | e⟩ <;> rfl

theorem outcome_bind_eq_ok {a : Action ε α} {f : α → Action ε β} {s s' : Session} {b : β} :
    (a >>= f).outcome s = (.ok b, s') ↔
      ∃ x t, a.outcome s = (.ok x, t) ∧ (f x).outcome t = (.ok b, s') := by
  rw [outcome_bind]
  rcases a.outcome s with ⟨_ | x, t⟩
  · simp
  · constructor
    · exact fun h => ⟨x, t, rfl, h⟩
    · rintro ⟨y, u, he, h⟩
      cases he
      exact h

theorem outcome_mapM {f : α → Action ε β} {xs : List α} {ys : List β} {s : Session}
    (h : List.Forall₂ (fun x y => (f x).outcome s = (.ok y, s)) xs ys) :
    (xs.mapM f).outcome s = (.ok ys, s) := by
  induction h with
  | nil => rfl
  | cons hy _ ih =>
    rw [List.mapM_cons]
    exact outcome_bind_eq_ok.2 ⟨_, s, hy, outcome_bind_eq_ok.2 ⟨_, s, ih, rfl⟩⟩

theorem exists_of_outcome_mapM_eq_ok {f : α → Action ε β} {xs : List α} {ys : List β}
    {s s' : Session} (h : (xs.mapM f).outcome s = (.ok ys, s')) {y : β} (hy : y ∈ ys) :
    ∃ x ∈ xs, ∃ t t', (f x).outcome t = (.ok y, t') := by
  induction xs generalizing ys s with
  | nil =>
    rw [List.mapM_nil, outcome_pure] at h
    cases h
    simp at hy
  | cons x xs ih =>
    rw [List.mapM_cons] at h
    obtain ⟨z, t, hz, h⟩ := outcome_bind_eq_ok.1 h
    obtain ⟨zs, t', hzs, h⟩ := outcome_bind_eq_ok.1 h
    rw [outcome_pure] at h
    cases h
    rcases List.mem_cons.1 hy with rfl | hy
    · exact ⟨x, by simp, s, t, hz⟩
    · obtain ⟨w, hw, u, u', hf⟩ := ih hzs hy
      exact ⟨w, by simp [hw], u, u', hf⟩

/-- Wherever the files have a property, an action does no more than log, and it always has the same
result. -/
def Settles (a : Action ε α) (P : Files.System → Prop) (x : Except ε α) : Prop :=
  ∀ s : Session, P s.files → ∃ added, a.outcome s = (x, { s with log := s.log ++ added })

section

variable {P : Files.System → Prop} {a : Action ε α} {f : α → Action ε β} {v : α} {y : Except ε β}
  {e : ε}

theorem settles_pure (v : α) : (pure v : Action ε α).Settles P (.ok v) :=
  fun s _ => ⟨[], by simp⟩

theorem settles_throw (e : ε) : (throw e : Action ε α).Settles P (.error e) :=
  fun s _ => ⟨[], by simp⟩

theorem settles_ofExcept (x : Except ε α) : (ofExcept x).Settles P x := fun s _ => ⟨[], by simp⟩

theorem settles_note (level : Level) (origin : Origin) (message : Text) :
    (note level origin message : Action ε Unit).Settles P (.ok ()) :=
  fun _ _ => ⟨_, rfl⟩

theorem Settles.bind (h : a.Settles P (.ok v)) (hf : (f v).Settles P y) :
    (a >>= f).Settles P y := by
  intro s hs
  obtain ⟨first, ha⟩ := h s hs
  obtain ⟨rest, hr⟩ := hf { s with log := s.log ++ first } hs
  refine ⟨first ++ rest, ?_⟩
  rw [outcome_bind, ha]
  simpa using hr

theorem Settles.bind_error (h : a.Settles P (.error e)) : (a >>= f).Settles P (.error e) := by
  intro s hs
  obtain ⟨added, ha⟩ := h s hs
  exact ⟨added, by rw [outcome_bind, ha]⟩

theorem Settles.attempt {x : Except ε α} (h : a.Settles P x) :
    (attempt a : Action ε' _).Settles P (.ok x) := by
  intro s hs
  obtain ⟨added, ha⟩ := h s hs
  exact ⟨added, by rw [outcome_attempt, ha]⟩

/-- A run of two steps settles if the first does and the second does behind it. -/
theorem exists_settles_bind (h : ∃ x, a.Settles P x) (hf : ∀ v, ∃ y, (f v).Settles P y) :
    ∃ y, (a >>= f).Settles P y := by
  obtain ⟨_ | v, h⟩ := h
  · exact ⟨_, h.bind_error⟩
  · obtain ⟨y, hy⟩ := hf v
    exact ⟨y, h.bind hy⟩

theorem exists_settles_mapM (hf : ∀ v, ∃ y, (f v).Settles P y) (vs : List α) :
    ∃ y, (vs.mapM f).Settles P y := by
  induction vs with
  | nil => exact ⟨_, settles_pure []⟩
  | cons v vs ih =>
    rw [List.mapM_cons]
    exact exists_settles_bind (hf v) fun w =>
      exists_settles_bind ih fun ws => ⟨_, settles_pure (w :: ws)⟩

end

/-- An action that writes no file: all that it leaves is in the log. -/
def Quiet (a : Action ε α) : Prop :=
  ∀ s : Session, ∃ added, (a.outcome s).2 = { s with log := s.log ++ added }

section

variable {a : Action ε α} {f : α → Action ε β}

theorem quiet_pure (v : α) : (pure v : Action ε α).Quiet := fun _ => ⟨[], by simp⟩

theorem quiet_throw (e : ε) : (throw e : Action ε α).Quiet := fun _ => ⟨[], by simp⟩

theorem quiet_ofExcept (x : Except ε α) : (ofExcept x).Quiet := fun _ => ⟨[], by simp⟩

theorem quiet_files : (files : Action ε _).Quiet := fun _ => ⟨[], by simp⟩

theorem quiet_note (level : Level) (origin : Origin) (message : Text) :
    (note level origin message : Action ε Unit).Quiet :=
  fun _ => ⟨_, rfl⟩

theorem Quiet.bind (h : a.Quiet) (hf : ∀ v, (f v).Quiet) : (a >>= f).Quiet := by
  intro s
  obtain ⟨first, ha⟩ := h s
  rw [outcome_bind]
  rcases ho : a.outcome s with ⟨e | v, t⟩
  · rw [ho] at ha
    exact ⟨first, ha⟩
  · obtain rfl : t = { s with log := s.log ++ first } := by simpa only [ho] using ha
    obtain ⟨rest, hr⟩ := hf v { s with log := s.log ++ first }
    exact ⟨first ++ rest, by simpa using hr⟩

theorem Quiet.mapError (h : a.Quiet) (g : ε → ε') : (a.mapError g).Quiet := h

theorem quiet_mapM (hf : ∀ v, (f v).Quiet) (vs : List α) : (vs.mapM f).Quiet := by
  induction vs with
  | nil => exact quiet_pure []
  | cons v vs ih =>
    rw [List.mapM_cons]
    exact (hf v).bind fun w => ih.bind fun ws => quiet_pure (w :: ws)

theorem quiet_foldlM {g : β → α → Action ε β} (hg : ∀ w v, (g w v).Quiet) (vs : List α) (w : β) :
    (vs.foldlM g w).Quiet := by
  induction vs generalizing w with
  | nil => exact quiet_pure w
  | cons v vs ih =>
    rw [List.foldlM_cons]
    exact (hg w v).bind ih

end

end Action

end RouteAtlas
