import RouteAtlas.CommandLine.Run
import RouteAtlas.Proofs.Files.Spared
import RouteAtlas.Proofs.Session

/-!
# Log files

A log file is made before anything else is done. Records are added to it while all other files stay
as they are.
-/

namespace RouteAtlas.CommandLine

open Files

namespace Sink

variable {ε α : Type} {k : Sink} {fs fs' : System} {u : Option Place}

def Stands (k : Sink) (fs : System) : Option Place → Prop
  | none => k.file = none
  | some u => ∃ p bs, k.file = some p ∧ fs.locate .file p = .ok (u, some (.file bs))

theorem Stands.of_retains (h : k.Stands fs u) (ht : fs.tree.Retains fs'.tree)
    (hw : fs'.working = fs.working) : k.Stands fs' u := by
  cases u with
  | none => exact h
  | some u =>
    obtain ⟨p, bs, hp, hl⟩ := h
    obtain ⟨bs', hl'⟩ := System.locate_of_retains hl ht hw (.inl rfl)
    exact ⟨p, bs', hp, hl'⟩

/-- The log file stays where it is, and all other files as they are. -/
structure Logs (k : Sink) (u : Option Place) (fs fs' : System) : Prop where
  spares : fs.Spares fs' (some · = u)
  stands : k.Stands fs' u

theorem Logs.trans {fs'' : System} (h : k.Logs u fs fs') (h' : k.Logs u fs' fs'') :
    k.Logs u fs fs'' :=
  ⟨h.spares.trans h'.spares, h'.stands⟩

theorem Stands.logs (h : k.Stands fs u) : k.Logs u fs fs := ⟨.refl _ _, h⟩

theorem Stands.append (h : k.Stands fs u) (r : Record) : k.Logs u fs (k.append fs r) := by
  unfold Sink.append
  split
  next p bytes hp he =>
    split
    next fs' ha =>
      obtain ⟨q, cs, hl, hs⟩ := System.exists_spares_appendBytes ha
      -- The path leads to where it did before, and this is where the record is added.
      obtain rfl : some q = u := by
        have h' := h.of_retains hs.retains hs.working
        cases u with
        | none => cases hp.symm.trans h
        | some u =>
          obtain ⟨p', bs, hp', hl'⟩ := h'
          cases hp.symm.trans hp'
          cases hl.symm.trans hl'
          rfl
      exact ⟨hs.mono fun _ hq => congrArg some hq, p, cs, hp, hl⟩
    next => exact h.logs
  next => exact h.logs

theorem Stands.foldl_append (h : k.Stands fs u) (rs : Log) :
    k.Logs u fs (rs.foldl k.append fs) := by
  induction rs generalizing fs with
  | nil => exact h.logs
  | cons r rs ih => exact (h.append r).trans (ih (h.append r).stands)

/-- A session whose log file has the records behind the first `n` as well. -/
def flushed (k : Sink) (n : Nat) (s : Session) : Session :=
  { s with files := ((s.log.drop n).filter k.shows).foldl k.append s.files }

theorem outcome_recorded (a : Action ε α) (s : Session) :
    (k.recorded a).outcome s = ((a.outcome s).1, k.flushed s.log.length (a.outcome s).2) := rfl

theorem Stands.flushed {s : Session} (h : k.Stands s.files u) (n : Nat) :
    k.Logs u s.files (k.flushed n s).files :=
  h.foldl_append _

theorem Stands.recorded {a : Action ε α} {s s' : Session} {x : Except ε α}
    (h : k.Stands s.files u) (ha : a.Quiet) (ho : (k.recorded a).outcome s = (x, s')) :
    k.Logs u s.files s'.files := by
  obtain ⟨added, hq⟩ := ha s
  rw [outcome_recorded, hq] at ho
  cases ho
  exact Stands.flushed (s := { s with log := s.log ++ added }) h _

end Sink

namespace Invocation

variable {i : Invocation} {s s' : Session} {file : Option Files.Path}

def logPath? (i : Invocation) (fs : System) : Option Files.Path :=
  (i.logFile.bind Given.proper?).bind fun t =>
    (fs.expandHome (Files.Path.ofText t)).toOption.map fs.absolute

/-- Once it is open, the log file is at a place of the tree, and no other file has changed. -/
theorem exists_logs_of_openLog (h : i.openLog.outcome s = (.ok file, s')) :
    file = i.logPath? s.files ∧
      ∃ u, ∀ least stamp, (⟨file, least, stamp⟩ : Sink).Logs u s.files s'.files := by
  unfold openLog at h
  unfold logPath?
  cases ht : i.logFile.bind Given.proper? with
  | none =>
    rw [ht] at h
    cases h
    exact ⟨rfl, none, fun _ _ => Sink.Stands.logs rfl⟩
  | some t =>
    rw [ht] at h
    obtain ⟨fs, x, hf, h⟩ := Action.outcome_bind_eq_ok.1 h
    rw [Action.outcome_files] at hf
    cases hf
    cases hp : s.files.expandHome (Files.Path.ofText t) with
    | error e =>
      simp only [hp] at h
      cases h
    | ok p =>
      simp only [hp] at h
      obtain ⟨_, made, hm, h⟩ := Action.outcome_bind_eq_ok.1 h
      obtain ⟨_, opened, ho, h⟩ := Action.outcome_bind_eq_ok.1 h
      rw [Action.outcome_pure] at h
      cases h
      have hd (written : Place → Prop) : s.files.Spares made.files written := by
        obtain rfl : ((Action.makeDirs p.parent).outcome s).2 = made := congrArg Prod.snd hm
        exact Action.spares_makeDirs p.parent s written
      rw [Action.outcome_change] at ho
      cases ha : made.files.appendBytes (s.files.absolute p) [] with
      | error e =>
        rw [ha] at ho
        cases ho
      | ok fs =>
        rw [ha] at ho
        cases ho
        obtain ⟨q, cs, hl, hs⟩ := System.exists_spares_appendBytes ha
        refine ⟨by simp [hp, Except.toOption], some q, fun least stamp => ⟨?_, _, cs, rfl, hl⟩⟩
        exact (hd _).trans (hs.mono fun _ hq => congrArg some hq)

def LogAt (i : Invocation) (fs fs' : System) (q : Place) : Prop :=
  ∃ p n, i.logPath? fs = some p ∧ fs'.locate .node p = .ok (q, n)

theorem logAt_of_stands {k : Sink} {fs fs' : System} {u : Option Place} {q : Place}
    (hk : k.file = i.logPath? fs) (h : k.Stands fs' u) (hq : some q = u) : i.LogAt fs fs' q := by
  obtain rfl := hq
  obtain ⟨p, bs, hp, hl⟩ := h
  obtain ⟨bs', hl'⟩ := System.locate_of_retains hl (.refl _) rfl (.inr rfl)
  exact ⟨p, _, hk.symm.trans hp, hl'⟩

end Invocation

end RouteAtlas.CommandLine
