import RouteAtlas.Proofs.Document.Builds
import RouteAtlas.Proofs.Handler.Analysis

/-!
# Documents and the handlers of their routes

A table has a document, whatever the texts of its handlers and the grammar are, unless one of them
cannot be told.
-/

namespace RouteAtlas

namespace Route.Entry

variable (s : DocumentSettings) (owners : ControllerMap) (catalog : List Entity) (route : Nat)
  {e : Entry}

/-- The handler that answers is one of the chain, if there are any. -/
theorem forall_told_iff : (∀ k ∈ e.handler :: e.handlers, k.Told) ↔ ∀ k ∈ e.handlers, k.Told := by
  have hh (hs : ∀ k ∈ e.handlers, k.Told) : e.handler.Told := by
    unfold handler
    cases hl : e.handlers.getLast? with
    | none => exact Handler.told_absent
    | some k => exact hs k (List.mem_of_getLast? hl)
  constructor
  · intro h k hk
    exact h k (List.mem_cons_of_mem _ hk)
  · intro h k hk
    rcases List.mem_cons.1 hk with rfl | hk
    · exact hh h
    · exact h k hk

theorem exists_operations_of_told (h : ∀ k ∈ e.handlers, k.Told) :
    ∃ item, e.operations s owners catalog route = .ok item := by
  rw [operations, Handler.analyze_of_told (forall_told_iff.2 h)]
  exact ⟨_, rfl⟩

theorem operations_of_not_told (h : ∃ k ∈ e.handlers, ¬ k.Told) :
    e.operations s owners catalog route = .error .wrapperLoop := by
  have hc : ∃ k ∈ e.handler :: e.handlers, ¬ k.Told := by
    obtain ⟨k, hk, hn⟩ := h
    exact ⟨k, List.mem_cons_of_mem _ hk, hn⟩
  rw [operations, Handler.analyze_of_not_told hc]
  rfl

end Route.Entry

section

variable (s : DocumentSettings) (owners : ControllerMap) (catalog : List Entity)
  {es : List Route.Entry}

theorem Paths.exists_addEntries_of_told (h : ∀ e ∈ es, ∀ k ∈ e.handlers, k.Told) (ps : Paths)
    (route : Nat) : ∃ ps', addEntries s owners catalog ps route es = .ok ps' := by
  induction es generalizing ps route with
  | nil => exact ⟨ps, rfl⟩
  | cons e es ih =>
    obtain ⟨item, hi⟩ :=
      Route.Entry.exists_operations_of_told s owners catalog route (h e (by simp))
    rw [addEntries, hi]
    exact ih (fun d hd => h d (by simp [hd])) _ _

theorem Paths.addEntries_of_not_told (h : ∃ e ∈ es, ∃ k ∈ e.handlers, ¬ k.Told) (ps : Paths)
    (route : Nat) : addEntries s owners catalog ps route es = .error .wrapperLoop := by
  induction es generalizing ps route with
  | nil => simp at h
  | cons e es ih =>
    rw [addEntries]
    by_cases he : ∀ k ∈ e.handlers, k.Told
    · obtain ⟨item, hi⟩ := Route.Entry.exists_operations_of_told s owners catalog route he
      have hes : ∃ d ∈ es, ∃ k ∈ d.handlers, ¬ k.Told := by
        obtain ⟨d, hd, k, hk, hn⟩ := h
        rcases List.mem_cons.1 hd with rfl | hd
        · exact absurd (he k hk) hn
        · exact ⟨d, hd, k, hk, hn⟩
      rw [hi]
      exact ih hes _ _
    · have hk : ∃ k ∈ e.handlers, ¬ k.Told := by simpa using he
      rw [Route.Entry.operations_of_not_told s owners catalog route hk]
      rfl

theorem Document.exists_ofEntries_of_told (h : ∀ e ∈ es, ∀ k ∈ e.handlers, k.Told) :
    ∃ d, ofEntries s owners catalog es = .ok d := by
  obtain ⟨ps, hp⟩ := Paths.exists_addEntries_of_told s owners catalog h [] 0
  rw [ofEntries, hp]
  exact ⟨_, rfl⟩

theorem Document.ofEntries_of_not_told (h : ∃ e ∈ es, ∃ k ∈ e.handlers, ¬ k.Told) :
    ofEntries s owners catalog es = .error .wrapperLoop := by
  rw [ofEntries, Paths.addEntries_of_not_told s owners catalog h]
  rfl

end

namespace Builder

variable {b : Builder} {t : Route.Table} {es : List Route.Entry}

theorem exists_outcome_read (c : Option Catalog) (s : Session) : ∃ entities s',
    (Catalog.read c : Action BuildError _).outcome s = (.ok entities, s') := by
  obtain ⟨entities, hc⟩ :=
    Catalog.exists_settles_read (ε := BuildError) c (Catalog.contents s.files c)
  obtain ⟨added, ha⟩ := hc s rfl
  exact ⟨entities, _, ha⟩

theorem exists_build_of_told (he : t.entries = .ok es) (h : ∀ e ∈ es, ∀ k ∈ e.handlers, k.Told)
    (s : Session) : ∃ d b' s', (b.build t).outcome s = (.ok (d, b'), s') := by
  obtain ⟨entities, s₁, hc⟩ := exists_outcome_read b.catalog s
  obtain ⟨d, hd⟩ := Document.exists_ofEntries_of_told b.settings b.owners entities h
  have ha : ∃ s₂, (b.assemble t).outcome s = (.ok d, s₂) := by
    simp only [assemble, Action.outcome_bind, hc, he, Except.mapError, Action.outcome_ofExcept, hd]
    exact ⟨_, rfl⟩
  obtain ⟨s₂, ha⟩ := ha
  obtain ⟨written, s₃, hp⟩ := exists_outcome_persist (ε := BuildError) b.store d s₂
  refine ⟨d, { b with written := written }, s₃, ?_⟩
  simp only [build, Action.outcome_bind, ha, hp, Action.outcome_pure]

theorem exists_build_of_not_told (he : t.entries = .ok es)
    (h : ∃ e ∈ es, ∃ k ∈ e.handlers, ¬ k.Told) (s : Session) :
    ∃ s', (b.build t).outcome s = (.error (.handler .wrapperLoop), s') := by
  obtain ⟨entities, s₁, hc⟩ := exists_outcome_read b.catalog s
  have hd := Document.ofEntries_of_not_told b.settings b.owners entities h
  simp only [build, assemble, Action.outcome_bind, hc, he, Except.mapError,
    Action.outcome_ofExcept, hd]
  exact ⟨_, rfl⟩

/-- A handler and its chain are analysed whatever the grammar and their texts are, unless one of
them declares no source and its wrappers run in a loop; without a source there are no fields. Of the
handlers of a table, only such a one makes a build fail. -/
theorem build_analyzes (g : Grammar) (h : Handler) (chain : List Handler) (b : Builder)
    (t : Route.Table) (es : List Route.Entry) (s : Session) :
    ((∀ k ∈ h :: chain, k.Told) → ∃ a, h.analyze g chain = .ok a ∧
      (h.base.ownSource = none → a.request = [] ∧ a.response = [])) ∧
    ((∃ k ∈ h :: chain, ¬ k.Told) → h.analyze g chain = .error .wrapperLoop) ∧
    (t.entries = .ok es →
      ((∀ e ∈ es, ∀ k ∈ e.handlers, k.Told) →
        ∃ d b' s', (b.build t).outcome s = (.ok (d, b'), s')) ∧
      ((∃ e ∈ es, ∃ k ∈ e.handlers, ¬ k.Told) →
        ∃ s', (b.build t).outcome s = (.error (.handler .wrapperLoop), s'))) := by
  refine ⟨fun hc => ⟨_, Handler.analyze_of_told hc, ?_⟩, Handler.analyze_of_not_told, ?_⟩
  · intro hn
    have hs : h.sourceText = [] := by simp [Handler.sourceText, hn]
    simp only [Handler.analysisOf, hs]
    exact ⟨Source.requestFields_nil, Source.responseFields_nil⟩
  · intro he
    exact ⟨fun h => exists_build_of_told he h s, fun h => exists_build_of_not_told he h s⟩

/-- A wrapper that wraps itself and declares a source or none, behind an application. -/
def knotted (source : Option Text) : Handler := .applied (.wrapsItself (some "knot") source)

def knottedRoute (source : Option Text) : Route.Table :=
  [.route (some "/knot") ["get"] [.absent, knotted source]]

theorem build_analyzes_knotted :
    (∃ d b' s', (({} : Builder).build (knottedRoute (some "res.json({})"))).outcome
      ⟨⟨.dir [], [], [], []⟩, []⟩ = (.ok (d, b'), s')) ∧
    (∃ a, (knotted (some "")).analyze {} [knotted (some "")] = .ok a) ∧
    (knotted none).analyze {} [] = .error .wrapperLoop := by
  obtain ⟨ha, -, hb⟩ := build_analyzes {} (knotted (some "")) [knotted (some "")] {}
    (knottedRoute (some "res.json({})")) _ ⟨⟨.dir [], [], [], []⟩, []⟩
  obtain ⟨-, hn, -⟩ := build_analyzes {} (knotted none) [] {} [] [] ⟨⟨.dir [], [], [], []⟩, []⟩
  obtain ⟨a, h, -⟩ := ha (by decide +kernel)
  exact ⟨(hb rfl).1 (by decide +kernel), ⟨a, h⟩, hn (by decide +kernel)⟩

/-- A wrapper that wraps itself without a source can neither be analysed nor be in a document. -/
theorem knotted_fails : (∀ a, (knotted none).analyze {} [knotted none] ≠ .ok a) ∧
    ∃ s', (({} : Builder).build (knottedRoute none)).outcome ⟨⟨.dir [], [], [], []⟩, []⟩ =
      (.error (.handler .wrapperLoop), s') := by
  refine ⟨?_, _, rfl⟩
  rintro a ⟨⟩

end Builder

end RouteAtlas
