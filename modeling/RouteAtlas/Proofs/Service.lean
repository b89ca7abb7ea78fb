import Mathlib
import RouteAtlas.Proofs.Json.Whole
import RouteAtlas.Proofs.Session
import RouteAtlas.Service

/-!
# Runs of the service

Whatever happens to its files between requests, the service holds the document of the latest build
that succeeded.
-/

namespace RouteAtlas

def Request.resource? (r : Request) : Option Resource :=
  (Resource.at? r.path).filter fun resource => resource.method = r.method.upper

example : Request.resource? ⟨"GET", "/openapi.json"⟩ = some .document := by decide +kernel

example : Request.resource? ⟨"POST", "/rebuild"⟩ = some .rebuild := by decide +kernel

namespace Response

theorem ofJson_of_whole {v : Json} (h : v.isWhole) (status : Nat) :
    ofJson status v = ⟨status, v.toText .compact⟩ := by
  obtain ⟨bs, he⟩ := (Json.exists_encode_compact_iff v).2 h
  simp only [ofJson, he]

theorem ofJson_of_not_whole {v : Json} (h : ¬ v.isWhole) (status : Nat) :
    ofJson status v = ⟨500, "Internal Server Error"⟩ := by
  unfold ofJson
  cases he : Utf8.encode (v.toText .compact) with
  | ok bs => exact absurd ((Json.exists_encode_compact_iff v).1 ⟨bs, he⟩) h
  | error e => simp only [he]

theorem isWhole_detail (t : Text) : (Json.obj [("detail", .str t)]).isWhole = t.isWhole := by
  simp [Json.isWhole, Json.fieldsAreWhole, Json.isWhole_ofString]

theorem ofError_of_told {e : ProjectError} (hd : e.isDocumented) (hw : e.message.isWhole) :
    ofError e = ⟨400, (Json.obj [("detail", .str e.message)]).toText .compact⟩ := by
  rw [ofError, if_pos hd, detail, ofJson_of_whole (by rwa [isWhole_detail])]

/-- An error that is not documented is not told, nor one whose message cannot be encoded. -/
theorem ofError_of_not_told {e : ProjectError} (h : ¬ (e.isDocumented ∧ e.message.isWhole)) :
    ofError e = ⟨500, "Internal Server Error"⟩ := by
  unfold ofError
  split
  · rename_i hd
    rw [detail, ofJson_of_not_whole]
    rw [isWhole_detail]
    exact fun hw => h ⟨hd, hw⟩
  · rfl

end Response

namespace Service

section Answer

variable {s : Service} {r : Request} {resource : Resource} {x x' : Session} {ε : Type}

/-- The answer to a request that asks for nothing is always the same. -/
theorem exists_outcome_answer (h : r.resource? = none) :
    ∃ response, ∀ (s : Service) (x : Session),
      (s.answer r : Action ε _).outcome x = (.ok (response, s), x) := by
  unfold answer
  unfold Request.resource? at h
  cases ha : Resource.at? r.path with
  | none => exact ⟨_, fun _ _ => rfl⟩
  | some resource =>
    have hm : ¬ resource.method = r.method.upper := by simpa [ha] using h
    simp only [if_neg hm, pure_bind]
    exact ⟨_, fun _ _ => rfl⟩

theorem answer_eq_serve (h : r.resource? = some resource) :
    (s.answer r : Action ε _).outcome x = (s.serve resource).outcome x := by
  obtain ⟨ha, hm⟩ := Option.filter_eq_some_iff.1 h
  have hm : resource.method = r.method.upper := by simpa using hm
  have hh : r.method.upper ≠ "HEAD" := by
    rw [← hm]
    cases resource <;> decide
  simp only [answer, ha, if_pos hm, if_neg hh, Action.outcome_bind]
  rcases (s.serve resource : Action ε _).outcome x with ⟨_ | ⟨response, s'⟩, x'⟩ <;> rfl

theorem outcome_rebuild (s : Service) (x : Session) :
    (s.rebuild : Action ε _).outcome x = match s.project.build.outcome x with
      | (.ok d, x') => (.ok (.ok d, { s with document := some d }), x')
      | (.error e, x') => (.ok (.error e, s), x') := by
  simp only [rebuild, Action.outcome_bind, Action.outcome_attempt]
  rcases s.project.build.outcome x with ⟨_ | d, x'⟩ <;> rfl

theorem outcome_rebuild_respond (form : Document → Json) (s : Service) (x : Session) :
    ((do let (d, s) ← s.rebuild; return (respond form d, s)) : Action ε _).outcome x =
      match s.project.build.outcome x with
      | (.ok d, x') => (.ok (.ofJson 200 (form d), { s with document := some d }), x')
      | (.error e, x') => (.ok (.ofError e, s), x') := by
  rw [Action.outcome_bind, outcome_rebuild]
  rcases s.project.build.outcome x with ⟨_ | d, x'⟩ <;> rfl

end Answer

inductive Step where
  | request (r : Request)
  | change (f : Files.System → Files.System)

def Step.resource? : Step → Option Resource
  | .request r => r.resource?
  | .change _ => none

@[simp] theorem Step.resource?_request (r : Request) : (request r).resource? = r.resource? := rfl

def builds (s : Service) (step : Step) : Bool :=
  match step.resource? with
  | some .rebuild => true
  | some .document => s.document.isNone
  | _ => false

/-- What the service and the session are before a step and after it, what is built and answered. -/
structure Event where
  step : Step
  before : Service
  found : Session
  built : Option (Except ProjectError Document)
  response : Option Response
  after : Service
  left : Session

def event (s : Service) (x : Session) (step : Step) : Event :=
  let built := if s.builds step then some (s.project.build.outcome x).1 else none
  match step with
  | .request r =>
    match (s.answer r : Action Empty _).outcome x with
    | (.ok (response, s'), x') => ⟨step, s, x, built, some response, s', x'⟩
    | (.error e, _) => e.elim
  | .change f => ⟨step, s, x, built, none, s, { x with files := f x.files }⟩

def run (s : Service) (x : Session) : List Step → List Event
  | [] => []
  | step :: steps =>
    let e := s.event x step
    e :: run e.after e.left steps

namespace Event

/-- The document of an event at which a build succeeds. -/
def document? (e : Event) : Option Document := e.built.bind Except.toOption

/-- An event at which nothing is built: a request leaves the session as it is, and all would be the
same with a project that builds otherwise. -/
structure Idle (e : Event) : Prop where
  built : e.built = none
  after : e.after = e.before
  left : ∀ r, e.step = .request r → e.left = e.found
  free : ∀ project, event { e.before with project := project } e.found e.step =
    { e with
      before := { e.before with project := project }
      after := { e.after with project := project } }

/-- An event at which a build is run, which is answered with a form of its document or its error. -/
structure Answers (e : Event) (form : Document → Json) (x : Except ProjectError Document) :
    Prop where
  built : e.built = some x
  run : e.before.project.build.outcome e.found = (x, e.left)
  ok : ∀ d, x = .ok d → e.after = { e.before with document := some d } ∧
    ((form d).isWhole → e.response = some ⟨200, (form d).toText .compact⟩)
  error : ∀ error, x = .error error → e.after = e.before
  told : ∀ error, x = .error error → error.isDocumented → error.message.isWhole →
    e.response = some ⟨400, (Json.obj [("detail", .str error.message)]).toText .compact⟩
  notTold : ∀ error, x = .error error → ¬ (error.isDocumented ∧ error.message.isWhole) →
    e.response = some ⟨500, "Internal Server Error"⟩

def Counts (e : Event) (d : Document) : Prop :=
  ∃ paths tags, d.toJson.field? "paths" = some (.obj paths) ∧
    d.toJson.field? "tags" = some (.list tags) ∧
    e.response = some ⟨200, (Json.obj [("status", .str "ok"), ("paths", .int paths.length),
      ("tags", .int tags.length)]).toText .compact⟩

/-- When a service builds, and how it answers. -/
structure Sound (e : Event) : Prop where
  serves : e.step.resource? = some .document → ∀ d, e.before.document = some d →
    e.Idle ∧ (d.toJson.isWhole → e.response = some ⟨200, d.toJson.toText .compact⟩)
  fetches : e.step.resource? = some .document → e.before.document = none →
    ∃ x, e.Answers Document.toJson x
  rebuilds : e.step.resource? = some .rebuild →
    ∃ x, e.Answers summary x ∧ ∀ d, x = .ok d → e.Counts d
  rests : e.step.resource? ≠ some .document → e.step.resource? ≠ some .rebuild → e.Idle

end Event

/-- The document of the latest build that succeeded. -/
def latest (es : List Event) : Option Document := (es.filterMap Event.document?).getLast?

section Events

variable {s s' : Service} {r : Request} {x x' : Session} {response : Response}

theorem event_request
    (h : (s.answer r : Action Empty _).outcome x = (.ok (response, s'), x')) :
    s.event x (.request r) = ⟨.request r, s, x,
      if s.builds (.request r) then some (s.project.build.outcome x).1 else none,
      some response, s', x'⟩ := by
  simp only [event, h]

theorem idle_request (hb : s.builds (.request r) = false)
    (h : ∀ project, (answer { s with project := project } r : Action Empty _).outcome x =
      (.ok (response, { s with project := project }), x)) :
    (s.event x (.request r)).Idle ∧ (s.event x (.request r)).response = some response := by
  rw [event_request (h s.project), hb]
  refine ⟨⟨rfl, rfl, fun _ _ => rfl, fun project => ?_⟩, rfl⟩
  have hp : builds { s with project := project } (.request r) = false := hb
  rw [event_request (h project), hp]
  rfl

theorem answers_request {form : Document → Json} (hb : s.builds (.request r) = true)
    (h : (s.answer r : Action Empty _).outcome x = match s.project.build.outcome x with
      | (.ok d, x') => (.ok (.ofJson 200 (form d), { s with document := some d }), x')
      | (.error e, x') => (.ok (.ofError e, s), x')) :
    (s.event x (.request r)).Answers form (s.project.build.outcome x).1 := by
  rcases hx : s.project.build.outcome x with ⟨e | d, x'⟩ <;> rw [hx] at h <;>
    rw [event_request h, hb, hx]
  · exact {
      built := rfl
      run := hx
      ok := fun _ h => by cases h
      error := fun _ _ => rfl
      told := fun _ he hd hw => by
        cases he
        exact congrArg some (Response.ofError_of_told hd hw)
      notTold := fun _ he hn => by
        cases he
        exact congrArg some (Response.ofError_of_not_told hn) }
  · refine {
      built := rfl
      run := hx
      ok := ?_
      error := fun _ h => by cases h
      told := fun _ h => by cases h
      notTold := fun _ h => by cases h }
    rintro _ ⟨⟩
    exact ⟨rfl, fun hw => congrArg some (Response.ofJson_of_whole hw 200)⟩

theorem Event.Answers.counts {e : Event} {d : Document} (h : e.Answers summary (.ok d)) :
    e.Counts d := by
  refine ⟨_, _, rfl, rfl, ?_⟩
  rw [(h.ok d rfl).2 rfl]
  simp only [summary, List.length_map]

theorem idle_change (s : Service) (x : Session) (f : Files.System → Files.System) :
    (s.event x (.change f)).Idle where
  built := rfl
  after := rfl
  left := fun _ h => by cases h
  free := fun _ => rfl

/-- An event records the step and what was there before it. -/
theorem origin_event (s : Service) (x : Session) (step : Step) :
    (s.event x step).step = step ∧ (s.event x step).before = s ∧ (s.event x step).found = x := by
  cases step with
  | change f => exact ⟨rfl, rfl, rfl⟩
  | request r =>
    rcases h : (s.answer r : Action Empty _).outcome x with ⟨e | ⟨response, s'⟩, x'⟩
    · exact e.elim
    · rw [event_request h]
      exact ⟨rfl, rfl, rfl⟩

@[simp] theorem step_event (s : Service) (x : Session) (step : Step) :
    (s.event x step).step = step := (origin_event s x step).1

@[simp] theorem before_event (s : Service) (x : Session) (step : Step) :
    (s.event x step).before = s := (origin_event s x step).2.1

@[simp] theorem found_event (s : Service) (x : Session) (step : Step) :
    (s.event x step).found = x := (origin_event s x step).2.2

theorem answers_document (hr : r.resource? = some .document) (hd : s.document = none) :
    (s.event x (.request r)).Answers Document.toJson (s.project.build.outcome x).1 := by
  refine answers_request (by simp [builds, hr, hd]) ?_
  rw [answer_eq_serve hr, ← outcome_rebuild_respond]
  simp only [serve, current, hd]

theorem idle_document {d : Document} (hr : r.resource? = some .document)
    (hd : s.document = some d) : (s.event x (.request r)).Idle ∧
      (s.event x (.request r)).response = some (.ofJson 200 d.toJson) := by
  refine idle_request (by simp [builds, hr, hd]) fun project => ?_
  rw [answer_eq_serve hr]
  simp only [serve, current, hd]
  rfl

theorem answers_rebuild (hr : r.resource? = some .rebuild) :
    (s.event x (.request r)).Answers summary (s.project.build.outcome x).1 := by
  refine answers_request (by simp [builds, hr]) ?_
  rw [answer_eq_serve hr, ← outcome_rebuild_respond]
  rfl

theorem exists_answers (h : s.builds (.request r)) (x : Session) :
    ∃ form, (s.event x (.request r)).Answers form (s.project.build.outcome x).1 := by
  unfold builds at h
  cases hr : r.resource? with
  | none => simp [hr] at h
  | some resource =>
    cases resource with
    | health => simp [hr] at h
    | document =>
      have hd : s.document = none := by simpa [hr] using h
      exact ⟨_, answers_document hr hd⟩
    | rebuild => exact ⟨_, answers_rebuild hr⟩

theorem idle_rest (hd : r.resource? ≠ some .document) (hr : r.resource? ≠ some .rebuild) :
    (s.event x (.request r)).Idle := by
  cases h : r.resource? with
  | none =>
    obtain ⟨response, ho⟩ := exists_outcome_answer h
    exact (idle_request (by simp [builds, h]) fun _ => ho _ x).1
  | some resource =>
    cases resource with
    | health =>
      exact (idle_request (by simp [builds, h]) fun _ => answer_eq_serve h).1
    | document => exact absurd h hd
    | rebuild => exact absurd h hr

theorem sound_event (s : Service) (x : Session) (step : Step) : (s.event x step).Sound := by
  cases step with
  | change f =>
    exact {
      serves := fun h => by cases h
      fetches := fun h => by cases h
      rebuilds := fun h => by cases h
      rests := fun _ _ => idle_change s x f }
  | request r =>
    refine {
      serves := fun hr d hd => ?_
      fetches := fun hr hd => ⟨_, answers_document (by simpa using hr) (by simpa using hd)⟩
      rebuilds := fun hr => ?_
      rests := fun hd hr => idle_rest (by simpa using hd) (by simpa using hr) }
    · obtain ⟨hi, ho⟩ := idle_document (by simpa using hr) (by simpa using hd)
      exact ⟨hi, fun hw => ho.trans (congrArg some (Response.ofJson_of_whole hw 200))⟩
    · have h : (s.event x (.request r)).Answers summary _ := answers_rebuild (by simpa using hr)
      exact ⟨_, h, fun d hx => (hx ▸ h).counts⟩

theorem Event.Idle.document? {e : Event} (h : e.Idle) : e.document? = none := by
  rw [Event.document?, h.built]
  rfl

theorem Event.Answers.after {e : Event} {form : Document → Json}
    {y : Except ProjectError Document} (h : e.Answers form y) :
    e.after = { e.before with document := e.document?.or e.before.document } := by
  rw [Event.document?, h.built]
  cases y with
  | error error => exact h.error error rfl
  | ok d => exact (h.ok d rfl).1

/-- A document that is built takes the place of the one held. -/
theorem Event.Sound.after {e : Event} (h : e.Sound) :
    e.after = { e.before with document := e.document?.or e.before.document } := by
  have hidle (hi : e.Idle) :
      e.after = { e.before with document := e.document?.or e.before.document } := by
    rw [hi.document?, hi.after, Option.none_or]
  by_cases hd : e.step.resource? = some .document
  · cases hb : e.before.document with
    | none =>
      obtain ⟨y, ha⟩ := h.fetches hd hb
      exact hb ▸ ha.after
    | some d => exact hb ▸ hidle (h.serves hd d hb).1
  · by_cases hr : e.step.resource? = some .rebuild
    · obtain ⟨y, ha, -⟩ := h.rebuilds hr
      exact ha.after
    · exact hidle (h.rests hd hr)

theorem latest_append (es es' : List Event) :
    latest (es ++ es') = (latest es').or (latest es) := by
  rw [latest, List.filterMap_append, List.getLast?_append]
  rfl

theorem latest_singleton (e : Event) : latest [e] = e.document? := by
  unfold latest
  rw [List.filterMap_cons]
  cases e.document? <;> rfl

/-- At every step of a run a service with a document holds the latest one, or that one. -/
theorem sound_run (s : Service) (x : Session) (steps : List Step) (earlier : List Event) (e : Event)
    (later : List Event) (h : run s x steps = earlier ++ e :: later) :
    e.before = { s with document := (latest earlier).or s.document } ∧ e.Sound := by
  induction steps generalizing s x earlier with
  | nil => simp [run] at h
  | cons step steps ih =>
    simp only [run] at h
    cases earlier with
    | nil =>
      obtain ⟨rfl, -⟩ := List.cons.inj h
      exact ⟨before_event s x step, sound_event s x step⟩
    | cons first earlier =>
      rw [List.cons_append] at h
      obtain ⟨rfl, hrest⟩ := List.cons.inj h
      have hf := (sound_event s x step).after
      rw [before_event] at hf
      obtain ⟨hb, hs⟩ := ih _ _ _ hrest
      rw [hf] at hb
      rw [← List.singleton_append, latest_append, latest_singleton, Option.or_assoc]
      exact ⟨hb, hs⟩

/-- At every step of a run a service that starts without a document holds that of the latest build
that succeeded. -/
theorem run_holds_latest (p : Project) (x : Session) (steps : List Step) (earlier : List Event)
    (e : Event) (later : List Event) (h : run ⟨p, none⟩ x steps = earlier ++ e :: later) :
    e.before = ⟨p, latest earlier⟩ ∧ e.after = ⟨p, latest (earlier ++ [e])⟩ ∧ e.Sound := by
  obtain ⟨hb, hs⟩ := sound_run _ x steps earlier e later h
  have hb : e.before = ⟨p, latest earlier⟩ := by simpa using hb
  refine ⟨hb, ?_, hs⟩
  rw [hs.after, hb, latest_append, latest_singleton]

def oneRoute : Project := ⟨pure {}, pure [.route (some "/a") ["get"] []]⟩

theorem run_holds_latest_oneRoute : ∃ e₁ e₂,
    run ⟨oneRoute, none⟩ ⟨⟨.dir [], [], [], []⟩, []⟩
      [.request ⟨"POST", "/rebuild"⟩, .request ⟨"GET", "/openapi.json"⟩] = [e₁, e₂] ∧
    (latest [e₁]).isSome ∧ e₂.before = ⟨oneRoute, latest [e₁]⟩ ∧ e₂.Sound := by
  obtain ⟨e₁, e₂, h, hl⟩ : ∃ e₁ e₂, run ⟨oneRoute, none⟩ ⟨⟨.dir [], [], [], []⟩, []⟩
      [.request ⟨"POST", "/rebuild"⟩, .request ⟨"GET", "/openapi.json"⟩] = [e₁, e₂] ∧
      (latest [e₁]).isSome := ⟨_, _, rfl, by decide +kernel⟩
  obtain ⟨hb, -, hs⟩ := run_holds_latest oneRoute _ _ [e₁] e₂ [] h
  exact ⟨e₁, e₂, h, hl, hb, hs⟩

end Events

/-- A project whose settings have the name of a file with a byte that is no UTF-8. -/
def strangeName : Text := [.lone 0x480, .char '.', .char 'y', .char 'm', .char 'l']

def strangeFiles : Files.System :=
  ⟨.dir [(".routedoc.yml", .link strangeName), (strangeName, .file (Utf8.encodeChars "@".toList))],
    [], [], []⟩

theorem load_strangeFiles :
    Settings.load strangeFiles [] ⟨.slash, []⟩ = .error (.malformed strangeName) := by
  have hl : Settings.locate strangeFiles ⟨.slash, []⟩ = .ok ⟨.slash, [strangeName]⟩ := by cbv
  have hp : Settings.realPath strangeFiles (Files.Path.parent ⟨.slash, [strangeName]⟩) =
      .ok ⟨.slash, []⟩ := by cbv
  have hh : strangeFiles.holds ⟨.slash, [strangeName]⟩ = .ok true := by cbv
  have ht : strangeFiles.readText ⟨.slash, [strangeName]⟩ = .ok "@" := by cbv
  have he : Settings.entriesOf strangeFiles ⟨.slash, [strangeName]⟩ =
      .error (.malformed strangeName) := by
    simp only [Settings.entriesOf, ht]
    rfl
  simp only [Settings.load, hl, hp, hh, he, bind, Except.bind, Except.mapError, if_true]

/-- A documented error is not told whose message cannot be encoded. -/
theorem rebuild_strangeName : ∃ e left,
    (Project.ofRoot [] ⟨.slash, []⟩).build.outcome ⟨strangeFiles, []⟩ = (.error e, left) ∧
    e.isDocumented ∧
    (event ⟨Project.ofRoot [] ⟨.slash, []⟩, none⟩ ⟨strangeFiles, []⟩
      (.request ⟨"POST", "/rebuild"⟩)).response = some ⟨500, "Internal Server Error"⟩ := by
  have hb : (Project.ofRoot [] ⟨.slash, []⟩).build.outcome ⟨strangeFiles, []⟩ =
      (.error (.settings (.malformed strangeName)), ⟨strangeFiles, []⟩) := by
    simp only [Project.build, Project.ofRoot, Action.outcome_bind, Action.outcome_files,
      load_strangeFiles, Except.mapError, Action.outcome_ofExcept]
  refine ⟨_, _, hb, rfl, ?_⟩
  have h := answers_rebuild (s := ⟨Project.ofRoot [] ⟨.slash, []⟩, none⟩)
    (x := ⟨strangeFiles, []⟩) (r := ⟨"POST", "/rebuild"⟩) (by decide +kernel)
  rw [hb] at h
  exact h.notTold _ rfl (by decide +kernel)

end Service

end RouteAtlas
