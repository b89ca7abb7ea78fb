import RouteAtlas.Proofs.CommandLine.Log
import RouteAtlas.Proofs.Project
import RouteAtlas.Proofs.Store.RoundTrip

/-!
# What a build tells

A run of the build command ends well only if the document that it has assembled is in its file. Any
failure that is documented ends it with an exit code, and nothing is printed.
-/

namespace RouteAtlas.CommandLine

open Files

namespace Invocation

variable {i : Invocation} {env : Environment} {stamp : Text} {fs : System} {e : ProjectError}
  {given : Option (Given Text)}

def sink (i : Invocation) (file : Option Files.Path) (stamp : Text) : Sink := ⟨file, i.least, stamp⟩

/-- How a run comes to a document: its log file is opened, the settings and the manifest are read,
and the document is assembled. -/
structure Assembly (i : Invocation) (env : Environment) (stamp : Text) (fs : System) where
  file : Option Files.Path
  opened : Session
  opens : i.openLog.outcome ⟨fs, []⟩ = (.ok file, opened)
  settings : Settings
  reads : i.settings env opened.files = .ok settings
  table : Route.Table
  loaded : Session
  loads : ((i.sink file stamp).recorded (Action.mapError .project settings.table)).outcome opened =
    ((.ok table : Except Failure _), loaded)
  builder : Builder
  equipped : Session
  equips : ((i.sink file stamp).recorded (Action.mapError .project settings.builder)).outcome
    loaded = ((.ok builder : Except Failure _), equipped)
  document : Document
  left : Session
  assembles : ((i.sink file stamp).recorded
    (Action.mapError (fun e => .project (.build e)) (builder.assemble table))).outcome equipped =
      ((.ok document : Except Failure _), left)

/-- The settings or the manifest cannot be read. -/
def FailsToLoad (i : Invocation) (env : Environment) (fs : System) (e : ProjectError) : Prop :=
  ∃ file opened, i.openLog.outcome ⟨fs, []⟩ = (.ok file, opened) ∧
    ((∃ x, i.settings env opened.files = .error x ∧ e = .settings x) ∨
      ∃ s, i.settings env opened.files = .ok s ∧ (s.table.outcome opened).1 = .error e)

namespace Assembly

variable (a : i.Assembly env stamp fs)

def store : Store := ⟨a.settings.output⟩

theorem store_builder : a.builder.store = some a.store := by
  have h := a.equips
  rw [Sink.outcome_recorded, Action.outcome_mapError] at h
  have hb := mapError_eq_ok.1 (Prod.mk.inj h).1
  exact Settings.store_builder (Prod.ext hb rfl)

/-- Until the document is written, no file but the log file changes. -/
theorem exists_logs : ∃ u, (i.sink a.file stamp).Logs u fs a.left.files := by
  obtain ⟨-, u, hu⟩ := exists_logs_of_openLog a.opens
  have h₀ : (i.sink a.file stamp).Logs u fs a.opened.files := hu _ _
  have h₁ := h₀.stands.recorded (a.settings.quiet_table.mapError _) a.loads
  have h₂ := h₁.stands.recorded (a.settings.quiet_builder.mapError _) a.equips
  have h₃ := h₂.stands.recorded ((a.builder.quiet_assemble a.table).mapError _) a.assembles
  exact ⟨u, ((h₀.trans h₁).trans h₂).trans h₃⟩

/-- The run ends with its document stored or not. -/
theorem outcome_perform (hc : i.command = .build given) {written : Option Files.Path} {s : Session}
    (h : (Builder.persist (some a.store) a.document : Action Failure _).outcome a.left =
      (.ok written, s)) :
    (i.perform env stamp).outcome ⟨fs, []⟩ =
      (written.elim (.error .notWritten) fun place =>
        .ok (.written a.document.paths.length place),
      (i.sink a.file stamp).flushed a.left.log.length s) := by
  have hp : ((i.sink a.file stamp).recorded (Builder.persist a.builder.store a.document) :
      Action Failure _).outcome a.left =
        (.ok written, (i.sink a.file stamp).flushed a.left.log.length s) := by
    rw [a.store_builder, Sink.outcome_recorded, h]
  have hl := a.loads
  have he := a.equips
  have ha := a.assembles
  unfold sink at hl he ha hp
  simp only [perform, build, Action.outcome_bind, Action.outcome_files, Action.outcome_ofExcept,
    a.opens, a.reads, hc, hl, he, ha, hp, Except.mapError]
  cases written <;> rfl

theorem stored (hc : i.command = .build given) {x : Result} {s : Session}
    (h : (i.perform env stamp).outcome ⟨fs, []⟩ = (.ok x, s)) :
    x = .written a.document.paths.length a.settings.output ∧
    ∃ u t, (i.sink a.file stamp).Logs u fs a.left.files ∧
      (i.sink a.file stamp).Logs u t s.files ∧
      ∃ text bytes, a.store.text a.document.toJson = .ok text ∧ Utf8.encode text = .ok bytes ∧
        t.readBytes a.settings.output = .ok bytes := by
  obtain ⟨u, hu⟩ := a.exists_logs
  obtain ⟨written, left, hl⟩ := Builder.exists_outcome_persist (ε := Failure) (some a.store)
    a.document a.left
  rw [a.outcome_perform hc hl] at h
  rcases Builder.stored_or_reported hl with ⟨rfl, text, bytes, ht, he, -, hr⟩ | ⟨rfl, -⟩
  · cases h
    obtain ⟨q, hs⟩ := Builder.exists_spares_persist (ε := Failure) a.store a.document a.left
    rw [hl] at hs
    have hk := hu.stands.of_retains hs.retains hs.working
    exact ⟨rfl, u, left.files, hu, hk.flushed _, text, bytes, ht, he, hr⟩
  · cases h

end Assembly

/-- A run of the build command that ends well has come to a document. -/
theorem exists_assembly (hc : i.command = .build given) {x : Result} {s : Session}
    (h : (i.perform env stamp).outcome ⟨fs, []⟩ = (.ok x, s)) :
    Nonempty (i.Assembly env stamp fs) := by
  unfold perform at h
  obtain ⟨file, opened, ho, h⟩ := Action.outcome_bind_eq_ok.1 h
  obtain ⟨_, _, hf, h⟩ := Action.outcome_bind_eq_ok.1 h
  cases hf
  obtain ⟨settings, _, hs, h⟩ := Action.outcome_bind_eq_ok.1 h
  obtain ⟨hs', rfl⟩ := Prod.mk.inj hs
  obtain ⟨table, loaded, hl, h⟩ := Action.outcome_bind_eq_ok.1 h
  rw [hc] at h
  obtain ⟨builder, equipped, he, h⟩ := Action.outcome_bind_eq_ok.1 h
  obtain ⟨document, left, ha, -⟩ := Action.outcome_bind_eq_ok.1 h
  exact ⟨{
    file := file, opened := opened, opens := ho
    settings := settings, reads := mapError_eq_ok.1 hs'
    table := table, loaded := loaded, loads := hl
    builder := builder, equipped := equipped, equips := he
    document := document, left := left, assembles := ha }⟩

theorem outcome_perform_of_failsToLoad (stamp : Text) (h : i.FailsToLoad env fs e) :
    ∃ (k : Sink) (u : Option Place) (s : Session), k.file = i.logPath? fs ∧ k.Logs u fs s.files ∧
      (i.perform env stamp).outcome ⟨fs, []⟩ = (.error (.project e), s) := by
  obtain ⟨file, opened, ho, h⟩ := h
  obtain ⟨hfile, u, hu⟩ := exists_logs_of_openLog ho
  have h₀ : (i.sink file stamp).Logs u fs opened.files := hu _ _
  rcases h with ⟨x, hx, rfl⟩ | ⟨s, hs, ht⟩
  · refine ⟨i.sink file stamp, u, opened, hfile, h₀, ?_⟩
    simp only [perform, Action.outcome_bind, Action.outcome_files, Action.outcome_ofExcept, ho, hx,
      Except.mapError, Function.comp]
  · rcases hr : ((i.sink file stamp).recorded
      (Action.mapError Failure.project s.table)).outcome opened with ⟨y, loaded⟩
    have h₁ := h₀.stands.recorded (s.quiet_table.mapError _) hr
    refine ⟨i.sink file stamp, u, loaded, hfile, h₀.trans h₁, ?_⟩
    have hy : y = .error (.project e) := by
      rw [Sink.outcome_recorded, Action.outcome_mapError, ht] at hr
      exact (Prod.mk.inj hr).1.symm
    unfold sink at hr
    simp only [perform, Action.outcome_bind, Action.outcome_files, Action.outcome_ofExcept, ho, hs,
      hr, hy, Except.mapError]

end Invocation

section

variable {env : Environment} {stamp : Text} {args : List Text} {fs : System} {i : Invocation}
  {s : Session}

theorem run_of_ok {x : Result} (hp : parse args = .ok i)
    (h : (i.perform env stamp).outcome ⟨fs, []⟩ = (.ok x, s)) :
    run env stamp args fs =
      ⟨.ok x, x.output fs, Sink.console ⟨none, i.least, stamp⟩ s.log, s.files⟩ := by
  simp only [run, hp, h]

theorem run_of_error {e : Failure} (hp : parse args = .ok i)
    (h : (i.perform env stamp).outcome ⟨fs, []⟩ = (.error e, s)) :
    run env stamp args fs = ⟨.error e, [],
      Sink.console ⟨none, i.least, stamp⟩ s.log ++ e.errorOutput i.command, s.files⟩ := by
  simp only [run, hp, h]

/-- A run of the build command tells what it has done. If it ends well, it has assembled a document
of the settings and the manifest that it found, tells the number of its paths, and has left the text
of this document in the output file, unless the log file is there. If the settings or the manifest
cannot be read, it ends with the exit code 1 and a message, prints nothing, and leaves all files but
the log file. If the document cannot be written, it ends with the exit code 1 and prints nothing. -/
theorem run_build (env : Environment) (stamp : Text) (fs : System) {given : Option (Given Text)}
    (hp : parse args = .ok i) (hc : i.command = .build given) :
    let r := run env stamp args fs
    (∀ x, r.outcome = .ok x → ∃ a : i.Assembly env stamp fs,
      (∀ q bs, ¬ i.LogAt fs r.files q →
        (a.left.files.tree.at? q = some (.file bs) ↔ fs.tree.at? q = some (.file bs))) ∧
      r.output = "API document with " ++ Text.ofNat a.document.paths.length ++
        " paths written to " ++ shownPath fs a.settings.output ++ "\n" ∧
      ((∀ q n, r.files.locate .node a.settings.output = .ok (q, n) → ¬ i.LogAt fs r.files q) →
        ∃ text bytes, a.store.text a.document.toJson = .ok text ∧ Utf8.encode text = .ok bytes ∧
          r.files.readBytes a.settings.output = .ok bytes)) ∧
    (∀ e, i.FailsToLoad env fs e → e.isDocumented →
      r.outcome = .error (.project e) ∧ (Failure.project e).exitCode? = some 1 ∧ r.output = [] ∧
      (∃ log, r.errorOutput = log ++ ("routedoc build failed: " ++ e.message ++ "\n")) ∧
      (∀ q bs, ¬ i.LogAt fs r.files q →
        (r.files.tree.at? q = some (.file bs) ↔ fs.tree.at? q = some (.file bs))) ∧
      ∀ p bs, (∀ q n, r.files.locate .node p = .ok (q, n) → ¬ i.LogAt fs r.files q) →
        fs.readBytes p = .ok bs → r.files.readBytes p = .ok bs) ∧
    ∀ (a : i.Assembly env stamp fs) (e : Store.WriteError) (s : Session),
      (a.store.write a.document.toJson).outcome a.left = (.error e, s) →
        r.outcome = .error .notWritten ∧ Failure.notWritten.exitCode? = some 1 ∧ r.output = [] := by
  refine ⟨?_, ?_, ?_⟩
  · intro x hx
    rcases h : (i.perform env stamp).outcome ⟨fs, []⟩ with ⟨e | y, s⟩
    · rw [run_of_error hp h] at hx
      cases hx
    · rw [run_of_ok hp h]
      obtain ⟨a⟩ := Invocation.exists_assembly hc h
      obtain ⟨rfl, u, t, hl, hs, hstored⟩ := a.stored hc h
      have hk := (Invocation.exists_logs_of_openLog a.opens).1
      have hu {q : Place} : ¬ i.LogAt fs s.files q → ¬ some q = u :=
        mt (Invocation.logAt_of_stands hk hs.stands)
      refine ⟨a, fun q bs hq => hl.spares.file_iff (hu hq), rfl, fun hq => ?_⟩
      obtain ⟨text, bytes, ht, he, hr⟩ := hstored
      exact ⟨text, bytes, ht, he, hs.spares.readBytes hr fun q n hl => hu (hq q n hl)⟩
  · intro e hl he
    obtain ⟨k, u, s, hk, hs, h⟩ := Invocation.outcome_perform_of_failsToLoad stamp hl
    rw [run_of_error hp h]
    have hu {q : Place} : ¬ i.LogAt fs s.files q → ¬ some q = u :=
      mt (Invocation.logAt_of_stands hk hs.stands)
    refine ⟨rfl, if_pos he, rfl, ⟨Sink.console ⟨none, i.least, stamp⟩ s.log, ?_⟩, ?_, ?_⟩
    · rw [Failure.errorOutput, if_pos he, hc]
      rfl
    · intro q bs hq
      exact hs.spares.file_iff (hu hq)
    · intro p bs hq hr
      exact hs.spares.readBytes hr fun q n hl => hu (hq q n hl)
  · intro a e s hw
    have h := a.outcome_perform hc (by rw [Builder.outcome_persist_some, hw])
    rw [run_of_error hp h]
    exact ⟨rfl, rfl, rfl⟩

end

/-- A project that is no more than a manifest of one route. -/
def oneRouteProject : System :=
  ⟨.dir [("r.json", .file (Utf8.encodeChars "[\x7b\"path\":\"/a\"\x7d]".toList))], [], "/", []⟩

def oneRouteBuild : Invocation :=
  ⟨false, none, ⟨".", some (.value "r.json"), none, none, none⟩, .build none⟩

def oneRouteAssembly : oneRouteBuild.Assembly [] [] oneRouteProject where
  file := none
  opened := _
  opens := by cbv
  settings := _
  reads := by cbv
  table := [.route (some "/a") ["get"] []]
  loaded := _
  loads := by cbv
  builder := _
  equipped := _
  equips := by cbv
  document := _
  left := _
  assembles := by cbv

theorem exists_outcome_persist_oneRouteAssembly : ∃ s,
    (Builder.persist (some oneRouteAssembly.store) oneRouteAssembly.document :
      Action Failure _).outcome oneRouteAssembly.left =
        (.ok (some oneRouteAssembly.store.path), s) := by
  have hw : oneRouteAssembly.left.files.Writable oneRouteAssembly.store.path :=
    ⟨_, _, by cbv, by cbv⟩
  have hl : Store.hasLongInt oneRouteAssembly.document.toJson = false := by cbv
  have hs : oneRouteAssembly.store.isYaml = false := by cbv
  have hu : (oneRouteAssembly.document.toJson.toText .indented ++ "\n").isWhole := by
    rw [Text.isWhole_append, Json.toText, Json.isWhole_render Json.Layout.isWhole_indented]
    cbv
  obtain ⟨bytes, he⟩ := Utf8.exists_encode_iff.2 hu
  obtain ⟨fs, h, -⟩ := Store.exists_write_eq_ok hw (by rw [Store.text, hl, hs]; rfl) he
  rw [Builder.outcome_persist_some, h]
  exact ⟨_, rfl⟩

theorem run_build_oneRoute :
    let r := run [] [] ["build", "--routes=r.json"] oneRouteProject
    parse ["build", "--routes=r.json"] = .ok oneRouteBuild ∧
    r.output = "API document with 1 paths written to .routedoc/openapi.json\n" ∧
    ∃ (a : oneRouteBuild.Assembly [] [] oneRouteProject) (text : Text) (bytes : Bytes),
      r.output = "API document with " ++ Text.ofNat a.document.paths.length ++
        " paths written to " ++ shownPath oneRouteProject a.settings.output ++ "\n" ∧
      a.store.text a.document.toJson = .ok text ∧ Utf8.encode text = .ok bytes ∧
      r.files.readBytes a.settings.output = .ok bytes := by
  have hp : parse ["build", "--routes=r.json"] = .ok oneRouteBuild := by cbv
  obtain ⟨s, hs⟩ := exists_outcome_persist_oneRouteAssembly
  have hr := run_of_ok hp (oneRouteAssembly.outcome_perform rfl hs)
  have ho : Result.output oneRouteProject
      (.written oneRouteAssembly.document.paths.length oneRouteAssembly.store.path) =
        "API document with 1 paths written to .routedoc/openapi.json\n" := by cbv
  obtain ⟨a, -, ht, ha⟩ :=
    (run_build [] [] oneRouteProject hp rfl).1 _ (congrArg Report.outcome hr)
  have hlog (q : Files.Place) (fs : System) : ¬ oneRouteBuild.LogAt oneRouteProject fs q := by
    rintro ⟨p, n, hl, -⟩
    cases hl
  obtain ⟨text, bytes, hj, he, hb⟩ := ha fun q n _ => hlog q _
  exact ⟨hp, (congrArg Report.output hr).trans ho, a, text, bytes, ht, hj, he, hb⟩

end RouteAtlas.CommandLine
