import RouteAtlas.Proofs.CommandLine.Build
import RouteAtlas.Proofs.Files.Reading
import RouteAtlas.Proofs.Service
import RouteAtlas.Proofs.Yaml.Loading

/-!
# Settings that cannot be loaded

A settings file that is not well formed has a documented error. Any other failure comes from the
path, the bytes, a value that cannot be made, or an entry without a text.
-/

namespace RouteAtlas

namespace Settings

open Files

structure Finds (fs : System) (p file : Files.Path) : Prop where
  located : locate fs p = .ok file
  rooted : ∃ root, realPath fs file.parent = .ok root
  there : fs.holds file = .ok true

structure HasText (fs : System) (file : Files.Path) (t : Text) : Prop where
  reads : fs.readText file = .ok t
  content : t.isBlank = false

/-- A text that does not give a mapping, and the error that tells it. -/
inductive IllFormed (file : Files.Path) (t : Text) : SettingsError → Prop
  | malformed (h : Yaml.load t = .error .malformed) : IllFormed file t (.malformed file.name)
  | notMapping {d : Loaded} (h : Yaml.load t = .ok d) (he : d.entries? = none)
      (hn : d.root ≠ .null) : IllFormed file t .notMapping

def pathKeys : List Text := ["routes", "controllers", "catalog", "output"]

def ownKeys : List Text := "base_url" :: "example_timestamp" :: pathKeys

def innerKeys : List (Text × Text) :=
  [("info", "title"), ("info", "version"), ("info", "description"), ("grammar", "wrapper_field"),
    ("grammar", "carrier"), ("grammar", "success_call"), ("grammar", "raw_call")]

/-- The entry has an integer without a text. -/
structure HasLongInt (es : List (Value × Value)) (key : Text) (n : Int) : Prop where
  entry : Value.entry? es key = some (.int n)
  long : Decimal.tooLong n.natAbs

/-- An entry that settings cannot be made of. -/
inductive EntryDefect (fs : System) (cs : Collections) (es : List (Value × Value)) :
    SettingsError → Prop
  | own {key : Text} {n : Int} (hk : key ∈ ownKeys) (h : HasLongInt es key n) :
      EntryDefect fs cs es (.display .tooManyDigits)
  | inner {part key : Text} {n : Int} (hk : (part, key) ∈ innerKeys)
      (h : HasLongInt (section? cs es part) key n) : EntryDefect fs cs es (.display .tooManyDigits)
  | home {key t : Text} {v : Value} {e : HomeError} (hk : key ∈ pathKeys)
      (hv : Value.entry? es key = some v) (ht : scalarText? v = .ok (some t))
      (h : fs.expandHome (.ofText t) = .error e) : EntryDefect fs cs es (.ofHome e)

/-- A path under which no settings file can be looked for. -/
inductive PathDefect (fs : System) (p : Files.Path) : SettingsError → Prop
  | home {e : HomeError} (h : fs.expandHome p = .error e) : PathDefect fs p (.ofHome e)
  | kind {q : Files.Path} {f : Failure} (hq : fs.expandHome p = .ok q) (h : fs.isDir q = .error f) :
      PathDefect fs p (.access (.failed f))
  | link {q r : Files.Path} {e : RealPathError} (hq : fs.expandHome p = .ok q)
      (hr : r = q ∨ r = q.join ⟨.relative, [fileName]⟩) (h : fs.realPath r = .error e) :
      PathDefect fs p (.ofRealPath e)
  | root {file : Files.Path} {e : RealPathError} (hf : locate fs p = .ok file)
      (h : fs.realPath file.parent = .error e) : PathDefect fs p (.ofRealPath e)
  | place {file : Files.Path} {f : Failure} (hf : locate fs p = .ok file)
      (h : fs.holds file = .error f) : PathDefect fs p (.access (.failed f))

/-- What is the matter with a path or the settings file that it means, beside the file's form. -/
inductive Defect (fs : System) (p : Files.Path) : SettingsError → Prop
  | path {e : SettingsError} (h : PathDefect fs p e) : Defect fs p e
  | access {file : Files.Path} {e : AccessError} (hf : Finds fs p file)
      (h : fs.readBytes file = .error e) : Defect fs p (.access e)
  | encoding {file : Files.Path} {bs : Bytes} {e : Utf8.DecodeError} (hf : Finds fs p file)
      (hb : fs.readBytes file = .ok bs) (h : Utf8.decode bs = .error e) : Defect fs p (.encoding e)
  | text {file : Files.Path} {t : Text} {e : Yaml.LoadError} (hf : Finds fs p file)
      (ht : HasText fs file t) (he : e ≠ .malformed) (h : Yaml.StopsLoad t e) :
      Defect fs p (.load e)
  | entry {file : Files.Path} {t : Text} {d : Loaded} {es : List (Value × Value)}
      {e : SettingsError} (hf : Finds fs p file) (ht : HasText fs file t)
      (hl : Yaml.load t = .ok d) (he : d.entries? = some es)
      (h : EntryDefect fs d.collections es e) : Defect fs p e

variable {fs : System} {env : Environment} {p file root : Files.Path} {t key : Text}
  {e : SettingsError} {cs : Collections} {es : List (Value × Value)} {v : Value}

section Entries

theorem scalarText?_eq_error (h : scalarText? v = .error e) :
    ∃ n, v = .int n ∧ Decimal.tooLong n.natAbs ∧ e = .display .tooManyDigits := by
  unfold scalarText? at h
  cases v with
  | int n =>
    obtain ⟨x, hx, rfl⟩ := mapError_eq_error.1 h
    rw [map_eq_error, Value.shownScalar] at hx
    split at hx
    · rename_i hn
      cases hx
      exact ⟨n, rfl, hn, rfl⟩
    · cases hx
  | _ => cases h

theorem textAt?_eq_error (h : textAt? es key = .error e) :
    ∃ n, HasLongInt es key n ∧ e = .display .tooManyDigits := by
  unfold textAt? at h
  split at h
  · rename_i v hv
    obtain ⟨n, rfl, hn, rfl⟩ := scalarText?_eq_error h
    exact ⟨n, ⟨hv, hn⟩, rfl⟩
  · cases h

theorem properText?_eq_error (h : properText? es key = .error e) :
    ∃ n, HasLongInt es key n ∧ e = .display .tooManyDigits :=
  textAt?_eq_error (map_eq_error.1 h)

theorem EntryDefect.of_own (hk : key ∈ ownKeys) (h : textAt? es key = .error e) :
    EntryDefect fs cs es e := by
  obtain ⟨n, hn, rfl⟩ := textAt?_eq_error h
  exact .own hk hn

theorem EntryDefect.of_inner {part : Text} (hk : (part, key) ∈ innerKeys)
    (h : properText? (section? cs es part) key = .error e) : EntryDefect fs cs es e := by
  obtain ⟨n, hn, rfl⟩ := properText?_eq_error h
  exact .inner hk hn

theorem exists_of_properText? (h : properText? es key = .ok (some t)) :
    ∃ v, Value.entry? es key = some v ∧ scalarText? v = .ok (some t) := by
  unfold properText? textAt? at h
  cases hv : Value.entry? es key with
  | none => simp [hv, Except.map] at h
  | some v =>
    cases hs : scalarText? v with
    | error e => simp [hv, hs, Except.map] at h
    | ok x =>
      simp only [hv, hs, Except.map, Except.ok.injEq, Option.filter_eq_some_iff] at h
      exact ⟨v, rfl, hs.trans (congrArg Except.ok h.1)⟩

theorem EntryDefect.of_path (hk : key ∈ pathKeys) (h : pathAt? fs root es key = .error e) :
    EntryDefect fs cs es e := by
  obtain h | ⟨x, hx, h⟩ := bind_eq_error.1 h
  · exact .of_own (by simp [ownKeys, hk]) (map_eq_error.1 h)
  · cases x with
    | none => cases h
    | some t =>
      obtain ⟨v, hv, ht⟩ := exists_of_properText? hx
      obtain h | ⟨q, -, h⟩ := bind_eq_error.1 h
      · obtain ⟨x, hq, rfl⟩ := mapError_eq_error.1 h
        exact .home hk hv ht hq
      · cases h

theorem EntryDefect.of_info (h : info (section? cs es "info") = .error e) :
    EntryDefect fs cs es e := by
  obtain h | ⟨_, -, h⟩ := bind_eq_error.1 h
  · exact .of_inner (by decide) h
  obtain h | ⟨_, -, h⟩ := bind_eq_error.1 h
  · exact .of_inner (by decide) h
  obtain h | ⟨_, -, h⟩ := bind_eq_error.1 h
  · exact .of_inner (by decide) h
  cases h

theorem EntryDefect.of_grammar (h : grammar (section? cs es "grammar") = .error e) :
    EntryDefect fs cs es e := by
  obtain h | ⟨_, -, h⟩ := bind_eq_error.1 h
  · exact .of_inner (by decide) h
  obtain h | ⟨_, -, h⟩ := bind_eq_error.1 h
  · exact .of_inner (by decide) h
  obtain h | ⟨_, -, h⟩ := bind_eq_error.1 h
  · exact .of_inner (by decide) h
  obtain h | ⟨_, -, h⟩ := bind_eq_error.1 h
  · exact .of_inner (by decide) h
  cases h

/-- Settings cannot be made of a mapping only if one of its entries is the reason. -/
theorem entryDefect_of_ofEntries (h : ofEntries fs env root cs es = .error e) :
    EntryDefect fs cs es e := by
  obtain h | ⟨_, -, h⟩ := bind_eq_error.1 h
  · exact .of_info h
  obtain h | ⟨_, -, h⟩ := bind_eq_error.1 h
  · exact .of_grammar h
  obtain h | ⟨_, -, h⟩ := bind_eq_error.1 h
  · obtain h | ⟨_, -, h⟩ := bind_eq_error.1 h
    · exact .of_own (by decide) h
    · cases h
  obtain h | ⟨_, -, h⟩ := bind_eq_error.1 h
  · exact .of_path (by decide) h
  obtain h | ⟨_, -, h⟩ := bind_eq_error.1 h
  · exact .of_path (by decide) h
  obtain h | ⟨_, -, h⟩ := bind_eq_error.1 h
  · exact .of_path (by decide) h
  obtain h | ⟨_, -, h⟩ := bind_eq_error.1 h
  · exact .of_path (by decide) h
  obtain h | ⟨_, -, h⟩ := bind_eq_error.1 h
  · exact .of_own (by decide) h
  cases h

theorem not_entryDefect_nil : ¬ EntryDefect fs #[] [] e := by
  rintro (⟨-, h⟩ | ⟨-, h⟩ | ⟨-, h, -⟩)
  · cases h.entry
  · cases h.entry
  · cases h

end Entries

section Files

theorem pathDefect_of_locate (h : locate fs p = .error e) : PathDefect fs p e := by
  obtain h | ⟨q, hq, h⟩ := bind_eq_error.1 h
  · obtain ⟨x, hx, rfl⟩ := mapError_eq_error.1 h
    exact .home hx
  have hq := mapError_eq_ok.1 hq
  obtain h | ⟨isDir, -, h⟩ := bind_eq_error.1 h
  · obtain ⟨f, hf, rfl⟩ := mapError_eq_error.1 h
    exact .kind hq hf
  · obtain ⟨x, hx, rfl⟩ := mapError_eq_error.1 h
    refine .link hq ?_ hx
    cases isDir <;> simp

theorem IllFormed.isDocumented (h : IllFormed file t e) : e.isDocumented := by
  cases h <;> rfl

theorem entriesOf_of_illFormed (ht : HasText fs file t) (h : IllFormed file t e) :
    entriesOf fs file = .error e := by
  unfold entriesOf
  cases h with
  | malformed h =>
    simp only [ht.reads, ht.content, h, bind, Except.bind]
    rfl
  | @notMapping d h he hn =>
    simp only [ht.reads, ht.content, h, he, bind, Except.bind]
    cases hr : d.root with
    | null => exact absurd hr hn
    | _ => rfl

/-- What a settings file is read as: the entries of its mapping, none if it has no content, or an
error. -/
inductive Reads (fs : System) (file : Files.Path) :
    Except SettingsError (Collections × List (Value × Value)) → Prop
  | nothing : Reads fs file (.ok (#[], []))
  | mapping {t : Text} {d : Loaded} {es : List (Value × Value)} (ht : HasText fs file t)
      (hl : Yaml.load t = .ok d) (he : d.entries? = some es) :
      Reads fs file (.ok (d.collections, es))
  | illFormed {t : Text} {e : SettingsError} (ht : HasText fs file t) (h : IllFormed file t e) :
      Reads fs file (.error e)
  | access {e : AccessError} (h : fs.readBytes file = .error e) : Reads fs file (.error (.access e))
  | encoding {bs : Bytes} {e : Utf8.DecodeError} (hb : fs.readBytes file = .ok bs)
      (h : Utf8.decode bs = .error e) : Reads fs file (.error (.encoding e))
  | text {t : Text} {e : Yaml.LoadError} (ht : HasText fs file t) (he : e ≠ .malformed)
      (h : Yaml.StopsLoad t e) : Reads fs file (.error (.load e))

theorem reads_entriesOf (fs : System) (file : Files.Path) : Reads fs file (entriesOf fs file) := by
  cases hr : fs.readText file with
  | error x =>
    unfold entriesOf
    rw [hr]
    cases x with
    | access x => exact .access (System.readText_eq_access.1 hr)
    | encoding x =>
      obtain ⟨bs, hb, hd⟩ := System.readText_eq_encoding.1 hr
      exact .encoding hb hd
  | ok t =>
    cases hb : t.isBlank with
    | true =>
      have h : entriesOf fs file = .ok (#[], []) := by
        simp only [entriesOf, hr, hb, bind, Except.bind]
        rfl
      rw [h]
      exact .nothing
    | false =>
      have ht : HasText fs file t := ⟨hr, hb⟩
      cases hl : Yaml.load t with
      | error x =>
        by_cases hx : x = .malformed
        · subst hx
          rw [entriesOf_of_illFormed ht (.malformed hl)]
          exact .illFormed ht (.malformed hl)
        · have h : entriesOf fs file = .error (.load x) := by
            simp only [entriesOf, hr, hb, hl, bind, Except.bind]
            cases x <;> trivial
          rw [h]
          exact .text ht hx (Yaml.stopsLoad_of_load hl)
      | ok d =>
        cases he : d.entries? with
        | some es =>
          have h : entriesOf fs file = .ok (d.collections, es) := by
            simp only [entriesOf, hr, hb, hl, he, bind, Except.bind]
            rfl
          rw [h]
          exact .mapping ht hl he
        | none =>
          by_cases hn : d.root = .null
          · have h : entriesOf fs file = .ok (#[], []) := by
              simp only [entriesOf, hr, hb, hl, he, hn, bind, Except.bind]
              rfl
            rw [h]
            exact .nothing
          · rw [entriesOf_of_illFormed ht (.notMapping hl he hn)]
            exact .illFormed ht (.notMapping hl he hn)

theorem load_of_illFormed (hf : Finds fs p file) (ht : HasText fs file t)
    (h : IllFormed file t e) (env : Environment) : load fs env p = .error e := by
  obtain ⟨root, hr⟩ := hf.rooted
  simp only [load, hf.located, hr, hf.there, entriesOf_of_illFormed ht h, Except.mapError, bind,
    Except.bind, if_true]

/-- Loading fails only with an error of the form of the settings file, or for another defect. -/
theorem load_eq_error (h : load fs env p = .error e) :
    (∃ file t, Finds fs p file ∧ HasText fs file t ∧ IllFormed file t e) ∨ Defect fs p e := by
  obtain h | ⟨file, hf, h⟩ := bind_eq_error.1 h
  · exact .inr (.path (pathDefect_of_locate h))
  obtain h | ⟨root, hr, h⟩ := bind_eq_error.1 h
  · obtain ⟨x, hx, rfl⟩ := mapError_eq_error.1 h
    exact .inr (.path (.root hf hx))
  obtain h | ⟨there, hh, h⟩ := bind_eq_error.1 h
  · obtain ⟨f, hx, rfl⟩ := mapError_eq_error.1 h
    exact .inr (.path (.place hf hx))
  cases there with
  | false =>
    simp only [Bool.false_eq_true, if_false, bind, Except.bind] at h
    exact absurd (entryDefect_of_ofEntries h) not_entryDefect_nil
  | true =>
    simp only [if_true] at h
    have hf : Finds fs p file := ⟨hf, ⟨root, hr⟩, mapError_eq_ok.1 hh⟩
    have hx := reads_entriesOf fs file
    obtain h | ⟨⟨cs, es⟩, hes, h⟩ := bind_eq_error.1 h
    · rw [h] at hx
      cases hx with
      | illFormed ht hi => exact .inl ⟨file, _, hf, ht, hi⟩
      | access hb => exact .inr (.access hf hb)
      | encoding hb hd => exact .inr (.encoding hf hb hd)
      | text ht he hs => exact .inr (.text hf ht he hs)
    · rw [hes] at hx
      have h := entryDefect_of_ofEntries h
      cases hx with
      | nothing => exact absurd h not_entryDefect_nil
      | mapping ht hl he => exact .inr (.entry hf ht hl he h)

end Files

end Settings

/-- What a run ends with that finds these files when its log file is open, and whose settings have
an error there. -/
def CommandLine.Refuses (env : Environment) (fs : Files.System) (p : Files.Path)
    (e : SettingsError) : Prop :=
  ∀ (stamp : Text) (args : List Text) (before : Files.System) (i : Invocation)
    (file : Option Files.Path) (log : Log), parse args = .ok i → .ofText i.sources.path = p →
    i.openLog.outcome ⟨before, []⟩ = (.ok file, ⟨fs, log⟩) →
    let r := run env stamp args before
    r.outcome = .error (.project (.settings e)) ∧
      (Failure.project (.settings e)).exitCode? = some 1 ∧ r.output = [] ∧
      ∃ records, r.errorOutput =
        records ++ ("routedoc " ++ i.command.name ++ " failed: " ++ e.message ++ "\n")

/-- What a service answers that builds among these files, where its settings have an error. -/
def Service.Refuses (env : Environment) (fs : Files.System) (p : Files.Path)
    (e : SettingsError) : Prop :=
  ∀ (held : Option Document) (log : Log) (r : Request),
    (Service.mk (.ofRoot env p) held).builds (.request r) →
    let event := (Service.mk (.ofRoot env p) held).event ⟨fs, log⟩ (.request r)
    event.after = event.before ∧ event.left = event.found ∧
      (e.message.isWhole →
        event.response = some ⟨400, (Json.obj [("detail", .str e.message)]).toText .compact⟩)

section Refusals

variable {fs : Files.System} {env : Environment} {p : Files.Path} {e : SettingsError}

namespace CommandLine

theorem exists_run_of_load (stamp : Text) {args : List Text} {before : Files.System}
    {i : Invocation} {file : Option Files.Path} {log : Log} (hp : parse args = .ok i)
    (ho : i.openLog.outcome ⟨before, []⟩ = (.ok file, ⟨fs, log⟩))
    (h : Settings.load fs env (.ofText i.sources.path) = .error e) :
    ∃ records files, run env stamp args before = ⟨.error (.project (.settings e)), [],
      records ++ (Failure.project (.settings e)).errorOutput i.command, files⟩ := by
  have hs : i.settings env fs = .error e := by
    simp only [Invocation.settings, h, bind, Except.bind]
  obtain ⟨k, u, s, -, -, hr⟩ := Invocation.outcome_perform_of_failsToLoad stamp
    (⟨file, _, ho, .inl ⟨e, hs, rfl⟩⟩ : i.FailsToLoad env before (.settings e))
  exact ⟨_, _, run_of_error hp hr⟩

theorem refuses_of_load (h : Settings.load fs env p = .error e) (hd : e.isDocumented) :
    Refuses env fs p e := by
  rintro stamp args before i file log hp rfl ho
  obtain ⟨records, files, hr⟩ := exists_run_of_load stamp hp ho h
  have hd : (ProjectError.settings e).isDocumented := hd
  rw [hr]
  refine ⟨rfl, if_pos hd, rfl, records, ?_⟩
  rw [Failure.errorOutput, if_pos hd]
  rfl

end CommandLine

namespace Service

theorem outcome_build_of_load (h : Settings.load fs env p = .error e) (log : Log) :
    (Project.ofRoot env p).build.outcome ⟨fs, log⟩ = (.error (.settings e), ⟨fs, log⟩) := by
  simp only [Project.build, Project.ofRoot, Action.outcome_bind, Action.outcome_files, h,
    Except.mapError, Action.outcome_ofExcept]

theorem refuses_of_load (h : Settings.load fs env p = .error e) (hd : e.isDocumented) :
    Refuses env fs p e := by
  intro held log r hr
  obtain ⟨form, ha⟩ := exists_answers hr ⟨fs, log⟩
  have hl := ha.run
  rw [outcome_build_of_load h] at ha
  rw [before_event, found_event, outcome_build_of_load h] at hl
  refine ⟨ha.error _ rfl, ?_, ha.told _ rfl hd⟩
  rw [found_event, ← (Prod.mk.inj hl).2]

end Service

end Refusals

/-- Settings are loaded, or the settings file is not well formed, which has a documented error that
the program and the service tell, or the path or its file has another defect. -/
theorem Settings.load_or_defect (fs : Files.System) (env : Environment) (p : Files.Path) :
    (∀ file t e, Finds fs p file → HasText fs file t → IllFormed file t e →
      load fs env p = .error e ∧ e.isDocumented ∧ CommandLine.Refuses env fs p e ∧
        Service.Refuses env fs p e) ∧
    ((∃ s, load fs env p = .ok s) ∨ ∃ e, load fs env p = .error e ∧
      ((∃ file t, Finds fs p file ∧ HasText fs file t ∧ IllFormed file t e) ∨ Defect fs p e)) := by
  refine ⟨fun file t e hf ht h => ?_, ?_⟩
  · have hl := load_of_illFormed hf ht h env
    exact ⟨hl, h.isDocumented, CommandLine.refuses_of_load hl h.isDocumented,
      Service.refuses_of_load hl h.isDocumented⟩
  · cases h : load fs env p with
    | ok s => exact .inl ⟨s, rfl⟩
    | error e => exact .inr ⟨e, rfl, load_eq_error h⟩

def settingsFiles (bytes : Bytes) : Files.System :=
  ⟨.dir [(".routedoc.yml", .file bytes)], [], [], []⟩

def atSign : Bytes := Utf8.encodeChars "@".toList

def buildRoot : CommandLine.Invocation :=
  ⟨false, none, ⟨"/", none, none, none, none⟩, .build none⟩

theorem parse_buildRoot : CommandLine.parse ["build", "/"] = .ok buildRoot := by cbv

theorem openLog_buildRoot (bytes : Bytes) : buildRoot.openLog.outcome ⟨settingsFiles bytes, []⟩ =
    (.ok none, ⟨settingsFiles bytes, []⟩) := rfl

theorem Settings.load_or_defect_atSign :
    load (settingsFiles atSign) [] ⟨.slash, []⟩ = .error (.malformed ".routedoc.yml") ∧
    (∃ e, (CommandLine.run [] [] ["build", "/"] (settingsFiles atSign)).outcome = .error e ∧
      e.exitCode? = some 1) ∧
    ((Service.mk (.ofRoot [] ⟨.slash, []⟩) none).event ⟨settingsFiles atSign, []⟩
      (.request ⟨"POST", "/rebuild"⟩)).response.map (·.status) = some 400 := by
  have hf : Finds (settingsFiles atSign) ⟨.slash, []⟩ ⟨.slash, [".routedoc.yml"]⟩ :=
    ⟨by cbv, ⟨⟨.slash, []⟩, by cbv⟩, by cbv⟩
  have ht : HasText (settingsFiles atSign) ⟨.slash, [".routedoc.yml"]⟩ "@" := ⟨by cbv, by decide⟩
  obtain ⟨hl, -, hc, hs⟩ := (load_or_defect (settingsFiles atSign) [] ⟨.slash, []⟩).1 _ _ _ hf ht
    (.malformed rfl)
  have hr := hc [] ["build", "/"] (settingsFiles atSign) _ none [] parse_buildRoot (by cbv)
    (openLog_buildRoot atSign)
  refine ⟨hl, ⟨_, hr.1, hr.2.1⟩, ?_⟩
  rw [(hs none [] ⟨"POST", "/rebuild"⟩ (by decide +kernel)).2.2 (by decide +kernel)]
  rfl

/-- A settings file with a byte that is not UTF-8 has an error that is not documented: a run has no
exit code of its own for it, and a service does not tell it. -/
theorem Settings.load_invalidByte : ∃ e,
    load (settingsFiles [0xFF]) [] ⟨.slash, []⟩ = .error e ∧ e.isDocumented = false ∧
    (CommandLine.run [] [] ["build", "/"] (settingsFiles [0xFF])).outcome =
      .error (.project (.settings e)) ∧
    (CommandLine.Failure.project (.settings e)).exitCode? = none ∧
    ((Service.mk (.ofRoot [] ⟨.slash, []⟩) none).event ⟨settingsFiles [0xFF], []⟩
      (.request ⟨"POST", "/rebuild"⟩)).response = some ⟨500, "Internal Server Error"⟩ := by
  have hl : load (settingsFiles [0xFF]) [] ⟨.slash, []⟩ =
      .error (.encoding ⟨.start, 0xFF, 0, 1⟩) := by
    cbv
  obtain ⟨records, files, hr⟩ := CommandLine.exists_run_of_load [] parse_buildRoot
    (openLog_buildRoot [0xFF]) hl
  refine ⟨_, hl, rfl, by rw [hr], rfl, ?_⟩
  obtain ⟨form, ha⟩ := Service.exists_answers (s := ⟨.ofRoot [] ⟨.slash, []⟩, none⟩)
    (r := ⟨"POST", "/rebuild"⟩) (by decide +kernel) ⟨settingsFiles [0xFF], []⟩
  rw [Service.outcome_build_of_load hl] at ha
  exact ha.notTold _ rfl fun h => by cases h.1

end RouteAtlas
