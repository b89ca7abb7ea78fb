import Mathlib
import RouteAtlas.Proofs.Files.Reading
import RouteAtlas.Proofs.Value.Shallow
import RouteAtlas.Route.Manifest

/-!
# What a manifest is read as

A manifest is a list of entries, in mounts too. If it lists what it lists as lists, it is read as a
table of the same form, or a documented error names an entry that is none.
-/

namespace RouteAtlas

namespace Route.Manifest

section

variable (fs : Files.System) (dir : Files.Path) (cs : Collections)

def declaredMethods (es : List (Value × Value)) : Option Value :=
  Value.entry? es "methods" <|> Value.entry? es "method"

/-- The handlers that a route lists; none if there is nothing, or what counts as false. -/
def HandlersAre (es : List (Value × Value)) (hs : List Value) : Prop :=
  match given? cs es "handlers" with
  | none => hs = []
  | some v => cs.items? v = some hs

/-- A handler is given by its name or by a mapping. -/
def IsHandler (v : Value) : Prop := (∃ name, v = .str name) ∨ (cs.entries? v).isSome

/-- An entry is a mapping with routes of its own, or with a path and handlers. -/
def IsEntry (v : Value) : Prop :=
  ∃ es, cs.entries? v = some es ∧
    ((∃ routes, Value.entry? es "routes" = some routes ∧
        (cs.holds routes → (cs.items? routes).isSome)) ∨
      Value.entry? es "routes" = none ∧ (Value.entry? es "path").isSome ∧
        ∀ hs, HandlersAre cs es hs → ∀ h ∈ hs, IsHandler cs h)

/-- An item of a list of entries, or of the lists in its mounts, at any depth. -/
inductive Inside : List Value → Value → Prop
  | here {vs : List Value} {v : Value} (h : v ∈ vs) : Inside vs v
  | deeper {vs children : List Value} {m v routes : Value} {es : List (Value × Value)} (hm : m ∈ vs)
      (hes : cs.entries? m = some es) (hr : Value.entry? es "routes" = some routes)
      (hc : cs.items? routes = some children) (h : Inside children v) : Inside vs v

/-- The file of a handler, if its source is to be read from one, has a proper name. -/
def IsFileNamed (es : List (Value × Value)) : Prop :=
  (Value.entry? es "source").getD .null = .null → ∀ file name, given? cs es "file" = some file →
    cs.plain file = .ok name →
      Files.NameError.ofText? (dir.join (Files.Path.ofText name)).toText = none

/-- What a route lists is given as a list, but for a single method. -/
structure IsRegular (es : List (Value × Value)) : Prop where
  methods : ∀ m, declaredMethods es = some m → (∃ t, m = .str t) ∨ (cs.items? m).isSome
  handlers : ∃ hs, HandlersAre cs es hs ∧
    ∀ h ∈ hs, ∀ hes, cs.entries? h = some hes → IsFileNamed dir cs hes

def TextIs (es : List (Value × Value)) (key t : Text) : Prop :=
  match given? cs es key with
  | some v => cs.plain v = .ok t
  | none => t = []

def SourceIs (es : List (Value × Value)) (t : Text) : Prop :=
  match (Value.entry? es "source").getD .null, given? cs es "file" with
  | .null, some file => ∃ name, cs.plain file = .ok name ∧
      t = ((fs.readTextLenient (dir.join (Files.Path.ofText name))).toOption).getD []
  | _, _ => TextIs cs es "source" t

inductive DepictsHandler : Value → Handler → Prop
  | name (t : Text) : DepictsHandler (.str t) (.declared (some t) (some []))
  | mapping {v : Value} {es : List (Value × Value)} {name source : Text}
      (hes : cs.entries? v = some es) (hn : TextIs cs es "name" name)
      (hs : SourceIs fs dir cs es source) :
      DepictsHandler v (.declared (some name) (some source))

def MethodsAre (es : List (Value × Value)) (ms : List Text) : Prop :=
  match declaredMethods es with
  | none => ms = ["get"]
  | some (.str t) => ms = [t]
  | some v => ∃ vs, cs.items? v = some vs ∧ List.Forall₂ (fun v m => cs.plain v = .ok m) vs ms

def MountPathIs (es : List (Value × Value)) (t : Text) : Prop :=
  match given? cs es "prefix" with
  | some v => cs.plain v = .ok t
  | none => TextIs cs es "path" t

/-- The children of a mount; what counts as false stands for none. -/
def ChildrenAre (routes : Value) (children : List Value) : Prop :=
  cs.items? routes = some children ∨ cs.items? routes = none ∧ cs.holds routes = false ∧
    children = []

/-- An entry is read as a node: the children of a mount and the handlers of a route stand in the
order of their items, one for each. -/
inductive Depicts : Value → Node → Prop
  | mount {v routes : Value} {es : List (Value × Value)} {children : List Value} {base : Text}
      {nodes : List Node} (hes : cs.entries? v = some es)
      (hr : Value.entry? es "routes" = some routes) (hc : ChildrenAre cs routes children)
      (hb : MountPathIs cs es base) (hn : List.Forall₂ Depicts children nodes) :
      Depicts v (.mount (some base) nodes)
  | route {v p : Value} {es : List (Value × Value)} {hs : List Value} {path : Text}
      {ms : List Text} {handlers : List Handler} (hes : cs.entries? v = some es)
      (hr : Value.entry? es "routes" = none) (hp : Value.entry? es "path" = some p)
      (ht : cs.plain p = .ok path) (hm : MethodsAre cs es ms) (hh : HandlersAre cs es hs)
      (hd : List.Forall₂ (DepictsHandler fs dir cs) hs handlers) :
      Depicts v (.route (some path) ms handlers)

end

section Decides

variable {fs : Files.System} {α β γ : Type} {ok ok' : Prop} {P : α → Prop} {Q : β → Prop}

/-- An action writes no file. It gives what is described if something holds, and fails with a
documented error if it does not. -/
def Decides (fs : Files.System) (a : Action ManifestError α) (ok : Prop) (P : α → Prop) : Prop :=
  ∃ x, a.Settles (· = fs) x ∧
    match x with
    | .ok r => ok ∧ P r
    | .error e => e.isDocumented ∧ ¬ok

theorem decides_pure {r : α} (h : ok) (hr : P r) : Decides fs (pure r) ok P :=
  ⟨.ok r, Action.settles_pure r, h, hr⟩

theorem decides_ofExcept {x : Except ManifestError α} {r : α} (hx : x = .ok r) (h : ok)
    (hr : P r) : Decides fs (Action.ofExcept x) ok P :=
  ⟨x, Action.settles_ofExcept x, by rw [hx]; exact ⟨h, hr⟩⟩

theorem decides_throw {e : ManifestError} (he : e.isDocumented) (h : ¬ok) :
    Decides fs (throw e : Action ManifestError α) ok P :=
  ⟨.error e, Action.settles_throw e, he, h⟩

theorem Decides.congr {a : Action ManifestError α} (h : Decides fs a ok P) (hok : ok ↔ ok') :
    Decides fs a ok' P := by
  obtain ⟨x, hs, hx⟩ := h
  refine ⟨x, hs, ?_⟩
  cases x with
  | ok r => exact ⟨hok.1 hx.1, hx.2⟩
  | error e => exact ⟨hx.1, fun h => hx.2 (hok.2 h)⟩

theorem Decides.mono {P' : α → Prop} {a : Action ManifestError α} (h : Decides fs a ok P)
    (hp : ∀ r, P r → P' r) : Decides fs a ok P' := by
  obtain ⟨x, hs, hx⟩ := h
  refine ⟨x, hs, ?_⟩
  cases x with
  | ok r => exact ⟨hx.1, hp r hx.2⟩
  | error e => exact hx

theorem Decides.bind {a : Action ManifestError α} {f : α → Action ManifestError β}
    (h : Decides fs a ok P) (hf : ∀ r, P r → Decides fs (f r) ok' Q) :
    Decides fs (a >>= f) (ok ∧ ok') Q := by
  obtain ⟨_ | r, hs, hx⟩ := h
  · exact ⟨_, hs.bind_error, hx.1, fun h => hx.2 h.1⟩
  · obtain ⟨y, ht, hy⟩ := hf r hx.2
    refine ⟨y, hs.bind ht, ?_⟩
    cases y with
    | ok q => exact ⟨⟨hx.1, hy.1⟩, hy.2⟩
    | error e => exact ⟨hy.1, fun h => hy.2 h.2⟩

theorem Decides.bind_sure {a : Action ManifestError α} {f : α → Action ManifestError β} {ok' : Prop}
    (h : Decides fs a True P) (hf : ∀ r, P r → Decides fs (f r) ok' Q) :
    Decides fs (a >>= f) ok' Q :=
  (h.bind hf).congr (by simp)

theorem decides_files : Decides fs Action.files True (· = fs) := by
  refine ⟨.ok fs, ?_, trivial, rfl⟩
  rintro s rfl
  exact ⟨[], by simp⟩

theorem decides_note (level : Level) (origin : Origin) (message : Text) :
    Decides fs (Action.note level origin message) True fun _ => True :=
  ⟨.ok (), Action.settles_note level origin message, trivial, trivial⟩

/-- Of a run of actions each has its result if all of them have one. -/
theorem decides_mapM {f : α → Action ManifestError β} {oks : α → Prop} {R : α → β → Prop}
    {xs : List α} (h : ∀ x ∈ xs, Decides fs (f x) (oks x) (R x)) :
    Decides fs (xs.mapM f) (∀ x ∈ xs, oks x) (List.Forall₂ R xs) := by
  induction xs with
  | nil => exact decides_pure (by simp) .nil
  | cons x xs ih =>
    rw [List.mapM_cons]
    have hrest := ih fun y hy => h y (by simp [hy])
    refine ((h x (by simp)).bind fun r hr => hrest.bind fun rs hrs =>
      decides_pure trivial (.cons hr hrs)).congr ?_
    simp

end Decides

section Parts

variable {fs : Files.System} {dir : Files.Path} {cs : Collections} {es : List (Value × Value)}
  {v : Value} {key : Text} {k : Nat}

theorem decides_plain (h : ∃ t, cs.plain v = .ok t) :
    Decides fs (plain cs v) True fun t => cs.plain v = .ok t := by
  obtain ⟨t, ht⟩ := h
  exact decides_ofExcept (by rw [ht]; rfl) trivial ht

/-- A value that is shown in an error has a text. -/
theorem decides_shown {α : Type} {ok : Prop} {P : α → Prop} {e : Text → ManifestError}
    (h : ∃ t, cs.shown v = .ok t) (he : ∀ t, (e t).isDocumented) (hn : ¬ok) :
    Decides fs (do throw (e (← shown cs v)) : Action ManifestError α) ok P := by
  obtain ⟨t, ht⟩ := h
  have hs : Decides fs (shown cs v) True fun r => r = t :=
    decides_ofExcept (by rw [ht]; rfl) trivial rfl
  refine (hs.bind fun r _ => decides_throw (he r) hn).congr ?_
  simp

theorem given?_eq_some : given? cs es key = some v → Value.entry? es key = some v :=
  fun h => (Option.filter_eq_some_iff.1 h).1

theorem decides_textAt (h : ∀ v, Value.entry? es key = some v → ∃ t, cs.plain v = .ok t) :
    Decides fs (textAt cs es key) True (TextIs cs es key) := by
  unfold textAt TextIs
  cases hg : given? cs es key with
  | none => exact decides_pure trivial rfl
  | some v => exact decides_plain (h v (given?_eq_some hg))

theorem decides_source (h : ∀ key v, Value.entry? es key = some v → ∃ t, cs.plain v = .ok t)
    (hf : IsFileNamed dir cs es) : Decides fs (source dir cs es) True (SourceIs fs dir cs es) := by
  unfold source SourceIs
  cases hs : (Value.entry? es "source").getD .null with
  | null =>
    cases hg : given? cs es "file" with
    | none => exact decides_textAt (h _)
    | some file =>
      have hp : Decides fs (plain cs file) True fun t => cs.plain file = .ok t :=
        decides_plain (h _ _ (given?_eq_some hg))
      refine hp.bind_sure fun name hn => decides_files.bind_sure ?_
      rintro _ rfl
      have hname := hf hs file name hg hn
      cases hr : Files.System.readTextLenient _ (dir.join (Files.Path.ofText name)) with
      | ok t => exact decides_pure trivial ⟨name, hn, by rw [hr]; rfl⟩
      | error e =>
        cases e with
        | badName e => exact absurd (Files.System.ofText?_of_readTextLenient hr) (by simp [hname])
        | failed f =>
          refine (decides_note _ _ _).bind_sure fun _ _ => decides_pure trivial ⟨name, hn, ?_⟩
          rw [hr]
          rfl
  | _ => exact decides_textAt (h _)

theorem decides_handler (hv : cs.Shallow k v) (hk : k ≤ Collections.maxDepth)
    (hf : ∀ es, cs.entries? v = some es → IsFileNamed dir cs es) :
    Decides fs (handler dir cs v) (IsHandler cs v) (DepictsHandler fs dir cs v) := by
  unfold handler IsHandler
  split
  · exact decides_pure (.inl ⟨_, rfl⟩) (.name _)
  · rename_i es _ hes
    have ht (key : Text) (p : Value) (h : Value.entry? es key = some p) :
        ∃ t, cs.plain p = .ok t :=
      ((hv.of_entry? hes h).mono (by omega)).exists_plain
    refine ((decides_textAt (ht _)).bind_sure fun name hn =>
      (decides_source ht (hf es hes)).bind_sure fun source hs => ?_)
    exact decides_pure (.inr (by simp [hes])) (.mapping hes hn hs)
  · rename_i v hstr hes
    refine decides_shown (hv.mono hk).exists_shown (fun _ => rfl) ?_
    rintro (⟨name, rfl⟩ | h)
    · exact hstr name rfl
    · simp [hes] at h

theorem exists_key_of_declaredMethods (h : declaredMethods es = some v) :
    ∃ key, Value.entry? es key = some v := by
  unfold declaredMethods at h
  cases hm : Value.entry? es "methods" with
  | some m =>
    rw [hm] at h
    exact ⟨_, hm.trans h⟩
  | none =>
    rw [hm] at h
    exact ⟨_, h⟩

theorem get?_of_items? {vs : List Value} (h : cs.items? v = some vs) :
    cs.get? v = some (.list vs) := by
  unfold Collections.items? at h
  split at h
  · rename_i hc
    rw [hc, Option.some.inj h]
  · cases h

theorem parts_of_items? {vs : List Value} (h : cs.items? v = some vs) : parts cs v = .ok vs := by
  unfold parts
  rw [get?_of_items? h]

theorem decides_methods
    (ht : ∀ key p, Value.entry? es key = some p → cs.Shallow k p) (hk : k ≤ Collections.maxDepth)
    (hm : ∀ m, declaredMethods es = some m → (∃ t, m = .str t) ∨ (cs.items? m).isSome) :
    Decides fs (methods cs es) True (MethodsAre cs es) := by
  unfold methods MethodsAre
  rw [← declaredMethods]
  cases hd : declaredMethods es with
  | none => exact decides_pure trivial rfl
  | some m =>
    rcases hm m hd with ⟨t, rfl⟩ | h
    · exact decides_pure trivial rfl
    · obtain ⟨vs, hvs⟩ := Option.isSome_iff_exists.1 h
      obtain ⟨key, hkey⟩ := exists_key_of_declaredMethods hd
      have hp (x : Value) (hx : x ∈ vs) : ∃ t, cs.plain x = .ok t :=
        (((ht key m hkey).of_items? hvs hx).mono (by omega)).exists_plain
      cases m with
      | collection place =>
        have hrun : Decides fs (vs.mapM (plain cs)) True
            (List.Forall₂ (fun x t => cs.plain x = .ok t) vs) :=
          (decides_mapM fun x hx => decides_plain (hp x hx)).congr (by simp)
        refine (decides_ofExcept (parts_of_items? hvs) trivial rfl).bind_sure ?_
        rintro _ rfl
        exact hrun.mono fun ts hts => ⟨_, hvs, hts⟩
      | _ => cases h

theorem HandlersAre.unique {hs hs' : List Value} (h : HandlersAre cs es hs)
    (h' : HandlersAre cs es hs') : hs = hs' := by
  unfold HandlersAre at h h'
  cases hg : given? cs es "handlers" with
  | none =>
    rw [hg] at h h'
    rw [h, h']
  | some v =>
    rw [hg] at h h'
    exact Option.some.inj (h.symm.trans h')

theorem HandlersAre.parts_eq {hs : List Value} (h : HandlersAre cs es hs) :
    ((given? cs es "handlers").map (parts cs)).getD (.ok []) = .ok hs := by
  unfold HandlersAre at h
  cases hg : given? cs es "handlers" with
  | none =>
    rw [hg] at h
    subst h
    rfl
  | some q =>
    rw [hg] at h
    exact parts_of_items? h

theorem HandlersAre.shallow {hs : List Value} (h : HandlersAre cs es hs)
    (ht : ∀ key p, Value.entry? es key = some p → cs.Shallow k p) :
    ∀ x ∈ hs, cs.Shallow (k - 1) x := by
  unfold HandlersAre at h
  intro x hx
  cases hg : given? cs es "handlers" with
  | none =>
    rw [hg] at h
    subst h
    cases hx
  | some q =>
    rw [hg] at h
    exact (ht _ q (given?_eq_some hg)).of_items? h hx

theorem isEntry_route_iff {p : Value} {hs : List Value} (hes : cs.entries? v = some es)
    (hr : Value.entry? es "routes" = none) (hp : Value.entry? es "path" = some p)
    (hhs : HandlersAre cs es hs) : IsEntry cs v ↔ ∀ h ∈ hs, IsHandler cs h := by
  constructor
  · rintro ⟨es', hes', ⟨routes, hroutes, -⟩ | ⟨-, -, hall⟩⟩
    · obtain rfl := Option.some.inj (hes.symm.trans hes')
      rw [hr] at hroutes
      cases hroutes
    · obtain rfl := Option.some.inj (hes.symm.trans hes')
      exact hall hs hhs
  · intro hall
    refine ⟨es, hes, .inr ⟨hr, by rw [hp]; rfl, fun hs' hhs' => ?_⟩⟩
    obtain rfl := hhs.unique hhs'
    exact hall

theorem decides_route {p : Value} (hv : cs.Shallow k v) (hk : k ≤ Collections.maxDepth)
    (hes : cs.entries? v = some es) (hr : Value.entry? es "routes" = none)
    (hp : Value.entry? es "path" = some p) (hreg : IsRegular dir cs es) :
    Decides fs (route dir cs es p) (IsEntry cs v) (Depicts fs dir cs v) := by
  have hsub (key : Text) (q : Value) (h : Value.entry? es key = some q) : cs.Shallow (k - 1) q :=
    hv.of_entry? hes h
  obtain ⟨hs, hhs, hnamed⟩ := hreg.handlers
  have hentry := isEntry_route_iff hes hr hp hhs
  have hhandlers : Decides fs (hs.mapM (handler dir cs)) (∀ h ∈ hs, IsHandler cs h)
      (List.Forall₂ (DepictsHandler fs dir cs) hs) :=
    decides_mapM fun h hh => decides_handler (hhs.shallow hsub h hh) (by omega) (hnamed h hh)
  have hpath : Decides fs (plain cs p) True fun t => cs.plain p = .ok t :=
    decides_plain ((hsub _ p hp).mono (by omega)).exists_plain
  have hmethods : Decides fs (methods cs es) True (MethodsAre cs es) :=
    decides_methods hsub (by omega) hreg.methods
  unfold route
  refine (decides_ofExcept hhs.parts_eq trivial rfl).bind_sure ?_
  rintro _ rfl
  refine (hhandlers.bind fun handlers hd => hpath.bind_sure fun path ht =>
    hmethods.bind_sure fun ms hm => decides_pure trivial ?_).congr (by simp [hentry])
  exact .route hes hr hp ht hm hhs hd

theorem decides_mountPath (h : ∀ key v, Value.entry? es key = some v → ∃ t, cs.plain v = .ok t) :
    Decides fs (mountPath cs es) True (MountPathIs cs es) := by
  unfold mountPath MountPathIs
  cases hg : given? cs es "prefix" with
  | none => exact decides_textAt (h _)
  | some v => exact decides_plain (h _ v (given?_eq_some hg))

theorem decides_nested (routes : Value) : Decides fs (Action.ofExcept (nested cs routes))
    (cs.holds routes → (cs.items? routes).isSome) (ChildrenAre cs routes) := by
  refine ⟨_, Action.settles_ofExcept _, ?_⟩
  unfold nested ChildrenAre
  cases hi : cs.items? routes with
  | some vs => simp
  | none =>
    cases hh : cs.holds routes with
    | true => exact ⟨rfl, by simp⟩
    | false => simp

end Parts

section Lists

variable {fs : Files.System} {dir : Files.Path} {cs : Collections} {es : List (Value × Value)}
  {vs children : List Value} {v routes : Value} {k fuel : Nat} {ok : Prop}

def ThroughMount (cs : Collections) (P : Value → Prop) (v : Value) : Prop :=
  ∀ es routes children, cs.entries? v = some es → Value.entry? es "routes" = some routes →
    cs.items? routes = some children → ∀ w, Inside cs children w → P w

theorem forall_inside_iff {P : Value → Prop} :
    (∀ w, Inside cs vs w → P w) ↔ ∀ v ∈ vs, P v ∧ ThroughMount cs P v := by
  constructor
  · intro h v hv
    exact ⟨h v (.here hv), fun es routes children hes hr hc w hw =>
      h w (.deeper hv hes hr hc hw)⟩
  · intro h w hw
    cases hw with
    | here hv => exact (h w hv).1
    | deeper hm hes hr hc hi => exact (h _ hm).2 _ _ _ hes hr hc w hi

theorem throughMount_iff {P : Value → Prop} (hes : cs.entries? v = some es)
    (hr : Value.entry? es "routes" = some routes) (hc : ChildrenAre cs routes children) :
    ThroughMount cs P v ↔ ∀ w, Inside cs children w → P w := by
  constructor
  · intro h w hw
    rcases hc with hc | ⟨-, -, rfl⟩
    · exact h es routes children hes hr hc w hw
    · cases hw with
      | here h => cases h
      | deeper h => cases h
  · intro h es' routes' children' hes' hr' hc'
    obtain rfl := Option.some.inj (hes.symm.trans hes')
    obtain rfl := Option.some.inj (hr.symm.trans hr')
    rcases hc with hc | ⟨hn, -⟩
    · obtain rfl := Option.some.inj (hc.symm.trans hc')
      exact h
    · rw [hn] at hc'
      cases hc'

theorem throughMount_of_no_routes {P : Value → Prop}
    (hr : ∀ es, cs.entries? v = some es → Value.entry? es "routes" = none) :
    ThroughMount cs P v := by
  intro es routes children hes hroutes
  rw [hr es hes] at hroutes
  cases hroutes

theorem isEntry_mount_iff (hes : cs.entries? v = some es)
    (hr : Value.entry? es "routes" = some routes) :
    IsEntry cs v ↔ (cs.holds routes → (cs.items? routes).isSome) := by
  constructor
  · rintro ⟨es', hes', ⟨routes', hr', h⟩ | ⟨hn, -⟩⟩
    · obtain rfl := Option.some.inj (hes.symm.trans hes')
      obtain rfl := Option.some.inj (hr.symm.trans hr')
      exact h
    · obtain rfl := Option.some.inj (hes.symm.trans hes')
      rw [hr] at hn
      cases hn
  · exact fun h => ⟨es, hes, .inl ⟨routes, hr, h⟩⟩

theorem not_isEntry_of_no_entries (hes : cs.entries? v = none) : ¬IsEntry cs v := by
  rintro ⟨es, hes', -⟩
  rw [hes] at hes'
  cases hes'

theorem not_isEntry_of_no_path (hes : cs.entries? v = some es)
    (hr : Value.entry? es "routes" = none) (hp : Value.entry? es "path" = none) :
    ¬IsEntry cs v := by
  rintro ⟨es', hes', ⟨routes, hroutes, -⟩ | ⟨-, hpath, -⟩⟩
  · rw [← Option.some.inj (hes.symm.trans hes'), hr] at hroutes
    cases hroutes
  · rw [← Option.some.inj (hes.symm.trans hes'), hp] at hpath
    cases hpath

theorem ChildrenAre.shallow (h : ChildrenAre cs routes children) (hr : cs.Shallow k routes) :
    ∀ w ∈ children, cs.Shallow (k - 1) w := by
  intro w hw
  rcases h with hc | ⟨-, -, rfl⟩
  · exact hr.of_items? hc hw
  · cases hw

theorem decides_mount (hes : cs.entries? v = some es)
    (hr : Value.entry? es "routes" = some routes)
    (ht : ∀ key q, Value.entry? es key = some q → ∃ t, cs.plain q = .ok t)
    {run : List Value → Action ManifestError (List Node)}
    (hrun : ∀ children, ChildrenAre cs routes children →
      Decides fs (run children) ok (List.Forall₂ (Depicts fs dir cs) children)) :
    Decides fs (do
      let children ← Action.ofExcept (nested cs routes)
      let base ← mountPath cs es
      return .mount (some base) (← run children)) (IsEntry cs v ∧ ok) (Depicts fs dir cs v) := by
  refine ((decides_nested routes).bind fun children hc =>
    (decides_mountPath ht).bind_sure fun base hb => ?_).congr
      (and_congr_left fun _ => (isEntry_mount_iff hes hr).symm)
  refine ((hrun children hc).bind fun ns hns => decides_pure trivial ?_).congr (by simp)
  exact .mount hes hr hc hb hns

def RoutesAreRegular (dir : Files.Path) (cs : Collections) (v : Value) : Prop :=
  ∀ es, cs.entries? v = some es → Value.entry? es "routes" = none →
    (Value.entry? es "path").isSome → IsRegular dir cs es

/-- A list of regular entries is read as nodes, if each item at each depth is an entry, and fails
with a documented error if not. -/
theorem decides_nodes (hv : ∀ v ∈ vs, cs.Shallow k v) (hk : k ≤ Collections.maxDepth)
    (hf : k ≤ fuel) (hpos : 0 < fuel)
    (hreg : ∀ v, Inside cs vs v → RoutesAreRegular dir cs v) :
    Decides fs (nodes dir cs fuel vs) (∀ v, Inside cs vs v → IsEntry cs v)
      (List.Forall₂ (Depicts fs dir cs) vs) := by
  induction fuel generalizing vs k with
  | zero => exact absurd hpos (Nat.lt_irrefl 0)
  | succ fuel ih =>
    refine (decides_mapM fun v hmem => ?_).congr forall_inside_iff.symm
    have hs := hv v hmem
    have hshown := (hs.mono hk).exists_shown
    cases hes : cs.entries? v with
    | none =>
      exact decides_shown hshown (fun _ => rfl) fun h => not_isEntry_of_no_entries hes h.1
    | some es =>
      have htexts (key : Text) (q : Value) (h : Value.entry? es key = some q) :
          ∃ t, cs.plain q = .ok t := ((hs.of_entry? hes h).mono (by omega)).exists_plain
      simp only
      cases hr : Value.entry? es "routes" with
      | some routes =>
        have hroutes := hs.of_entry? hes hr
        have hfuel : 0 < fuel := by
          have := hroutes.pos
          omega
        refine decides_mount hes hr htexts fun children hc => ?_
        have hthrough (P : Value → Prop) := throughMount_iff (P := P) hes hr hc
        refine (ih (hc.shallow hroutes) (by omega) (by omega) hfuel ?_).congr (hthrough _).symm
        exact (hthrough _).1 fun es' routes' children' hes' hr' hc' w hw =>
          hreg w (.deeper hmem hes' hr' hc' hw)
      | none =>
        have hthrough : ThroughMount cs (IsEntry cs) v := by
          refine throughMount_of_no_routes fun es' hes' => ?_
          rw [← Option.some.inj (hes.symm.trans hes'), hr]
        cases hp : Value.entry? es "path" with
        | some p =>
          have hregular := hreg v (.here hmem) es hes hr (by rw [hp]; rfl)
          exact (decides_route hs hk hes hr hp hregular).congr (by simp [hthrough])
        | none =>
          exact decides_shown hshown (fun _ => rfl) fun h =>
            not_isEntry_of_no_path hes hr hp h.1

end Lists

section Load

variable {path : Files.Path} {t : Text} {d : Loaded}

/-- What should be the list of entries: what a mapping has under `routes`, or the value itself. -/
def listed (d : Loaded) : Value :=
  match d.entries? with
  | some es => (Value.entry? es "routes").getD .null
  | none => d.root

def EntriesAre (d : Loaded) (vs : List Value) : Prop :=
  listed d = .null ∧ vs = [] ∨ d.collections.items? (listed d) = some vs

/-- A manifest is a list of entries, with entries in all its mounts. -/
def IsManifest (d : Loaded) : Prop :=
  ∃ vs, EntriesAre d vs ∧ ∀ v, Inside d.collections vs v → IsEntry d.collections v

def IsRegularManifest (dir : Files.Path) (d : Loaded) : Prop :=
  ∀ vs, EntriesAre d vs → ∀ v, Inside d.collections vs v → RoutesAreRegular dir d.collections v

theorem routeList_eq_ok_iff {name : Text} {vs : List Value} :
    routeList name d = .ok vs ↔ EntriesAre d vs := by
  unfold routeList EntriesAre
  dsimp only
  split
  next hn =>
    have hn : listed d = .null := hn
    simp [hn, Collections.items?, Collections.get?, eq_comm]
  next us hi hn =>
    have hn : listed d ≠ .null := hn
    have hi : d.collections.items? (listed d) = some us := hi
    simp [hn, hi]
  next hi hn =>
    have hn : listed d ≠ .null := hn
    have hi : d.collections.items? (listed d) = none := hi
    simp [hn, hi]

theorem routeList_eq_error {name : Text} {e : ManifestError} (h : routeList name d = .error e) :
    e = .notList name := by
  unfold routeList at h
  dsimp only at h
  split at h <;> cases h
  rfl

theorem shallow_of_entriesAre {k : Nat} {vs : List Value} (h : d.collections.Shallow k d.root)
    (hvs : EntriesAre d vs) : ∀ v ∈ vs, d.collections.Shallow k v := by
  intro v hv
  rcases hvs with ⟨-, rfl⟩ | hi
  · cases hv
  · unfold listed at hi
    cases he : d.entries? with
    | none =>
      rw [he] at hi
      exact (h.of_items? hi hv).mono (Nat.sub_le k 1)
    | some es =>
      rw [he] at hi
      simp only at hi
      cases hr : Value.entry? es "routes" with
      | none =>
        rw [hr] at hi
        cases hi
      | some routes =>
        rw [hr] at hi
        exact ((h.of_entry? he hr).of_items? hi hv).mono (by omega)

/-- A manifest of a value that is nested not too deep and lists what it lists as lists is read as
one node for each entry, in their order, with one handler for each that is listed; any other such
value has a documented error. No file is written. -/
theorem load_reads (s : Session) (ht : s.files.readText path = .ok t)
    (hd : content path t = .ok d) (hs : d.collections.Shallow Collections.maxDepth d.root)
    (hr : IsRegularManifest path.parent d) : ∃ added,
    (IsManifest d ∧ ∃ table vs, (load path).outcome s =
        (.ok table, { s with log := s.log ++ added }) ∧ EntriesAre d vs ∧
        List.Forall₂ (Depicts s.files path.parent d.collections) vs table) ∨
      ¬IsManifest d ∧ ∃ e, (load path).outcome s =
        (.error e, { s with log := s.log ++ added }) ∧ e.isDocumented := by
  have hload : Decides s.files (load path) (IsManifest d) fun table => ∃ vs,
      EntriesAre d vs ∧
        List.Forall₂ (Depicts s.files path.parent d.collections) vs table := by
    unfold load
    refine decides_files.bind_sure ?_
    rintro _ rfl
    rw [ht]
    refine (decides_ofExcept hd trivial rfl).bind_sure ?_
    rintro _ rfl
    cases hl : routeList path.name d with
    | error e =>
      refine ⟨_, Action.Settles.bind_error (Action.settles_ofExcept (.error e)), ?_, ?_⟩
      · rw [routeList_eq_error hl]
        rfl
      · rintro ⟨vs, hvs, -⟩
        rw [routeList_eq_ok_iff.2 hvs] at hl
        cases hl
    | ok vs =>
      have hvs := routeList_eq_ok_iff.1 hl
      refine (decides_ofExcept rfl trivial rfl).bind_sure ?_
      rintro _ rfl
      have hone : IsManifest d ↔ ∀ v, Inside d.collections vs v → IsEntry d.collections v := by
        constructor
        · rintro ⟨vs', hvs', h⟩
          rw [← routeList_eq_ok_iff, hl] at hvs'
          exact Except.ok.inj hvs' ▸ h
        · exact fun h => ⟨vs, hvs, h⟩
      have hnodes : Decides s.files (nodes path.parent d.collections maxDepth vs)
          (∀ v, Inside d.collections vs v → IsEntry d.collections v)
          (List.Forall₂ (Depicts s.files path.parent d.collections) vs) :=
        decides_nodes (shallow_of_entriesAre hs hvs) (Nat.le_refl _) (Nat.le_refl _)
          (Nat.succ_pos _) (hr vs hvs)
      exact (hnodes.mono fun table h => ⟨vs, hvs, h⟩).congr hone.symm
  obtain ⟨x, hx, hj⟩ := hload
  obtain ⟨added, ho⟩ := hx s rfl
  refine ⟨added, ?_⟩
  cases x with
  | ok table =>
    obtain ⟨hm, vs, hvs, hd⟩ := hj
    exact .inl ⟨hm, table, vs, ho, hvs, hd⟩
  | error e => exact .inr ⟨hj.2, e, ho, hj.1⟩

end Load

section Runs

def onlyPath : Files.Path := ⟨.relative, ["m"]⟩

def onlyFile (t : String) : Files.System :=
  ⟨.dir [("m", .file (Utf8.encodeChars t.toList))], [], [], []⟩

def oneHandler : Loaded :=
  ⟨#[.list [.collection 1],
    .map [(.str "path", .str "a"), (.str "methods", .str "put"), (.str "handlers", .collection 2)],
    .list [.str "h"]], .collection 0⟩

def oneHandlerText : String := "[{path: a, methods: put, handlers: [h]}]"

theorem isEntry_oneHandler : IsEntry oneHandler.collections (.collection 1) := by
  refine ⟨_, rfl, .inr ⟨rfl, rfl, fun hs hhs h hh => ?_⟩⟩
  obtain rfl : [Value.str "h"] = hs := Option.some.inj hhs
  exact .inl ⟨_, List.mem_singleton.1 hh⟩

theorem inside_oneHandler {v : Value} (h : Inside oneHandler.collections [.collection 1] v) :
    v = .collection 1 := by
  cases h with
  | here h => exact List.mem_singleton.1 h
  | deeper hm hes hr _ _ =>
    obtain rfl := List.mem_singleton.1 hm
    cases hes
    cases hr

theorem load_reads_oneHandler : ∃ added table vs,
    (load onlyPath).outcome ⟨onlyFile oneHandlerText, []⟩ =
        (.ok table, ⟨onlyFile oneHandlerText, added⟩) ∧
      EntriesAre oneHandler vs ∧
      List.Forall₂ (Depicts (onlyFile oneHandlerText) ⟨.relative, []⟩ oneHandler.collections)
        vs table := by
  have ht : (onlyFile oneHandlerText).readText onlyPath = .ok (Text.ofString oneHandlerText) := by
    cbv
  have hd : content onlyPath (Text.ofString oneHandlerText) = .ok oneHandler := by decide +kernel
  have hvs {vs : List Value} (h : EntriesAre oneHandler vs) : vs = [.collection 1] := by
    rcases h with ⟨h, -⟩ | h
    · cases h
    · exact (Option.some.inj h).symm
  have hs : oneHandler.collections.Shallow 4 oneHandler.root := by
    simp [oneHandler, Collections.Shallow, Collection.parts]
  have hr : IsRegularManifest onlyPath.parent oneHandler := by
    intro vs h v hv es hes _ _
    obtain rfl := hvs h
    obtain rfl := inside_oneHandler hv
    obtain rfl := Option.some.inj hes
    refine ⟨fun m hm => ?_, [.str "h"], rfl, fun h hh hes hhes => ?_⟩
    · obtain rfl := Option.some.inj hm
      exact .inl ⟨_, rfl⟩
    · obtain rfl := List.mem_singleton.1 hh
      cases hhes
  obtain ⟨added, ⟨hm, table, vs, ho, he, hf⟩ | ⟨hn, -⟩⟩ :=
    load_reads ⟨onlyFile oneHandlerText, []⟩ ht hd (hs.mono (by decide)) hr
  · exact ⟨added, table, vs, ho, he, hf⟩
  · refine absurd ⟨[.collection 1], .inr rfl, fun v hv => ?_⟩ hn
    rw [inside_oneHandler hv]
    exact isEntry_oneHandler

/-- Methods that are no list stop the reading with an error that is not documented, and a text in
place of a list of handlers is read as one handler for each character. -/
theorem load_reads_no_list :
    (load onlyPath).outcome ⟨onlyFile "[{path: a, methods: 5}]", []⟩ =
        (.error (.notIterable "int"), ⟨onlyFile "[{path: a, methods: 5}]", []⟩) ∧
      ¬(ManifestError.notIterable "int").isDocumented ∧
      (load onlyPath).outcome ⟨onlyFile "[{path: a, handlers: fg}]", []⟩ =
        (.ok [.route (some "a") ["get"] [.declared (some "f") (some []),
          .declared (some "g") (some [])]], ⟨onlyFile "[{path: a, handlers: fg}]", []⟩) := by
  have ht : (onlyFile "[{path: a, methods: 5}]").readText onlyPath =
      .ok "[{path: a, methods: 5}]" := by cbv
  have hd : content onlyPath "[{path: a, methods: 5}]" =
      .ok ⟨#[.list [.collection 1], .map [(.str "path", .str "a"), (.str "methods", .int 5)]],
        .collection 0⟩ := by decide +kernel
  have ht' : (onlyFile "[{path: a, handlers: fg}]").readText onlyPath =
      .ok "[{path: a, handlers: fg}]" := by cbv
  have hd' : content onlyPath "[{path: a, handlers: fg}]" =
      .ok ⟨#[.list [.collection 1], .map [(.str "path", .str "a"), (.str "handlers", .str "fg")]],
        .collection 0⟩ := by decide +kernel
  refine ⟨?_, by decide, ?_⟩
  · rw [load, Action.outcome_bind, Action.outcome_files]
    simp only [ht]
    rw [hd, Action.outcome_bind, Action.outcome_ofExcept]
    cbv
  · rw [load, Action.outcome_bind, Action.outcome_files]
    simp only [ht']
    rw [hd', Action.outcome_bind, Action.outcome_ofExcept]
    cbv

end Runs

end Route.Manifest

end RouteAtlas
