import RouteAtlas.Proofs.Files.Reading
import RouteAtlas.Proofs.Json.Limits
import RouteAtlas.Proofs.Store
import RouteAtlas.Proofs.Yaml.Loading

/-!
# What a store is read as

A store is read as the document that its file holds, or as nothing. Reading fails only for a path or
a file with a defect other than its form.
-/

namespace RouteAtlas.Store

variable {store : Store} {fs : Files.System} {t : Text} {d : Loaded} {e : ReadError}

def Decodes (store : Store) (t : Text) (d : Loaded) : Prop :=
  if store.isYaml then Yaml.load t = .ok d
  else ∃ v, Json.ofText true t = .ok v ∧ d = .ofJson v

/-- The file of a store holds a document: the mapping that its text is decoded to. -/
def Holds (store : Store) (fs : Files.System) (d : Loaded) : Prop :=
  ∃ t, fs.readText store.path = .ok t ∧ store.Decodes t d ∧ d.entries?.isSome

/-- A text that is refused for another reason than its form. -/
inductive Exceeds (store : Store) (t : Text) : ReadError → Prop
  | json {e : Json.ReadError} (hs : store.isYaml = false) (he : e ≠ .malformed)
      (h : Json.Stops Json.maxDepth t e) : Exceeds store t (.json e)
  | yaml {e : Yaml.LoadError} (hs : store.isYaml = true) (he : e ≠ .malformed)
      (h : Yaml.StopsLoad t e) : Exceeds store t (.yaml e)

/-- What is the matter with the path or the file of a store where reading fails. -/
inductive Defect (store : Store) (fs : Files.System) : ReadError → Prop
  | badName {e : Files.NameError} (h : Files.NameError.ofText? store.path.toText = some e) :
      Defect store fs (.badName e)
  | encoding {bs : Bytes} {e : Utf8.DecodeError} (hb : fs.readBytes store.path = .ok bs)
      (h : Utf8.decode bs = .error e) : Defect store fs (.encoding e)
  | text {t : Text} {e : ReadError} (ht : fs.readText store.path = .ok t)
      (h : store.Exceeds t e) : Defect store fs e

theorem Decodes.unique {d' : Loaded} (h : store.Decodes t d) (h' : store.Decodes t d') :
    d' = d := by
  unfold Decodes at h h'
  split at h
  · rename_i hs
    rw [if_pos hs, h] at h'
    exact (Except.ok.inj h').symm
  · rename_i hs
    rw [if_neg hs] at h'
    obtain ⟨v, hv, rfl⟩ := h
    obtain ⟨v', hv', rfl⟩ := h'
    rw [hv] at hv'
    cases hv'
    rfl

/-- What a text is parsed as: the document that it is decoded to, nothing, or an error. -/
theorem parse_or_exceeds (store : Store) (t : Text) :
    (∃ d, store.Decodes t d ∧ store.parse t = .ok (some d)) ∨
      (∀ d, ¬ store.Decodes t d) ∧
        (store.parse t = .ok none ∨ ∃ e, store.Exceeds t e ∧ store.parse t = .error e) := by
  unfold parse Decodes
  cases hs : store.isYaml with
  | true =>
    cases hl : Yaml.load t with
    | ok d => exact .inl ⟨d, rfl, rfl⟩
    | error e =>
      refine .inr ⟨by simp, ?_⟩
      have he := Yaml.stopsLoad_of_load hl
      cases e with
      | malformed => exact .inl rfl
      | _ => exact .inr ⟨_, .yaml hs (by simp) he, rfl⟩
  | false =>
    cases hl : Json.ofText true t with
    | ok v => exact .inl ⟨_, ⟨v, rfl, rfl⟩, rfl⟩
    | error e =>
      refine .inr ⟨by simp, ?_⟩
      have he := Json.stops_of_ofText hl
      cases e with
      | malformed => exact .inl rfl
      | _ => exact .inr ⟨_, .json hs (by simp) he, rfl⟩

/-- A store is read as the document in its file. Where there is none it is read as nothing, or its
path or its file has a defect, and reading fails with the error of it. -/
theorem read_or_defect (store : Store) (fs : Files.System) :
    (∃ d, store.Holds fs d ∧ store.read fs = .ok (some d)) ∨
      (∀ d, ¬ store.Holds fs d) ∧
        (store.read fs = .ok none ∨ ∃ e, store.Defect fs e ∧ store.read fs = .error e) := by
  unfold read Holds
  cases ht : fs.readText store.path with
  | error e =>
    refine .inr ⟨by simp, ?_⟩
    match e with
    | .access (.failed f) => exact .inl rfl
    | .access (.badName x) =>
      have hb := Files.System.readText_eq_access.1 ht
      exact .inr ⟨_, .badName (Files.System.readBytes_eq_badName.1 hb), rfl⟩
    | .encoding x =>
      obtain ⟨bs, hb, hd⟩ := Files.System.readText_eq_encoding.1 ht
      exact .inr ⟨_, .encoding hb hd, rfl⟩
  | ok t =>
    obtain ⟨d, hd, hp⟩ | ⟨hn, hp | ⟨e, he, hp⟩⟩ := store.parse_or_exceeds t
    · by_cases hm : d.entries?.isSome
      · refine .inl ⟨d, ⟨t, rfl, hd, hm⟩, ?_⟩
        simp only [hp, bind, Except.bind, pure, Except.pure, Option.filter_some, if_pos hm]
      · refine .inr ⟨?_, .inl ?_⟩
        · rintro d' ⟨_, ⟨⟩, hd', hm'⟩
          exact hm (hd.unique hd' ▸ hm')
        · simp only [hp, bind, Except.bind, pure, Except.pure, Option.filter_some, if_neg hm]
    · refine .inr ⟨?_, .inl (by simp [hp, bind, Except.bind, pure, Except.pure])⟩
      rintro d ⟨_, ⟨⟩, hd, -⟩
      exact hn d hd
    · refine .inr ⟨?_, .inr ⟨e, .text ht he, by simp [hp, bind, Except.bind]⟩⟩
      rintro d ⟨_, ⟨⟩, hd, -⟩
      exact hn d hd

/-- A byte that is not UTF-8 is no reason to read nothing. -/
theorem read_invalidByte : ∃ e,
    kept.read ⟨.dir [("d.json", .file [0xFF])], [], [], []⟩ = .error (.encoding e) :=
  ⟨⟨.start, 0xFF, 0, 1⟩, by cbv⟩

end RouteAtlas.Store
