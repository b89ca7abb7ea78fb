import Mathlib.Tactic.Common
import RouteAtlas.Proofs.Json.Reading
import RouteAtlas.Proofs.Store
import RouteAtlas.Proofs.Text.Utf8
import RouteAtlas.Proofs.Value.Denotes

/-!
# Documents that are written and read again

Where a file can be written, a JSON store gives back the document that it was given, its keys in the
same order.
-/

namespace RouteAtlas

namespace Files.System

/-- The directories above a path can be made, and then a file can be opened under it. -/
def Writable (fs : System) (p : Path) : Prop :=
  ∃ dirs opened, fs.madeDirs p.parent = (dirs, none) ∧ dirs.writeBytes p [] = .ok opened

theorem readText_of_readBytes {fs : System} {p : Path} {bs : Bytes} {t : Text}
    (h : fs.readBytes p = .ok bs) (he : Utf8.encode t = .ok bs) (hr : .char '\r' ∉ t) :
    fs.readText p = .ok t := by
  rw [readText, h]
  simp [Except.mapError, bind, Except.bind, pure, Except.pure, Utf8.decode_of_encode he,
    Text.unifyBreaks_of_not_mem hr]

end Files.System

namespace Json

mutual

theorem IsData.hasLongInt {v : Json} (h : v.IsData) : Store.hasLongInt v = false := by
  cases v with
  | int n => exact h
  | list vs => exact ItemsAreData.haveLongInt h
  | obj fs => exact FieldsAreData.haveLongInt h.2
  | shared _ v => exact IsData.hasLongInt (v := v) h
  | _ => rfl

theorem ItemsAreData.haveLongInt {vs : List Json} (h : ItemsAreData vs) :
    Store.itemsHaveLongInt vs = false := by
  cases vs with
  | nil => rfl
  | cons v vs =>
    simp [Store.itemsHaveLongInt, IsData.hasLongInt h.1, ItemsAreData.haveLongInt h.2]

theorem FieldsAreData.haveLongInt {fs : List (Text × Json)} (h : FieldsAreData fs) :
    Store.fieldsHaveLongInt fs = false := by
  cases fs with
  | nil => rfl
  | cons f fs =>
    cases f with | mk k v =>
    simp [Store.fieldsHaveLongInt, IsData.hasLongInt h.2.1, FieldsAreData.haveLongInt h.2.2]

end

theorem Layout.isWhole_indented : Layout.indented.IsWhole := ⟨rfl, rfl, rfl⟩

end Json

namespace Store

variable {store : Store} {v : Json} {s s' : Session} {t : Text}

theorem exists_write_eq_ok (hw : s.files.Writable store.path) (ht : store.text v = .ok t)
    {bs : Bytes} (he : Utf8.encode t = .ok bs) :
    ∃ fs, (store.write v).outcome s = (.ok store.path, { s with files := fs }) ∧
      fs.readBytes store.path = .ok bs := by
  obtain ⟨dirs, opened, hm, ho⟩ := hw
  obtain ⟨fs, hf⟩ := Files.System.exists_writeBytes_writeBytes ho bs
  refine ⟨fs, ?_, Files.System.readBytes_writeBytes hf⟩
  simp only [write, Action.outcome_bind, Action.outcome_ofExcept, Action.outcome_mapError,
    Action.outcome_makeDirs, Action.outcome_change, Action.outcome_pure, ht, hm, ho, he, hf,
    Except.mapError]

/-- What was written is read as the text holds it. -/
theorem read_eq_parse {fs : Files.System} (h : fs.readText store.path = .ok t) {d : Loaded}
    (hp : store.parse t = .ok (some d)) (hd : d.entries?.isSome) :
    store.read fs = .ok (some d) := by
  rw [read, h]
  simp [hp, bind, Except.bind, pure, Except.pure, Option.filter, hd]

theorem exists_write_read (hw : s.files.Writable store.path) (ht : store.text v = .ok t)
    (hu : t.isWhole) (hr : .char '\r' ∉ t) {d : Loaded} (hp : store.parse t = .ok (some d))
    (hd : d.Denotes v) {fs : List (Text × Json)} (hv : v.bare = .obj fs) :
    ∃ s', (store.write v).outcome s = (.ok store.path, s') ∧
      store.read s'.files = .ok (some d) := by
  obtain ⟨bs, he⟩ := Utf8.exists_encode_iff.2 hu
  obtain ⟨files, hs, hb⟩ := exists_write_eq_ok hw ht he
  refine ⟨_, hs, read_eq_parse (Files.System.readText_of_readBytes hb he hr) hp ?_⟩
  obtain ⟨es, hes⟩ := hd.exists_entries hv
  exact hes ▸ rfl

section Json

theorem text_of_isData (hs : store.isYaml = false) (hv : v.IsData) :
    store.text v = .ok (v.toText .indented ++ "\n") := by
  rw [text, hv.hasLongInt, hs]
  rfl

theorem parse_toText (hs : store.isYaml = false) (hv : v.IsData) (hd : v.depth ≤ Json.maxDepth) :
    store.parse (v.toText .indented ++ "\n") = .ok (some (.ofJson v.unmarked)) := by
  rw [parse, hs, Json.ofText_toText hv hd]
  rfl

/-- An object of plain data that is written under a JSON name is read back as the same object, with
the same order of keys at every level. -/
theorem read_write_json (hs : store.isYaml = false) (hw : s.files.Writable store.path)
    (hv : v.IsData) {fs : List (Text × Json)} (ho : v.bare = .obj fs)
    (hd : v.depth ≤ Json.maxDepth) :
    ∃ s' d, (store.write v).outcome s = (.ok store.path, s') ∧
      store.read s'.files = .ok (some d) ∧ d.Denotes v := by
  have hu : (v.toText .indented ++ "\n").isWhole := by
    rw [Text.isWhole_append, Json.toText, Json.isWhole_render Json.Layout.isWhole_indented,
      hv.isWhole]
    rfl
  have hr : .char '\r' ∉ v.toText .indented ++ "\n" := by
    simpa [Text.ofString, Json.toText] using Json.return_not_mem_render 0 hv
  have hden : (Loaded.ofJson v.unmarked).Denotes v :=
    Collections.denotes_unmarked.1 (Loaded.denotes_ofJson _)
  obtain ⟨s', hs', hread⟩ :=
    exists_write_read hw (text_of_isData hs hv) hu hr (parse_toText hs hv hd) hden ho
  exact ⟨s', _, hs', hread, hden⟩

def nested : Json :=
  .obj [("b", .list [.int (-20), .null, .obj [("\t\"é", .str "\r\n"), ("", .bool true)]]),
    ("a", .obj [])]

theorem read_write_json_nested : ∃ s' d,
    (kept.write nested).outcome ⟨keptFiles, []⟩ = (.ok kept.path, s') ∧
      kept.read s'.files = .ok (some d) ∧ d.Denotes nested := by
  have hw : keptFiles.Writable kept.path :=
    ⟨keptFiles, ⟨.dir [("d.json", .file [])], [], [], []⟩, by cbv, by cbv⟩
  have hd : nested.IsData := by
    have hi : Decimal.tooLong (-20 : Int).natAbs = false :=
      Decimal.tooLong_eq_false (show 20 < 10 ^ 2 by decide) (by decide)
    simp only [nested, Json.IsData, Json.ItemsAreData, Json.FieldsAreData, hi]
    decide
  exact read_write_json (by cbv) hw hd rfl (by decide)

end Json

end Store

end RouteAtlas
