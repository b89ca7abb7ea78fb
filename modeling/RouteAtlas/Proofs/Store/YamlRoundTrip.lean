import RouteAtlas.Proofs.Store.RoundTrip
import RouteAtlas.Proofs.Yaml.RoundTrip

/-!
# Documents that are written as YAML and read again

A YAML store gives back a document each of whose texts comes back from its lines. One with a
next-line character between single quotes does not.
-/

namespace RouteAtlas

namespace Yaml

theorem not_isLone_of_isOrdinary {c : CodePoint} (h : isOrdinary c) : c.isLone = false := by
  cases c with
  | char c => rfl
  | lone n =>
    obtain ⟨hl, hu⟩ := CodePoint.toNat_lone n
    simp [isOrdinary, within] at h
    omega

theorem AllOrdinary.isWhole {t : Text} (h : AllOrdinary t) : t.isWhole := by
  simpa [Text.isWhole] using fun c hc => not_isLone_of_isOrdinary (h c hc)

theorem AllOrdinary.return_not_mem {t : Text} (h : AllOrdinary t) : .char '\r' ∉ t :=
  fun hr => absurd (h _ hr) (by decide)

end Yaml

namespace Store

variable {store : Store} {v : Json} {s : Session} {env : Nat → Json}

theorem text_yaml (hs : store.isYaml) (hv : v.IsData) : store.text v = .ok (Yaml.toText v) := by
  rw [text, hv.hasLongInt, hs]
  rfl

theorem parse_yaml (hs : store.isYaml) {t : Text} {d : Loaded} (h : Yaml.load t = .ok d) :
    store.parse t = .ok (some d) := by
  rw [parse, hs, if_pos rfl, h]

/-- An object of plain data that is written under a YAML name is read back as the same object, with
the same order of keys at every level, wherever objects stand in several places, if all its texts
come back from their lines. -/
theorem read_write_yaml (hs : store.isYaml) (hw : s.files.Writable store.path) (hv : v.IsData)
    {fs : List (Text × Json)} (ho : v.bare = .obj fs) (hm : v.Shares env)
    (hk : Json.FieldsKeep 0 fs) (hd : v.depth ≤ Yaml.Node.Reader.maxDepth) :
    ∃ s' d, (store.write v).outcome s = (.ok store.path, s') ∧
      store.read s'.files = .ok (some d) ∧ d.Denotes v := by
  obtain ⟨d, hload, hden⟩ := Yaml.exists_load ho hv hm hk hd
  have ht := Yaml.allOrdinary_toText ho hv hm hk
  obtain ⟨s', hs', hread⟩ := exists_write_read hw (text_yaml hs hv) ht.isWhole ht.return_not_mem
    (parse_yaml hs hload) hden ho
  exact ⟨s', d, hs', hread, hden⟩

def unwritten : Store := ⟨⟨.relative, ["d.yaml"]⟩⟩

def noFiles : Files.System := ⟨.dir [], [], [], []⟩

theorem writable_unwritten : noFiles.Writable unwritten.path :=
  ⟨noFiles, ⟨.dir [("d.yaml", .file [])], [], [], []⟩, by cbv, by cbv⟩

/-- An object that stands in two places, with texts of every style, one of them folded. -/
def twice : Json :=
  let part : Json := .shared 0 (.obj [("x: y", .str "null"), ("", .str "\t\"é"),
    ("z", .str (List.replicate 60 [.char 'a', .char ' ']).flatten)])
  .obj [("b", .list [part, .int (-20), .null, .list []]), ("a", part), ("two\nlines", .bool true)]

theorem read_write_yaml_twice : ∃ s' d,
    (unwritten.write twice).outcome ⟨noFiles, []⟩ = (.ok unwritten.path, s') ∧
      unwritten.read s'.files = .ok (some d) ∧ d.Denotes twice := by
  have hv : twice.IsData := by
    have hi : Decimal.tooLong (-20 : Int).natAbs = false :=
      Decimal.tooLong_eq_false (show 20 < 10 ^ 2 by decide) (by decide)
    simp only [twice, Json.IsData, Json.ItemsAreData, Json.FieldsAreData, hi]
    decide +kernel
  have hm : twice.Shares fun _ => .obj [("x: y", .str "null"), ("", .str "\t\"é"),
      ("z", .str (List.replicate 60 [.char 'a', .char ' ']).flatten)] := by
    simp [twice, Json.Shares, Json.ItemsShare, Json.FieldsShare, Json.bare]
  exact read_write_yaml (by cbv) writable_unwritten hv rfl hm (by decide +kernel)
    (by decide +kernel)

/-- A text that is broken between single quotes, where the character is no line feed. -/
def nextLine : Json := .obj [("a", .str "a\u0085b")]

/-- The next-line character is written as it is and read as a space. -/
theorem read_write_yaml_nextLine : unwritten.isYaml ∧ noFiles.Writable unwritten.path ∧
    nextLine.IsData ∧ ∃ s' d, (unwritten.write nextLine).outcome ⟨noFiles, []⟩ =
      (.ok unwritten.path, s') ∧ unwritten.read s'.files = .ok (some d) ∧
        ¬ d.Denotes nextLine := by
  have hs : unwritten.isYaml := by cbv
  have hv : nextLine.IsData := ⟨by decide, by decide, show Text.isWhole _ by decide, trivial⟩
  let text : Text := "a: 'a\u0085  b'\n"
  have ht : unwritten.text nextLine = .ok text := by
    rw [text_yaml hs hv, show Yaml.toText nextLine = text by decide +kernel]
  have hl : Yaml.load text = .ok ⟨#[.map [(.str "a", .str "a b")]], .collection 0⟩ := by
    decide +kernel
  obtain ⟨bytes, he⟩ := Utf8.exists_encode_iff.2 (show Text.isWhole text by decide)
  obtain ⟨fs, hw, hb⟩ := exists_write_eq_ok (s := ⟨noFiles, []⟩) writable_unwritten ht he
  have hr := Files.System.readText_of_readBytes hb he (show .char '\r' ∉ text by decide)
  refine ⟨hs, writable_unwritten, hv, _, _, hw, read_eq_parse hr (parse_yaml hs hl) rfl, ?_⟩
  rintro ⟨es, hes, hf⟩
  cases hes
  have ha : Value.str "a b" = .str "a\u0085b" := hf.2.1
  exact absurd ha (by decide)

end Store

end RouteAtlas
