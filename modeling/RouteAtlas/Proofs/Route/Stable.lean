import RouteAtlas.Proofs.Route.Table
import RouteAtlas.Proofs.Text.Word

/-!
# Paths that normalizing keeps

A path is trimmed before its last slash is dropped, so white space before that slash is taken off
only the second time. Every other path is settled after one.
-/

namespace RouteAtlas.Route

section Ends

theorem isNormal_normalize (p : Text) : IsNormal (normalize p) :=
  normalize_eq_absolute p ▸ isNormal_absolute (areSegments_segments _)

theorem segments_of_slashes {slashes : Text} (h : ∀ c ∈ slashes, c = .char '/') :
    segments slashes = [] := by
  induction slashes with
  | nil => rfl
  | cons c r ih =>
    obtain rfl := h c (by simp)
    rw [segments_slash]
    exact ih fun d hd => h d (by simp [hd])

theorem segments_append_slashes {slashes : Text} (h : ∀ c ∈ slashes, c = .char '/') (t : Text) :
    segments (t ++ slashes) = segments t := by
  cases slashes with
  | nil => rw [List.append_nil]
  | cons c r =>
    obtain rfl := h c (by simp)
    have hr : segments r = [] := segments_of_slashes fun d hd => h d (by simp [hd])
    rw [segments_append_slash, hr, List.append_nil]

theorem exists_append_slashes (t : Text) :
    ∃ s slashes, t = s ++ slashes ∧ (∀ c ∈ slashes, c = .char '/') ∧
      s.getLast? ≠ some (.char '/') := by
  induction t using List.reverseRecOn with
  | nil => exact ⟨[], [], rfl, by simp, by simp⟩
  | append_singleton t c ih =>
    by_cases hc : c = .char '/'
    · obtain ⟨s, slashes, rfl, hs, hl⟩ := ih
      refine ⟨s, slashes ++ [c], by simp, fun d hd => ?_, hl⟩
      rcases List.mem_append.1 hd with hd | hd
      · exact hs d hd
      · rw [List.mem_singleton.1 hd, hc]
    · exact ⟨t ++ [c], [], by simp, by simp, by simpa using hc⟩

theorem squeeze_of_single {t : Text} (h : ¬ ("//" : Text) <:+: t) : squeeze t = t := by
  induction t with
  | nil => rfl
  | cons c r ih =>
    have hr : squeeze r = r := ih fun hi => h (List.infix_cons hi)
    rw [squeeze, if_neg, hr]
    rintro ⟨rfl, hd⟩
    obtain ⟨s, rfl⟩ := List.head?_eq_some_iff.1 hd
    exact h ⟨[], s, rfl⟩

theorem getLast?_squeeze (t : Text) : (squeeze t).getLast? = t.getLast? := by
  induction t with
  | nil => rfl
  | cons c r ih =>
    rw [squeeze]
    split
    · rename_i h
      obtain ⟨s, rfl⟩ := List.head?_eq_some_iff.1 h.2
      rw [ih, List.getLast?_cons_cons]
    · rw [List.getLast?_cons, List.getLast?_cons, ih]

theorem getLast?_absolute_segments {t : Text} (hne : t ≠ [])
    (h : t.getLast? ≠ some (.char '/')) : (absolute (segments t)).getLast? = t.getLast? := by
  have hs : (squeeze (.char '/' :: t)).getLast? = t.getLast? := by
    rw [getLast?_squeeze, List.getLast?_cons_of_ne_nil hne]
  rw [← dropFinalSlash_squeeze, dropFinalSlash_of_getLast?_ne (hs ▸ h), hs]

end Ends

section Twice

variable {p : Text}

/-- Of a path in normal form only the end is normalized. -/
theorem normalize_of_isNormal (h : IsNormal p) : normalize p = dropFinalSlash p.trimRight := by
  obtain ⟨r, hr⟩ := List.head?_eq_some_iff.1 h.rooted
  have ht : p.trim = p.trimRight := by
    rw [Text.trim, hr, Text.trimLeft_cons rfl]
  have hc : p.trimRight.head? = some (.char '/') := by
    have := Text.trimRight_append_cons (c := .char '/') rfl [] r
    rw [hr, ← List.nil_append (_ :: r), this]
    rfl
  have hp := Text.trimRight_prefix p
  have hs : squeeze p.trimRight = p.trimRight :=
    squeeze_of_single fun hi => h.single (hi.trans hp.isInfix)
  rw [normalize, ht, rooted, if_pos hc, hs]

theorem dropFinalSlash_of_isNormal (h : IsNormal p) : dropFinalSlash p = p := by
  by_cases hl : p.getLast? = some (.char '/')
  · rw [h.final hl]
    rfl
  · exact dropFinalSlash_of_getLast?_ne hl

theorem normalize_eq_self_iff (h : IsNormal p) :
    normalize p = p ↔ ∀ c ∈ p.getLast?, c.isBlank = false := by
  rw [normalize_of_isNormal h, ← Text.trimRight_eq_self_iff]
  constructor
  · intro he
    have hd := dropFinalSlash_prefix p.trimRight
    have hr := Text.trimRight_prefix p
    rw [he] at hd
    exact hr.eq_of_length_le hd.length_le
  · intro he
    rw [he, dropFinalSlash_of_isNormal h]

/-- White space with nothing but slashes behind it, of which there is one at least. -/
def BlankBeforeSlash (t : Text) : Prop :=
  ∃ s b slashes, t = s ++ b :: slashes ∧ b.isBlank ∧ slashes ≠ [] ∧ ∀ c ∈ slashes, c = .char '/'

theorem getLast?_normalize_of_blankBeforeSlash (h : BlankBeforeSlash p.trim) :
    ∃ b ∈ (normalize p).getLast?, b.isBlank := by
  obtain ⟨s, b, slashes, ht, hb, -, hs⟩ := h
  have hl : (s ++ [b]).getLast? ≠ some (.char '/') := by
    have hne : b ≠ .char '/' := CodePoint.ne_of_class hb (by decide)
    simpa using hne
  have ht : p.trim = (s ++ [b]) ++ slashes := by simpa using ht
  refine ⟨b, ?_, hb⟩
  rw [normalize_eq_absolute, ht, segments_append_slashes hs,
    getLast?_absolute_segments (by simp) hl]
  simp

theorem blankBeforeSlash_of_getLast?_normalize {b : CodePoint}
    (h : (normalize p).getLast? = some b) (hb : b.isBlank) : BlankBeforeSlash p.trim := by
  obtain ⟨s, slashes, ht, hs, hl⟩ := exists_append_slashes p.trim
  have hn : normalize p = absolute (segments s) := by
    rw [normalize_eq_absolute, ht, segments_append_slashes hs]
  have hne : s ≠ [] := by
    rintro rfl
    rw [hn] at h
    obtain rfl : CodePoint.char '/' = b := Option.some.inj h
    exact absurd hb (by decide)
  rw [hn, getLast?_absolute_segments hne hl] at h
  obtain ⟨r, rfl⟩ := List.getLast?_eq_some_iff.1 h
  refine ⟨r, b, slashes, by simpa using ht, hb, ?_, hs⟩
  -- a trimmed text does not end with the white space itself
  rintro rfl
  have he := Text.isBlank_getLast?_trim p b (by simp [ht])
  simp [hb] at he

theorem getLast?_normalize_iff :
    (∀ c ∈ (normalize p).getLast?, c.isBlank = false) ↔ ¬ BlankBeforeSlash p.trim := by
  constructor
  · intro h hs
    obtain ⟨b, hm, hb⟩ := getLast?_normalize_of_blankBeforeSlash hs
    simp [h b hm] at hb
  · intro h c hc
    by_contra hb
    exact h (blankBeforeSlash_of_getLast?_normalize hc (by simpa using hb))

end Twice

/-- An entry as a route of a table without mounts. -/
def Entry.flat (e : Entry) : Node := .route (some e.path) e.methods e.handlers

/-- Walking entries again normalizes their paths and nothing else is put before them. -/
theorem Table.entries_flat (es : List Entry) : Table.entries (es.map Entry.flat) =
    .ok (es.map fun e => ⟨normalize e.path, methodSet e.methods, e.handlers⟩) := by
  have hl : ∀ es : List Entry, foreignsAll (es.map Entry.flat) = [] ∧
      leavesAll [] (es.map Entry.flat) =
        es.map fun e => ⟨[e.path], e.methods, e.handlers⟩ := by
    intro es
    induction es with
    | nil => exact ⟨rfl, rfl⟩
    | cons e es ih =>
      simp [foreignsAll, leavesAll, Node.foreigns, Node.leaves, Entry.flat, ih]
  refine Table.entries_eq_ok.2 ⟨(hl es).1, ?_⟩
  rw [(hl es).2, List.map_map]
  refine List.map_congr_left fun e _ => ?_
  simp [Leaf.entry, fullPath, fullSegments, normalize_eq_absolute]

/-- Normalizing a path again changes its end at most, and changes nothing if and only if no white
space stands before the last slashes. So the entries of a table keep their paths when they are
walked again if and only if none of these ends with white space. -/
theorem normalize_again (p : Text) (t : Table) :
    normalize (normalize p) = dropFinalSlash (normalize p).trimRight ∧
    (normalize (normalize p) = normalize p ↔ ¬ BlankBeforeSlash p.trim) ∧
    ∀ es, t.entries = .ok es → ∃ ds, Table.entries (es.map Entry.flat) = .ok ds ∧
      ds.map (·.path) = es.map (fun e => normalize e.path) ∧
      (ds.map (·.path) = es.map (·.path) ↔
        ∀ e ∈ es, ∀ c ∈ e.path.getLast?, c.isBlank = false) := by
  refine ⟨normalize_of_isNormal (isNormal_normalize p), ?_, fun es h => ?_⟩
  · rw [normalize_eq_self_iff (isNormal_normalize p), getLast?_normalize_iff]
  · have hn : ∀ e ∈ es, IsNormal e.path := by
      obtain ⟨-, rfl⟩ := Table.entries_eq_ok.1 h
      intro e he
      obtain ⟨l, -, rfl⟩ := List.mem_map.1 he
      exact isNormal_fullPath l.parts
    refine ⟨_, Table.entries_flat es, by rw [List.map_map]; rfl, ?_⟩
    rw [List.map_map, List.map_inj_left]
    exact forall₂_congr fun e he => normalize_eq_self_iff (hn e he)

def spacedTable : Table :=
  [.route (some "/b/") ["get"] [], .mount (some "a /") [.route none ["get"] []]]

theorem normalize_again_spacedTable : ¬ BlankBeforeSlash ("/b/" : Text).trim ∧ ∃ es ds,
    spacedTable.entries = .ok es ∧ es.map (·.path) = ["/b", "/a "] ∧
    Table.entries (es.map Entry.flat) = .ok ds ∧ ds.map (·.path) = ["/b", "/a"] ∧
    ¬ ∀ e ∈ es, ∀ c ∈ e.path.getLast?, c.isBlank = false := by
  have h : spacedTable.entries = .ok ((leavesAll [] spacedTable).map Leaf.entry) :=
    Table.entries_eq_ok.2 ⟨rfl, rfl⟩
  have hes : ((leavesAll [] spacedTable).map Leaf.entry).map (·.path) = ["/b", "/a "] := by decide
  obtain ⟨-, hb, ht⟩ := normalize_again "/b/" spacedTable
  obtain ⟨ds, hd, hp, hk⟩ := ht _ h
  have hds : ds.map (·.path) = ["/b", "/a"] := by
    have hn : ["/b", "/a "].map normalize = ["/b", "/a"] := by decide
    rw [hp, ← hn, ← hes, List.map_map]
    rfl
  refine ⟨hb.1 (by decide), _, ds, h, hes, hd, hds, fun hl => ?_⟩
  have he := hk.2 hl
  rw [hes, hds] at he
  exact absurd he (by decide)

/-- White space before the last slash is taken off only when the path is normalized again. -/
theorem normalize_space_slash :
    normalize "a /" = "/a " ∧ normalize (normalize "a /") = "/a" ∧
    normalize (normalize "a /") ≠ normalize "a /" := by decide

end RouteAtlas.Route
