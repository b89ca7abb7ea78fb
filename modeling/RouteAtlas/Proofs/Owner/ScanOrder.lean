import Mathlib.Data.List.Sort
import RouteAtlas.Owner.Scan
import RouteAtlas.Proofs.Files.Path
import RouteAtlas.Proofs.Files.Reaching
import RouteAtlas.Proofs.Text.Order

/-!
# The order of a scan

Files come before subdirectories, each by name. So a list of files in this order is known by which
files are in it.
-/

namespace RouteAtlas

/-- What holds of a directory if it holds of its entries holds of every node. -/
@[elab_as_elim] theorem Files.Node.induction {motive : Files.Node → Prop}
    (file : ∀ bs, motive (.file bs)) (link : ∀ target, motive (.link target))
    (dir : ∀ es : List (Text × Files.Node), (∀ e ∈ es, motive e.2) → motive (.dir es))
    (n : Files.Node) : motive n := by
  cases n with
  | file bs => exact file bs
  | link target => exact link target
  | dir es => exact dir es fun e _ => Files.Node.induction file link dir e.2
termination_by sizeOf n
decreasing_by
  have h := List.sizeOf_lt_of_mem ‹_›
  obtain ⟨c, m⟩ := e
  simp only [Prod.mk.sizeOf_spec, Files.Node.dir.sizeOf_spec] at h ⊢
  omega

namespace Owner

open Files (Path Node)

def below (dir : Path) (names : List Text) : Path := dir.join ⟨.relative, names⟩

theorem below_eq (dir : Path) (names : List Text) :
    below dir names = ⟨dir.anchor, dir.names ++ names⟩ := rfl

@[simp] theorem below_below (dir : Path) (r s : List Text) :
    below (below dir r) s = below dir (r ++ s) := by
  simp [below_eq]

theorem below_cons (dir : Path) (c : Text) (r : List Text) :
    below dir (c :: r) = below (below dir [c]) r := by
  simp

theorem below_injective {dir : Path} {r s : List Text} (h : below dir r = below dir s) : r = s := by
  simpa [below_eq] using h

/-- The names of a file below a directory: the way to it leads through subdirectories that are not
excluded, and it is neither a directory nor a link to one. -/
inductive Scans (fs : Files.System) : Path → Node → List Text → Prop
  | file {dir : Path} {es : List (Text × Node)} {c : Text} {bs : Bytes}
      (h : (c, .file bs) ∈ es) : Scans fs dir (.dir es) [c]
  | link {dir : Path} {es : List (Text × Node)} {c target : Text} (h : (c, .link target) ∈ es)
      (hd : fs.isDir (below dir [c]) ≠ .ok true) : Scans fs dir (.dir es) [c]
  | inside {dir : Path} {es : List (Text × Node)} {c : Text} {n : Node} {names : List Text}
      (h : (c, n) ∈ es) (hx : c ∉ excluded) (hn : Scans fs (below dir [c]) n names) :
      Scans fs dir (.dir es) (c :: names)

/-- The names of one file stand before those of another one: in a directory its own files come
first, by name, and then its subdirectories, by name. -/
inductive Before : List Text → List Text → Prop
  | files {c d : Text} (hne : c ≠ d) (hle : c.le d) : Before [c] [d]
  | fileFirst {c d e : Text} {s : List Text} : Before [c] (d :: e :: s)
  | directories {c d a b : Text} {r s : List Text} (hne : c ≠ d) (hle : c.le d) :
      Before (c :: a :: r) (d :: b :: s)
  | inside {c a b : Text} {r s : List Text} (h : Before (a :: r) (b :: s)) :
      Before (c :: a :: r) (c :: b :: s)

theorem Before.asymm {r s : List Text} (h : Before r s) : ¬Before s r := by
  induction h with
  | files hne hle =>
    intro h
    cases h with
    | files _ hle' => exact hne (Text.le_antisymm hle hle')
  | fileFirst =>
    intro h
    cases h
  | directories hne hle =>
    intro h
    cases h with
    | directories _ hle' => exact hne (Text.le_antisymm hle hle')
    | inside => exact hne rfl
  | inside _ ih =>
    intro h
    cases h with
    | directories hne => exact hne rfl
    | inside h => exact ih h

def Precedes (dir : Path) (p q : Path) : Prop :=
  ∃ r s, p = below dir r ∧ q = below dir s ∧ Before r s

theorem Before.cons {r s : List Text} (h : Before r s) (c : Text) : Before (c :: r) (c :: s) := by
  cases h with
  | files hne hle => exact .inside (.files hne hle)
  | fileFirst => exact .inside .fileFirst
  | directories hne hle => exact .inside (.directories hne hle)
  | inside h => exact .inside (.inside h)

theorem Precedes.inside {dir p q : Path} {c : Text} (h : Precedes (below dir [c]) p q) :
    Precedes dir p q := by
  obtain ⟨r, s, rfl, rfl, h⟩ := h
  exact ⟨c :: r, c :: s, below_below .., below_below .., h.cons c⟩

theorem Precedes.asymm {dir p q : Path} (h : Precedes dir p q) : ¬Precedes dir q p := by
  obtain ⟨r, s, rfl, rfl, h⟩ := h
  rintro ⟨s', r', hs, hr, h'⟩
  rw [below_injective hs, below_injective hr] at h
  exact h.asymm h'

/-- A list in the order of the scan is known by its members. -/
theorem eq_of_mem_iff {dir : Path} {ps qs : List Path} (hp : ps.Pairwise (Precedes dir))
    (hq : qs.Pairwise (Precedes dir)) (h : ∀ p, p ∈ ps ↔ p ∈ qs) : ps = qs := by
  have : Std.Antisymm (Precedes dir) := ⟨fun _ _ h h' => absurd h' h.asymm⟩
  have : Std.Irrefl (Precedes dir) := ⟨fun _ h => h.asymm h⟩
  exact hp.eq_of_mem_iff hq h

section

variable {fs : Files.System} {dir p q : Path} {es : List (Text × Node)} {n : Node}
  {names : List Text}

theorem Scans.exists_cons (h : Scans fs dir n names) : ∃ c r, names = c :: r := by
  cases h <;> exact ⟨_, _, rfl⟩

theorem subdirectories_eq (fs : Files.System) (dir : Path) (es : List (Text × Node)) :
    subdirectories fs dir es = (es.filter fun e => !excluded.contains e.1).map fun e =>
      (e.1, filesBelow fs (below dir [e.1]) e.2) := by
  induction es with
  | nil => rfl
  | cons e es ih =>
    obtain ⟨c, m⟩ := e
    by_cases h : excluded.contains c = true
    · simp only [subdirectories, h, if_true, ih, List.filter_cons, Bool.not_true]
      rfl
    · simp only [Bool.not_eq_true] at h
      simp only [subdirectories, h, Bool.not_false, List.filter_cons, if_true, List.map_cons, ih]
      rfl

theorem mem_byNameOrder {α : Type} {xs : List (Text × α)} {x : Text × α} :
    x ∈ byNameOrder xs ↔ x ∈ xs := (List.mergeSort_perm xs _).mem_iff

theorem mem_fileNames {c : Text} :
    c ∈ fileNames fs dir es ↔ ∃ m, (c, m) ∈ es ∧ isFileEntry fs (below dir [c]) m := by
  rw [fileNames, Text.sorted, (List.mergeSort_perm _ _).mem_iff]
  simp [below]

theorem mem_filesBelow_dir : p ∈ filesBelow fs dir (.dir es) ↔
    Files.byteLength dir.toText ≤ Files.maxPath ∧
      ((∃ c m, (c, m) ∈ es ∧ isFileEntry fs (below dir [c]) m ∧ p = below dir [c]) ∨
        ∃ c m, (c, m) ∈ es ∧ c ∉ excluded ∧ p ∈ filesBelow fs (below dir [c]) m) := by
  rw [filesBelow]
  split
  · rename_i h
    simp [Nat.not_le.2 h]
  · rename_i h
    have hf : p ∈ (fileNames fs dir es).map (fun c => dir.join ⟨.relative, [c]⟩) ↔
        ∃ c m, (c, m) ∈ es ∧ isFileEntry fs (below dir [c]) m ∧ p = below dir [c] := by
      simp only [List.mem_map, mem_fileNames]
      constructor
      · rintro ⟨c, ⟨m, hm, hi⟩, rfl⟩
        exact ⟨c, m, hm, hi, rfl⟩
      · rintro ⟨c, m, hm, hi, rfl⟩
        exact ⟨c, ⟨m, hm, hi⟩, rfl⟩
    have hs : p ∈ ((byNameOrder (subdirectories fs dir es)).map (·.2)).flatten ↔
        ∃ c m, (c, m) ∈ es ∧ c ∉ excluded ∧ p ∈ filesBelow fs (below dir [c]) m := by
      simp only [List.mem_flatten, List.mem_map, mem_byNameOrder, subdirectories_eq,
        List.mem_filter]
      constructor
      · rintro ⟨_, ⟨_, ⟨⟨c, m⟩, ⟨hm, hx⟩, rfl⟩, rfl⟩, hp⟩
        exact ⟨c, m, hm, by simpa using hx, hp⟩
      · rintro ⟨c, m, hm, hx, hp⟩
        exact ⟨_, ⟨_, ⟨(c, m), ⟨hm, by simpa using hx⟩, rfl⟩, rfl⟩, hp⟩
    rw [List.mem_append, hf, hs]
    simp [Nat.le_of_not_lt h]

theorem isFileEntry_iff {path : Path} {m : Node} : isFileEntry fs path m ↔
    (∃ bs, m = .file bs) ∨ (∃ target, m = .link target) ∧ fs.isDir path ≠ .ok true := by
  cases m with
  | file bs => simp [isFileEntry]
  | dir es => simp [isFileEntry]
  | link target =>
    rw [isFileEntry]
    cases fs.isDir path with
    | ok isDir => simp
    | error e => simp

theorem scans_of_isFileEntry {c : Text} {m : Node} (h : (c, m) ∈ es)
    (hm : isFileEntry fs (below dir [c]) m) : Scans fs dir (.dir es) [c] := by
  rcases isFileEntry_iff.1 hm with ⟨bs, rfl⟩ | ⟨⟨target, rfl⟩, hd⟩
  · exact .file h
  · exact .link h hd

theorem exists_scans_of_mem (h : p ∈ filesBelow fs dir n) :
    ∃ names, p = below dir names ∧ Scans fs dir n names := by
  induction n using Node.induction generalizing dir with
  | file bs => simp [filesBelow] at h
  | link target => simp [filesBelow] at h
  | dir es ih =>
    rcases (mem_filesBelow_dir.1 h).2 with ⟨c, m, hm, hi, rfl⟩ | ⟨c, m, hm, hx, hp⟩
    · exact ⟨[c], rfl, scans_of_isFileEntry hm hi⟩
    · obtain ⟨names, rfl, hn⟩ := ih _ hm hp
      exact ⟨c :: names, below_below .., .inside hm hx hn⟩

theorem usable_of_below {names : List Text} (h : (below dir names).Usable) : dir.Usable :=
  Path.Usable.of_append h

theorem mem_of_scans (h : Scans fs dir n names) (hu : (below dir names).Usable) :
    below dir names ∈ filesBelow fs dir n := by
  induction h with
  | @file dir es c bs h =>
    have hi : isFileEntry fs (below dir [c]) (.file bs) := rfl
    exact mem_filesBelow_dir.2 ⟨(usable_of_below hu).2, .inl ⟨_, _, h, hi, rfl⟩⟩
  | @link dir es c target h hd =>
    have hi : isFileEntry fs (below dir [c]) (.link target) :=
      isFileEntry_iff.2 (.inr ⟨⟨target, rfl⟩, hd⟩)
    exact mem_filesBelow_dir.2 ⟨(usable_of_below hu).2, .inl ⟨_, _, h, hi, rfl⟩⟩
  | @inside dir es c m names h hx hn ih =>
    have hm := ih (below_cons dir c names ▸ hu)
    rw [← below_cons] at hm
    exact mem_filesBelow_dir.2 ⟨(usable_of_below hu).2, .inr ⟨c, m, h, hx, hm⟩⟩

theorem nodup_map_filter {es : List (Text × Node)} (h : (es.map (·.1)).Nodup)
    (p : Text × Node → Bool) : ((es.filter p).map (·.1)).Nodup :=
  h.sublist (List.filter_sublist.map _)

theorem pairwise_fileNames (hw : (es.map (·.1)).Nodup) :
    (fileNames fs dir es).Pairwise fun c d => c ≠ d ∧ c.le d :=
  (Text.nodup_sorted (nodup_map_filter hw _)).and (Text.pairwise_sorted _)

theorem pairwise_byNameOrder {α : Type} {xs : List (Text × α)} (h : (xs.map (·.1)).Nodup) :
    (byNameOrder xs).Pairwise fun x y => x.1 ≠ y.1 ∧ x.1.le y.1 := by
  have hp := List.mergeSort_perm xs fun a b => a.1.le b.1
  have hn : ((byNameOrder xs).map (·.1)).Nodup := ((hp.map _).nodup_iff).2 h
  refine (List.pairwise_map.1 hn).and ?_
  exact List.pairwise_mergeSort (fun x y z => Text.le_trans x.1 y.1 z.1)
    (fun x y => Text.le_total x.1 y.1) xs

/-- The scan goes by its order, if each entry has a name of its own. -/
theorem pairwise_filesBelow (hw : n.WellFormed) :
    (filesBelow fs dir n).Pairwise (Precedes dir) := by
  induction n using Node.induction generalizing dir with
  | file bs => simp [filesBelow]
  | link target => simp [filesBelow]
  | dir es ih =>
    rw [filesBelow]
    split
    · exact .nil
    have hnames : ((subdirectories fs dir es).map (·.1)).Nodup := by
      rw [subdirectories_eq, List.map_map]
      exact nodup_map_filter hw.1 _
    have hs := pairwise_byNameOrder hnames
    -- What is found in a subdirectory has its name before at least one other.
    have hsub {x : Text × List Path} (hx : x ∈ byNameOrder (subdirectories fs dir es)) :
        x.2.Pairwise (Precedes (below dir [x.1])) ∧
          ∀ p ∈ x.2, ∃ a r, p = below dir (x.1 :: a :: r) := by
      rw [mem_byNameOrder, subdirectories_eq] at hx
      obtain ⟨e, he, rfl⟩ := List.mem_map.1 hx
      have hm := List.mem_of_mem_filter he
      refine ⟨ih e hm (Files.Node.entriesWellFormed_iff.1 hw.2 e hm).2, fun p hp => ?_⟩
      obtain ⟨names, rfl, hn⟩ := exists_scans_of_mem hp
      obtain ⟨a, r, rfl⟩ := hn.exists_cons
      exact ⟨a, r, below_below ..⟩
    refine List.pairwise_append.2 ⟨?_, List.pairwise_flatten.2 ⟨?_, ?_⟩, ?_⟩
    · refine List.pairwise_map.2 ((pairwise_fileNames hw.1).imp fun {c d} h => ?_)
      exact ⟨[c], [d], rfl, rfl, .files h.1 h.2⟩
    · rintro ps hps
      obtain ⟨x, hx, rfl⟩ := List.mem_map.1 hps
      exact (hsub hx).1.imp Precedes.inside
    · refine List.pairwise_map.2 (hs.imp_of_mem fun {x y} hx hy h p hp q hq => ?_)
      obtain ⟨a, r, rfl⟩ := (hsub hx).2 p hp
      obtain ⟨b, s, rfl⟩ := (hsub hy).2 q hq
      exact ⟨_, _, rfl, rfl, .directories h.1 h.2⟩
    · rintro p hp q hq
      obtain ⟨c, -, rfl⟩ := List.mem_map.1 hp
      obtain ⟨ps, hps, hq⟩ := List.mem_flatten.1 hq
      obtain ⟨x, hx, rfl⟩ := List.mem_map.1 hps
      obtain ⟨a, r, rfl⟩ := (hsub hx).2 q hq
      exact ⟨[c], _, rfl, rfl, .fileFirst⟩

end

end Owner

end RouteAtlas
