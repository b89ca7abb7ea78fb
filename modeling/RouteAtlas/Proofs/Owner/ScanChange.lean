import Mathlib
import RouteAtlas.Proofs.Owner.Scan

/-!
# Trees that are scanned alike

The order of directory listings does not count in a scan. A file that cannot be read can be taken
away, as long as nothing that counts is reached through it.
-/

namespace RouteAtlas

open Files (Path Place Node)
open Files.Node (Alike PartOf WellFormed)

namespace Files.System

variable {fs fs' : System} {p : Path} {q : Place} {bs : Bytes} {es : List (Text × Node)}

theorem locate_of_usable (h : p.Usable) (goal : Files.Goal) :
    fs.locate goal p =
      (fs.tree.resolve goal 40 (if p.isAbsolute then [] else fs.working) p.names).mapError
        fun c => .failed ⟨c, p⟩ := by
  rw [locate, h.1]
  exact if_neg (Nat.not_lt.2 h.2)

theorem node?_of_locate (h : fs.locate .node p = .ok (q, some (.dir es))) :
    fs.node? p = .ok (some (.dir es)) := by
  rw [node?, h]

theorem isDir_eq_ok_true : fs.isDir p = .ok true ↔
    ∃ q es, fs.locate .node p = .ok (q, some (.dir es)) := by
  unfold isDir node?
  rcases fs.locate .node p with e | ⟨q, _ | n⟩
  · cases e with
    | badName e => simp [Except.map]
    | failed f =>
      by_cases h : f.cause = .nameTooLong <;> simp [Except.map, h]
  · simp [Except.map]
  · cases n <;> simp [Except.map, Node.isDir]

theorem exists_readTextLenient_iff : (∃ t, fs.readTextLenient p = .ok t) ↔
    ∃ q bs, fs.locate .node p = .ok (q, some (.file bs)) := by
  unfold readTextLenient
  constructor
  · rintro ⟨t, ht⟩
    cases hb : fs.readBytes p with
    | error e =>
      rw [hb] at ht
      cases ht
    | ok bs =>
      obtain ⟨q, hq⟩ := readBytes_eq_ok.1 hb
      exact ⟨q, bs, hq⟩
  · rintro ⟨q, bs, h⟩
    rw [readBytes_eq_ok.2 ⟨q, h⟩]
    exact ⟨_, rfl⟩

theorem readTextLenient_eq_error {e : Files.AccessError} (h : fs.locate .node p = .error e) :
    fs.readTextLenient p = .error e := by
  rw [readTextLenient, readBytes, h]
  rfl

theorem readTextLenient_congr (h : fs.readBytes p = .ok bs) (h' : fs'.readBytes p = .ok bs) :
    fs.readTextLenient p = fs'.readTextLenient p := by
  rw [readTextLenient, readTextLenient, h, h']

theorem readTextLenient_of_partOf (ht : PartOf fs.tree fs'.tree) (hw : fs'.working = fs.working)
    (h : ∃ t, fs.readTextLenient p = .ok t) : fs.readTextLenient p = fs'.readTextLenient p := by
  obtain ⟨q, bs, hq⟩ := exists_readTextLenient_iff.1 h
  have hb := readBytes_eq_ok.2 ⟨q, hq⟩
  exact readTextLenient_congr hb (readBytes_of_partOf ht hw hb)

end Files.System

namespace Files.Node

/-- Two trees with the same nodes at all places, where directories may list their entries in
different orders. -/
def Relisted (tree tree' : Node) : Prop := ∀ q, Alike (tree.at? q) (tree'.at? q)

theorem Relisted.symm {tree tree' : Node} (h : Relisted tree tree') : Relisted tree' tree :=
  fun q => (h q).symm

theorem Relisted.partOf {tree tree' : Node} (h : Relisted tree tree') : PartOf tree tree' :=
  fun q _ hq => hq ▸ h q

end Files.Node

namespace Owner

/-- A file of the scan that is read: its name is one of controllers, and it has a text. -/
structure IsScanned (fs : Files.System) (n : Naming) (dir : Path) (node : Node) (p : Path) :
    Prop where
  below : ∃ names, p = below dir names ∧ Scans fs dir node names
  matching : n.matchesFile p.name
  readable : ∃ t, fs.readTextLenient p = .ok t

def Unreadable (fs : Files.System) (p : Path) : Prop :=
  ∃ f, fs.readTextLenient p = .error (.failed f)

section

variable {fs fs' : Files.System} {n : Naming} {dir p : Path} {root : Place}
  {es es' : List (Text × Node)} {node : Node} {names : List Text}

theorem usable_of_readable (h : ∃ t, fs.readTextLenient p = .ok t) : p.Usable := by
  obtain ⟨q, bs, hq⟩ := Files.System.exists_readTextLenient_iff.1 h
  obtain ⟨he, hl, -⟩ := Files.System.locate_node_eq_ok_iff.1 hq
  exact ⟨he, hl⟩

/-- The files that are read, in the order of the scan. -/
theorem exists_scanned (fs : Files.System) (n : Naming) (dir : Path) (hw : node.WellFormed) :
    ∃ files, (∀ p, p ∈ files ↔ IsScanned fs n dir node p) ∧ files.Pairwise (Precedes dir) ∧
      mapOf fs n files = mapOf fs n (controllerFiles fs n dir node) := by
  refine ⟨(controllerFiles fs n dir node).filter fun p => (fs.readTextLenient p).isOk, ?_, ?_, ?_⟩
  · intro p
    have hr : (fs.readTextLenient p).isOk ↔ ∃ t, fs.readTextLenient p = .ok t := by
      cases fs.readTextLenient p <;> simp [Except.isOk, Except.toBool]
    rw [List.mem_filter, hr, controllerFiles, List.mem_filter]
    constructor
    · rintro ⟨⟨hm, hn⟩, ht⟩
      exact ⟨exists_scans_of_mem hm, hn, ht⟩
    · rintro ⟨⟨names, rfl, hs⟩, hn, ht⟩
      exact ⟨⟨mem_of_scans hs (usable_of_readable ht), hn⟩, ht⟩
  · exact ((pairwise_filesBelow hw).filter _).filter _
  · refine mapOf_filter _ fun p _ hk => ?_
    unfold exported
    cases h : fs.readTextLenient p with
    | ok t => simp [h, Except.isOk, Except.toBool] at hk
    | error e => rfl

theorem mapOf_controllerFiles_congr {node' : Node} (hw : node.WellFormed) (hw' : node'.WellFormed)
    (h : ∀ p, IsScanned fs n dir node p ↔ IsScanned fs' n dir node' p)
    (ht : ∀ p, IsScanned fs n dir node p → fs.readTextLenient p = fs'.readTextLenient p) :
    mapOf fs n (controllerFiles fs n dir node) = mapOf fs' n (controllerFiles fs' n dir node') := by
  obtain ⟨files, hm, hp, hf⟩ := exists_scanned fs n dir hw
  obtain ⟨files', hm', hp', hf'⟩ := exists_scanned fs' n dir hw'
  obtain rfl : files = files' :=
    eq_of_mem_iff hp hp' fun p => (hm p).trans ((h p).trans (hm' p).symm)
  rw [← hf, ← hf']
  refine mapOf_congr fun p hp => ?_
  rw [exported, exported, ht p ((hm p).1 hp)]

theorem lookup_of_mem {c : Text} (hw : fs.tree.WellFormed) (hp : fs.tree.at? root = some (.dir es))
    (h : (c, node) ∈ es) : fs.tree.at? (root ++ [c]) = some node :=
  (Node.at?_append_singleton hp c).trans ((Pairs.lookup_eq_some_iff_mem (hw.at? hp).1).2 h)

theorem Scans.exists_dir (h : Scans fs dir node names) : ∃ es, node = .dir es := by
  cases h <;> exact ⟨_, rfl⟩

theorem Scans.at? (h : Scans fs dir node names) (hw : fs.tree.WellFormed)
    (hp : fs.tree.at? root = some node) :
    (∃ bs, fs.tree.at? (root ++ names) = some (.file bs)) ∨
      (∃ target, fs.tree.at? (root ++ names) = some (.link target)) ∧
        fs.isDir (Owner.below dir names) ≠ .ok true := by
  induction h generalizing root with
  | file h => exact .inl ⟨_, lookup_of_mem hw hp h⟩
  | link h hd => exact .inr ⟨⟨_, lookup_of_mem hw hp h⟩, hd⟩
  | @inside dir es c m names h hx hn ih =>
    rw [List.append_cons, below_cons]
    exact ih (lookup_of_mem hw hp h)

theorem Scans.not_dir (h : Scans fs dir node names) (hw : fs.tree.WellFormed)
    (hp : fs.tree.at? root = some node) :
    ∀ es, fs.tree.at? (root ++ names) ≠ some (.dir es) := by
  rcases h.at? hw hp with ⟨bs, hb⟩ | ⟨⟨target, ht⟩, -⟩
  · simp [hb]
  · simp [ht]

/-- A file is scanned in another tree, too, if all that stands on the way to it stands there. -/
theorem Scans.transfer (h : Scans fs dir node names) (hw : fs.tree.WellFormed)
    (hp : fs.tree.at? root = some node) (hp' : fs'.tree.at? root = some (.dir es'))
    (hv : ∀ r m, r ≠ [] → r <+: names → fs.tree.at? (root ++ r) = some m →
      Alike (some m) (fs'.tree.at? (root ++ r)))
    (hd : fs'.isDir (Owner.below dir names) ≠ .ok true) : Scans fs' dir (.dir es') names := by
  induction h generalizing root es' with
  | @file dir es c bs h =>
    have ha := hv [c] _ (by simp) (List.prefix_refl _) (lookup_of_mem hw hp h)
    rw [Node.at?_append_singleton hp'] at ha
    exact .file (Node.mem_of_lookup ha.file)
  | @link dir es c target h _ =>
    have ha := hv [c] _ (by simp) (List.prefix_refl _) (lookup_of_mem hw hp h)
    rw [Node.at?_append_singleton hp'] at ha
    exact .link (Node.mem_of_lookup ha.link) hd
  | @inside dir es c m names h hx hn ih =>
    have hm := lookup_of_mem hw hp h
    have ha := hv [c] _ (by simp) (by simp) hm
    obtain ⟨fs, rfl⟩ := hn.exists_dir
    obtain ⟨gs, hg⟩ := ha.of_dir
    refine .inside (Node.mem_of_lookup ((Node.at?_append_singleton hp' c).symm.trans hg)) hx
      (ih hm hg (fun r m hr hpre hat => ?_) (below_cons dir c names ▸ hd))
    rw [← List.append_cons] at hat ⊢
    exact hv (c :: r) m (by simp) (by simpa using hpre) hat

/-- A file that is read is a file wherever all that is read can be read. -/
theorem not_isDir_of_readable (h : ∃ t, fs.readTextLenient p = .ok t) : fs.isDir p ≠ .ok true := by
  intro hd
  obtain ⟨q, bs, hq⟩ := Files.System.exists_readTextLenient_iff.1 h
  obtain ⟨q', es, hq'⟩ := Files.System.isDir_eq_ok_true.1 hd
  rw [hq] at hq'
  cases hq'

/-- A file that is read is read in another tree, too, if all that stands on the way to it stands
there. -/
theorem IsScanned.transfer (h : IsScanned fs n dir node p) (hw : fs.tree.WellFormed)
    (hp : fs.tree.at? root = some node) (hp' : fs'.tree.at? root = some (.dir es'))
    (hv : ∀ names r m, p = Owner.below dir names → Scans fs dir node names → r <+: names →
      fs.tree.at? (root ++ r) = some m → Alike (some m) (fs'.tree.at? (root ++ r)))
    (hr : fs.readTextLenient p = fs'.readTextLenient p) :
    IsScanned fs' n dir (.dir es') p := by
  obtain ⟨⟨names, rfl, hs⟩, hn, ht⟩ := h
  rw [hr] at ht
  exact ⟨⟨names, rfl, hs.transfer hw hp hp' (fun r m _ hpre hm => hv names r m rfl hs hpre hm)
    (not_isDir_of_readable ht)⟩, hn, ht⟩

theorem IsScanned.of_partOf (h : IsScanned fs n dir node p) (hw : fs.tree.WellFormed)
    (hp : fs.tree.at? root = some node) (hp' : fs'.tree.at? root = some (.dir es'))
    (ht : PartOf fs.tree fs'.tree) (hd : fs'.working = fs.working) :
    IsScanned fs' n dir (.dir es') p :=
  h.transfer hw hp hp' (fun _ r m _ _ _ hm => ht (root ++ r) m hm)
    (Files.System.readTextLenient_of_partOf ht hd h.readable)

theorem ofText?_of_unreadable (h : Unreadable fs p) :
    Files.NameError.ofText? p.toText = none := by
  obtain ⟨f, hf⟩ := h
  cases he : Files.NameError.ofText? p.toText with
  | none => rfl
  | some e =>
    have hl : fs.locate .node p = .error (.badName e) := by rw [Files.System.locate, he]
    rw [Files.System.readTextLenient_eq_error hl] at hf
    cases hf

theorem not_readable_of_unreadable (h : Unreadable fs p) : ¬∃ t, fs.readTextLenient p = .ok t := by
  obtain ⟨f, hf⟩ := h
  simp [hf]

theorem exported_of_unreadable (h : Unreadable fs p) : exported fs n p = [] := by
  obtain ⟨f, hf⟩ := h
  rw [exported, hf]

theorem start_ne {u : Place} (hd : fs.locate .node dir = .ok (root, some (.dir es)))
    (hu : ∀ es, fs.tree.at? u ≠ some (.dir es)) :
    (if dir.isAbsolute then [] else fs.working) ≠ u := by
  obtain ⟨-, -, ⟨b, hb⟩, hat⟩ := Files.System.locate_node_eq_ok_iff.1 hd
  have hdir : ∃ es, fs.tree.at? (if dir.isAbsolute then [] else fs.working) = some (.dir es) := by
    cases hn : dir.names with
    | nil =>
      rw [hn] at hb
      generalize (if dir.isAbsolute then [] else fs.working) = start at hb
      cases hb
      exact ⟨es, hat⟩
    | cons c r =>
      rw [hn] at hb
      exact hb.exists_dir
  obtain ⟨es', he⟩ := hdir
  exact fun h => hu es' (h ▸ he)

section Change

variable {tree : Node}

/-- What a scan finds does not depend on how directories list their entries. -/
theorem exists_mapOf_relisted (hw : fs.tree.WellFormed) (hw' : tree.WellFormed)
    (h : fs.tree.Relisted tree) (hd : fs.locate .node dir = .ok (root, some (.dir es))) :
    ∃ es', { fs with tree := tree }.node? dir = .ok (some (.dir es')) ∧
      mapOf fs n (controllerFiles fs n dir (.dir es)) =
        mapOf { fs with tree := tree } n
          (controllerFiles { fs with tree := tree } n dir (.dir es')) := by
  have hp := (Files.System.at?_of_locate hd).1
  obtain ⟨m, hm, ha⟩ :=
    Files.System.locate_of_partOf { fs with tree := tree } h.partOf rfl hd
  obtain ⟨es', he⟩ := ha.of_dir
  obtain rfl := Option.some.inj he
  have hp' := (Files.System.at?_of_locate hm).1
  refine ⟨es', Files.System.node?_of_locate hm, ?_⟩
  refine mapOf_controllerFiles_congr (hw.at? hp) (hw'.at? hp')
    (fun p => ⟨fun hs => ?_, fun hs => ?_⟩)
    fun p hs => Files.System.readTextLenient_of_partOf h.partOf rfl hs.readable
  · exact hs.of_partOf hw hp hp' h.partOf rfl
  · exact hs.of_partOf hw' hp' hp h.symm.partOf rfl

/-- A file of the scan that cannot be read leads nowhere with no more links to follow than are left
behind the scanned directory: the scan itself could follow it to the same place. -/
theorem not_leads_of_unreadable {front : List Text} {c : Text} (hw : fs.tree.WellFormed)
    (hd : fs.locate .node dir = .ok (root, some (.dir es)))
    (hs : Scans fs dir (.dir es) (front ++ [c]))
    (hu : Unreadable fs (Owner.below dir (front ++ [c])))
    (hl : Files.byteLength (Owner.below dir (front ++ [c])).toText ≤ Files.maxPath) {left k j : Nat}
    {q : Place} (hk : k ≤ left)
    (hdir : fs.tree.Leads 40 (if dir.isAbsolute then [] else fs.working) dir.names left root) :
    ¬fs.tree.Leads k (root ++ front) [c] j q := by
  intro hc
  obtain ⟨-, -, -, hat⟩ := Files.System.locate_node_eq_ok_iff.1 hd
  obtain ⟨gs, hg⟩ := hc.exists_dir
  obtain ⟨i, rfl⟩ := Nat.exists_eq_add_of_le hk
  have hall := (hdir.append (hw.leads hg _)).append (hc.add i)
  rw [List.append_assoc] at hall
  obtain ⟨m, hm, hlink⟩ := hc.exists_at? ⟨_, hg, by simp⟩
  have hloc : fs.locate .node (Owner.below dir (front ++ [c])) = .ok (q, some m) :=
    Files.System.locate_node_eq_ok_iff.2 ⟨ofText?_of_unreadable hu, hl, ⟨_, hall⟩, hm⟩
  cases m with
  | file bs =>
    exact not_readable_of_unreadable hu
      (Files.System.exists_readTextLenient_iff.2 ⟨q, bs, hloc⟩)
  | link target => exact hlink target rfl
  | dir hs' =>
    have hisDir := Files.System.isDir_eq_ok_true.2 ⟨q, hs', hloc⟩
    rcases hs.at? hw hat with ⟨bs, hbs⟩ | ⟨-, hnot⟩
    · rw [← List.append_assoc] at hbs
      have hname := (Node.entriesWellFormed_iff.1 (hw.at? hg).2 _
        (Node.mem_of_lookup ((Node.at?_append_singleton hg c).symm.trans hbs))).1
      have hone : fs.tree.Leads k (root ++ front) [c] k (root ++ front ++ [c]) :=
        .enter hg hname hbs (by simp) trivial .done
      obtain ⟨-, rfl⟩ := hc.unique hone
      rw [hbs] at hm
      cases hm
    · exact hnot hisDir

/-- A file that is read is not reached through one that cannot be read, unless the path of this one
is too long. -/
theorem leadsPast_of_readable (hw : fs.tree.WellFormed)
    (hd : fs.locate .node dir = .ok (root, some (.dir es)))
    (hs : Scans fs dir (.dir es) names) (hu : Unreadable fs (Owner.below dir names))
    (hl : Files.byteLength (Owner.below dir names).toText ≤ Files.maxPath)
    (hpast : fs.LeadsPast dir (root ++ names)) {rest : List Text}
    (hr : ∃ t, fs.readTextLenient (Owner.below dir rest) = .ok t) :
    fs.LeadsPast (Owner.below dir rest) (root ++ names) := by
  obtain ⟨q, bs, hq⟩ := Files.System.exists_readTextLenient_iff.1 hr
  obtain ⟨-, -, ⟨b, hb⟩, -⟩ := Files.System.locate_node_eq_ok_iff.1 hq
  obtain ⟨-, -, ⟨left, hdir⟩, -⟩ := Files.System.locate_node_eq_ok_iff.1 hd
  obtain ⟨b', q', hp⟩ := hpast
  obtain ⟨rfl, rfl⟩ := hp.unique hdir
  have happ : fs.tree.Leads 40 _ (dir.names ++ rest) b q := hb
  obtain ⟨k, r, hfirst, hrest⟩ := happ.exists_of_append
  obtain ⟨rfl, rfl⟩ := hfirst.unique hdir
  rcases hrest.past_or_through (r ++ names) with h | ⟨k', place, c, ys, he, hk, hthrough⟩
  · exact ⟨b, q, hp.append h⟩
  · exfalso
    obtain ⟨d, ds, hds⟩ := hs.exists_cons
    obtain ⟨front, rfl⟩ : ∃ front, names = front ++ [c] := by
      rcases List.eq_nil_or_concat names with rfl | ⟨front, c', rfl⟩
      · cases hds
      · rw [List.concat_eq_append, ← List.append_assoc] at he
        obtain ⟨-, hc⟩ := List.append_inj' he rfl
        exact ⟨front, by rw [List.concat_eq_append, hc]⟩
    rw [← List.append_assoc] at he
    obtain ⟨rfl, -⟩ := List.append_inj' he rfl
    have hsplit : fs.tree.Leads k' (r ++ front) ([c] ++ ys) b q := hthrough
    obtain ⟨j, q', hc, -⟩ := hsplit.exists_of_append
    exact not_leads_of_unreadable hw hd hs hu hl hk hdir hc

/-- The text that a path leads to past a place is still there when what is at the place is taken
away. -/
theorem readTextLenient_erase {u : Place} (hu : ∀ es, fs.tree.at? u ≠ some (.dir es))
    (hs : (if p.isAbsolute then [] else fs.working) ≠ u) (hp : fs.LeadsPast p u)
    (ht : ∃ t, fs.readTextLenient p = .ok t) :
    fs.readTextLenient p = { fs with tree := fs.tree.erase u }.readTextLenient p := by
  obtain ⟨q, bs, hq⟩ := Files.System.exists_readTextLenient_iff.1 ht
  obtain ⟨m, hm, ha⟩ := Files.System.locate_erase hu hp hs hq
  obtain rfl := Option.some.inj ha.file
  exact Files.System.readTextLenient_congr (Files.System.readBytes_eq_ok.2 ⟨q, hq⟩)
    (Files.System.readBytes_eq_ok.2 ⟨q, hm⟩)

theorem Scans.ne_of_unreadable {rest r : List Text} (h : Scans fs dir node rest)
    (hw : fs.tree.WellFormed) (hp : fs.tree.at? root = some node)
    (ht : ∃ t, fs.readTextLenient (Owner.below dir rest) = .ok t)
    (hu : Unreadable fs (Owner.below dir names))
    (hnd : ∀ es, fs.tree.at? (root ++ names) ≠ some (.dir es)) (hr : r <+: rest) :
    root ++ r ≠ root ++ names := by
  intro he
  obtain rfl := List.append_cancel_left he
  obtain ⟨t, rfl⟩ := hr
  cases t with
  | nil =>
    rw [List.append_nil] at ht
    exact not_readable_of_unreadable hu ht
  | cons c t =>
    have hat : fs.tree.at? (root ++ r ++ c :: t) ≠ none := by
      rw [List.append_assoc]
      rcases h.at? hw hp with ⟨bs, hb⟩ | ⟨⟨target, ht⟩, -⟩
      · simp [hb]
      · simp [ht]
    obtain ⟨gs, hg⟩ := Node.exists_dir_of_at?_append hat
    exact hnd gs hg

theorem exists_mapOf_erase (hw : fs.tree.WellFormed)
    (hd : fs.locate .node dir = .ok (root, some (.dir es)))
    (hs : Scans fs dir (.dir es) names) (hu : Unreadable fs (Owner.below dir names))
    (hpast : fs.LeadsPast dir (root ++ names))
    (hl : Files.maxPath < Files.byteLength (Owner.below dir names).toText →
      ∀ p, IsScanned fs n dir (.dir es) p → fs.LeadsPast p (root ++ names)) :
    ∃ es', { fs with tree := fs.tree.erase (root ++ names) }.node? dir = .ok (some (.dir es')) ∧
      mapOf fs n (controllerFiles fs n dir (.dir es)) =
        mapOf { fs with tree := fs.tree.erase (root ++ names) } n
          (controllerFiles { fs with tree := fs.tree.erase (root ++ names) } n dir (.dir es')) := by
  have hp := (Files.System.at?_of_locate hd).1
  have hnd := hs.not_dir hw hp
  have hne : root ++ names ≠ [] := by
    obtain ⟨c, r, rfl⟩ := hs.exists_cons
    simp
  have hstart := start_ne hd hnd
  obtain ⟨m, hm, ha⟩ := Files.System.locate_erase hnd hpast hstart hd
  obtain ⟨es', he⟩ := ha.of_dir
  obtain rfl := Option.some.inj he
  have hp' := (Files.System.at?_of_locate hm).1
  have hsame {p : Path} (h : IsScanned fs n dir (.dir es) p) : fs.readTextLenient p =
      { fs with tree := fs.tree.erase (root ++ names) }.readTextLenient p := by
    obtain ⟨⟨rest, rfl, -⟩, -, ht⟩ := id h
    by_cases hlong : Files.maxPath < Files.byteLength (Owner.below dir names).toText
    · exact readTextLenient_erase hnd hstart (hl hlong _ h) ht
    · have hpp := leadsPast_of_readable hw hd hs hu (Nat.le_of_not_lt hlong) hpast ht
      exact readTextLenient_erase hnd hstart hpp ht
  refine ⟨es', Files.System.node?_of_locate hm, mapOf_controllerFiles_congr (hw.at? hp)
    ((hw.erase _).at? hp') (fun p => ⟨fun h => ?_, fun h => ?_⟩) fun p h => hsame h⟩
  · refine h.transfer hw hp hp' (fun rest r m hrest hsr hpre hat => ?_) (hsame h)
    exact hat ▸ Node.alike_erase hnd (hsr.ne_of_unreadable hw hp (hrest ▸ h.readable) hu hnd hpre)
  · exact h.of_partOf (hw.erase _) hp' hp (Node.partOf_erase hne hnd) rfl

end Change

/-- What a scan gives: the files that are read are in its order, and a name is known in the order of
discovery, with the tag of the first file that exports it. -/
structure Maps (fs : Files.System) (n : Naming) (dir : Path) (node : Node) (files : List Path)
    (map : ControllerMap) : Prop where
  scanned : ∀ p, p ∈ files ↔ IsScanned fs n dir node p
  ordered : files.Pairwise (Precedes dir)
  names : map.map (·.1) = Text.distinct (files.flatMap (exported fs n))
  owner : ∀ name, map.lookup name =
    (files.find? fun p => name ∈ exported fs n p).map fun p => tagOfFile n p.name

theorem scan_eq {log : Log} (h : fs.node? dir = .ok (some (.dir es))) :
    ((scan n dir).outcome ⟨fs, log⟩).1 =
      .ok (mapOf fs n (controllerFiles fs n dir (.dir es))) := by
  obtain ⟨added, ha⟩ := settles_scan h ⟨fs, log⟩ rfl
  rw [ha]

theorem scan_of_absent {log : Log} (h : fs.node? dir = .ok none) :
    ((scan n dir).outcome ⟨fs, log⟩).1 = .ok [] := by
  unfold scan
  rw [Action.outcome_bind, Action.outcome_files]
  dsimp only
  rw [Action.outcome_bind, Action.outcome_ofExcept, h]
  rfl

/-- The scan of a directory maps every name that its readable controller files export to the first
of them. The map is the same however directories list their entries, and without a file that cannot
be read, if the directory is not reached through it; should the path of that file be too long,
neither may the files that are read. -/
theorem scan_maps (hw : fs.tree.WellFormed)
    (hd : fs.locate .node dir = .ok (root, some (.dir es))) (n : Naming) (log : Log) :
    ∃ files map, Maps fs n dir (.dir es) files map ∧
      ((scan n dir).outcome ⟨fs, log⟩).1 = .ok map ∧
      (∀ tree, tree.WellFormed → fs.tree.Relisted tree →
        ((scan n dir).outcome ⟨{ fs with tree := tree }, log⟩).1 = .ok map) ∧
      ∀ names, Scans fs dir (.dir es) names → Unreadable fs (below dir names) →
        fs.LeadsPast dir (root ++ names) →
        (Files.maxPath < Files.byteLength (below dir names).toText →
          ∀ p ∈ files, fs.LeadsPast p (root ++ names)) →
        ((scan n dir).outcome
          ⟨{ fs with tree := fs.tree.erase (root ++ names) }, log⟩).1 = .ok map := by
  have hp := (Files.System.at?_of_locate hd).1
  obtain ⟨files, hm, ho, hf⟩ := exists_scanned fs n dir (hw.at? hp)
  refine ⟨files, mapOf fs n files, ⟨hm, ho, keys_mapOf fs n files, lookup_mapOf fs n files⟩,
    ?_, ?_, ?_⟩
  · rw [hf]
    exact scan_eq (Files.System.node?_of_locate hd)
  · intro tree hw' hr
    obtain ⟨es', hn, he⟩ := exists_mapOf_relisted (n := n) hw hw' hr hd
    rw [hf, he]
    exact scan_eq hn
  · intro names hs hu hpast hl
    obtain ⟨es', hn, he⟩ :=
      exists_mapOf_erase hw hd hs hu hpast fun hlong p h => hl hlong p ((hm p).2 h)
    rw [hf, he]
    exact scan_eq hn

end

section Runs

def shortNaming : Naming := ⟨[".js"], "X"⟩

def twiceEntries : List (Text × Node) :=
  [("b", .dir [("a.js", .file (Utf8.encodeChars "export const fX =".toList))]),
    ("l.js", .link "nowhere"),
    ("z.js", .file (Utf8.encodeChars "export const fX =".toList))]

def twice : Files.System := ⟨.dir [("r", .dir twiceEntries)], [], [], []⟩

def twicePath : Path := ⟨.relative, ["r"]⟩

theorem wellFormed_twice : twice.tree.WellFormed := by
  simp only [twice, twiceEntries, Node.WellFormed, Node.EntriesWellFormed]
  decide

theorem scan_maps_twice : ∃ files map,
    Maps twice shortNaming twicePath (.dir twiceEntries) files map ∧
      ((scan shortNaming twicePath).outcome ⟨twice, []⟩).1 = .ok map ∧
      ((scan shortNaming twicePath).outcome
        ⟨{ twice with tree := twice.tree.erase ["r", "l.js"] }, []⟩).1 = .ok map := by
  have hd : twice.locate .node twicePath = .ok (["r"], some (.dir twiceEntries)) := by cbv
  obtain ⟨files, map, hm, ho, -, he⟩ := scan_maps wellFormed_twice hd shortNaming []
  have hs : Scans twice twicePath (.dir twiceEntries) ["l.js"] := by
    have hi : twice.isDir (below twicePath ["l.js"]) = .ok false := by cbv
    exact .link (.tail _ (.head _)) (by simp [hi])
  have hu : Unreadable twice (below twicePath ["l.js"]) :=
    ⟨⟨.absent, below twicePath ["l.js"]⟩, by cbv⟩
  have hp : twice.LeadsPast twicePath (["r"] ++ ["l.js"]) := by
    have hat : twice.tree.at? [] = some twice.tree := rfl
    have hr : twice.tree.at? ([] ++ [Text.ofString "r"]) = some (.dir twiceEntries) := rfl
    exact ⟨40, ["r"], .enter hat (by decide) hr (by simp) (by decide) .done⟩
  refine ⟨files, map, hm, ho, he ["l.js"] hs hu hp fun hl => ?_⟩
  exact absurd hl (by decide)

/-- A directory with a controller, and with a link to the directory itself. -/
def loopedEntries : List (Text × Node) :=
  [("l.js", .link "."), ("a.js", .file (Utf8.encodeChars "export const fX =".toList))]

def looped : Files.System := ⟨.dir [("r", .dir loopedEntries)], [], [], []⟩

/-- The directory by way of as many links as may be followed. -/
def loopedPath : Path := ⟨.relative, "r" :: List.replicate 40 "l.js"⟩

theorem name_below (dir : Path) (c : Text) : (below dir [c]).name = c := by
  simp [below_eq, Path.name]

/-- Every link takes one of those that may be followed, and leads back to the directory. -/
theorem resolve_looped (k b : Nat) (rest : List Text) :
    looped.tree.resolve .node (b + k) ["r"] (List.replicate k (Text.ofString "l.js") ++ rest) =
      looped.tree.resolve .node b ["r"] rest := by
  induction k with
  | zero => rfl
  | succ k ih =>
    have hat : looped.tree.at? ["r"] = some (.dir loopedEntries) := by cbv
    have hl : looped.tree.at? (["r"] ++ ["l.js"]) = some (.link ".") := by cbv
    rw [List.replicate_succ, List.cons_append, ← Nat.add_assoc,
      Node.resolve_follow hat (by decide) (by decide) (by decide) (by simp) hl (by simp), ← ih]
    exact Node.resolve_stay hat (by decide) (by decide)

theorem locate_looped (rest : List Text) (h : (below loopedPath rest).Usable) :
    looped.locate .node (below loopedPath rest) =
      (looped.tree.resolve .node 0 ["r"] rest).mapError fun c =>
        .failed ⟨c, below loopedPath rest⟩ := by
  have hr : looped.tree.resolve .node 40 [] (below loopedPath rest).names =
      looped.tree.resolve .node 0 ["r"] rest := by
    have ht : looped.tree.at? [] = some looped.tree := rfl
    have hat : looped.tree.at? ([] ++ [Text.ofString "r"]) = some (.dir loopedEntries) := rfl
    have he : (below loopedPath rest).names =
        Text.ofString "r" :: (List.replicate 40 (Text.ofString "l.js") ++ rest) := rfl
    rw [he, Node.resolve_enter ht (by decide) (by decide) (by decide) (by simp) hat (by simp)]
    exact resolve_looped 40 0 rest
  have hs : (if (below loopedPath rest).isAbsolute then [] else looped.working) = [] := rfl
  rw [Files.System.locate_of_usable h, hs, hr]

theorem usable_looped : (below loopedPath []).Usable ∧ (below loopedPath ["a.js"]).Usable ∧
    (below loopedPath ["l.js"]).Usable :=
  ⟨⟨by decide +kernel, by decide +kernel⟩, ⟨by decide +kernel, by decide +kernel⟩,
    by decide +kernel, by decide +kernel⟩

theorem locate_looped_dir :
    looped.locate .node loopedPath = .ok (["r"], some (.dir loopedEntries)) := by
  rw [show loopedPath = below loopedPath [] by simp [below_eq], locate_looped [] usable_looped.1]
  cbv

theorem locate_looped_file : looped.locate .node (below loopedPath ["a.js"]) =
    .ok (["r", "a.js"], some (.file (Utf8.encodeChars "export const fX =".toList))) := by
  rw [locate_looped _ usable_looped.2.1]
  cbv

/-- One more link is too many. -/
theorem locate_looped_link : looped.locate .node (below loopedPath ["l.js"]) =
    .error (.failed ⟨.linkLoop, below loopedPath ["l.js"]⟩) := by
  rw [locate_looped _ usable_looped.2.2]
  cbv

theorem isDir_looped_link : looped.isDir (below loopedPath ["l.js"]) = .ok false := by
  rw [Files.System.isDir, Files.System.node?, locate_looped_link]
  rfl

theorem fileNames_looped : fileNames looped loopedPath loopedEntries =
    [Text.ofString "a.js", Text.ofString "l.js"] := by
  have hi : isFileEntry looped (below loopedPath ["l.js"]) (.link ".") :=
    isFileEntry_iff.2 (.inr ⟨⟨_, rfl⟩, by simp [isDir_looped_link]⟩)
  have hfilter : (loopedEntries.filter fun e => isFileEntry looped (below loopedPath [e.1]) e.2) =
      loopedEntries := by
    simp only [loopedEntries, List.filter_cons, hi, if_true]
    rfl
  rw [fileNames]
  refine (congrArg (fun es => Text.sorted (es.map (·.1))) hfilter).trans ?_
  cbv

theorem controllerFiles_looped :
    controllerFiles looped shortNaming loopedPath (.dir loopedEntries) =
      [below loopedPath ["a.js"], below loopedPath ["l.js"]] := by
  have hs : ((byNameOrder (subdirectories looped loopedPath loopedEntries)).map (·.2)).flatten =
      [] := by
    rw [subdirectories_eq]
    cbv
  have ha : shortNaming.matchesFile "a.js" := by cbv
  have hl : shortNaming.matchesFile "l.js" := by cbv
  have hd := (usable_of_below usable_looped.1).2
  rw [controllerFiles, filesBelow, fileNames_looped, if_neg (Nat.not_lt.2 hd), hs]
  simp only [List.map_cons, List.map_nil, List.append_nil, ← below.eq_1]
  rw [List.filter_cons_of_pos (by rw [name_below]; exact ha),
    List.filter_cons_of_pos (by rw [name_below]; exact hl), List.filter_nil]

theorem readTextLenient_looped_file : looped.readTextLenient (below loopedPath ["a.js"]) =
    .ok "export const fX =" := by
  rw [Files.System.readTextLenient, Files.System.readBytes, locate_looped_file]
  cbv

theorem unreadable_looped_link : Unreadable looped (below loopedPath ["l.js"]) :=
  ⟨_, Files.System.readTextLenient_eq_error locate_looped_link⟩

theorem exported_looped_file :
    exported looped shortNaming (below loopedPath ["a.js"]) = ["fX"] := by
  rw [exported, readTextLenient_looped_file]
  cbv

theorem scan_looped : ((scan shortNaming loopedPath).outcome ⟨looped, []⟩).1 =
    .ok [("fX", "A Controller")] := by
  have ht : tagOfFile shortNaming "a.js" = Text.ofString "A Controller" := by cbv
  rw [scan_eq (Files.System.node?_of_locate locate_looped_dir), controllerFiles_looped]
  simp only [mapOf, List.foldl_cons, List.foldl_nil, exported_looped_file,
    exported_of_unreadable unreadable_looped_link, name_below, ht]
  rfl

/-- Without the link there is nothing to go through. -/
theorem resolve_erase_looped (b : Nat) {rest : List Text} (hr : rest ≠ []) :
    (looped.tree.erase ["r", "l.js"]).resolve .node b []
      (Text.ofString "r" :: Text.ofString "l.js" :: rest) = .error .absent := by
  obtain ⟨es, ho⟩ : ∃ es, (looped.tree.erase ["r", "l.js"]).at? [] = some (.dir es) := ⟨_, rfl⟩
  obtain ⟨fs, hi⟩ : ∃ fs, (looped.tree.erase ["r", "l.js"]).at? ["r"] = some (.dir fs) := ⟨_, rfl⟩
  rw [Node.resolve_enter ho (by decide) (by decide) (by decide) (by simp) hi (by simp)]
  exact Node.resolve_absent hi (by decide) (by decide) (by decide) (by simp)
    (Node.at?_erase_self _ (by simp)) (by simpa using hr)

theorem node?_erase_looped :
    { looped with tree := looped.tree.erase ["r", "l.js"] }.node? loopedPath = .ok none := by
  have hn : loopedPath.names = Text.ofString "r" :: Text.ofString "l.js" ::
      List.replicate 39 (Text.ofString "l.js") := rfl
  have hs : (if loopedPath.isAbsolute then [] else looped.working) = [] := rfl
  rw [Files.System.node?, Files.System.locate_of_usable (usable_of_below usable_looped.1), hs, hn,
    resolve_erase_looped _ (by simp)]
  rfl

/-- A link that cannot be read is taken away, and nothing is found any more: the directory was
reached through it. -/
theorem scan_erase_looped :
    ((scan shortNaming loopedPath).outcome ⟨looped, []⟩).1 = .ok [("fX", "A Controller")] ∧
      Scans looped loopedPath (.dir loopedEntries) ["l.js"] ∧
      shortNaming.matchesFile (below loopedPath ["l.js"]).name ∧
      Unreadable looped (below loopedPath ["l.js"]) ∧
      ((scan shortNaming loopedPath).outcome
        ⟨{ looped with tree := looped.tree.erase ["r", "l.js"] }, []⟩).1 = .ok [] := by
  have hs : Scans looped loopedPath (.dir loopedEntries) ["l.js"] :=
    .link (List.mem_cons_self ..) (by simp [isDir_looped_link])
  have hm : shortNaming.matchesFile (below loopedPath ["l.js"]).name := by
    rw [name_below]
    cbv
  exact ⟨scan_looped, hs, hm, unreadable_looped_link, scan_of_absent node?_erase_looped⟩

end Runs

end Owner

end RouteAtlas
