import Mathlib
import RouteAtlas.Proofs.Files.Spared
import RouteAtlas.Proofs.Text.Utf8
import RouteAtlas.Store

/-!
# Documents that are stored

A write stores a document whole, or fails and leaves what could be read, unless the text has no form
in UTF-8: the file is empty then.
-/

namespace RouteAtlas.Store

variable {store : Store} {v : Json} {s s' : Session} {e : WriteError}

/-- What a write can do: the document has no text, the file cannot be made or opened, its text
cannot be encoded, or it is stored. -/
inductive Writes (store : Store) (v : Json) (s : Session) :
    Except WriteError Files.Path × Session → Prop
  | noText {c : WriteCause} (h : store.text v = .error c) (hc : ∀ x, c ≠ .encoding x) :
      Writes store v s (.error ⟨store.path, c⟩, s)
  | noAccess {fs : Files.System} (e : Files.AccessError) (h : s.files.tree.Grows fs.tree)
      (hw : fs.working = s.files.working) :
      Writes store v s (.error ⟨store.path, .access e⟩, { s with files := fs })
  | noEncoding {t : Text} {e : Utf8.EncodeError} {fs : Files.System}
      (h : store.text v = .ok t) (he : Utf8.encode t = .error e)
      (hr : fs.readBytes store.path = .ok []) (hs : ∃ q, s.files.Spares fs (· = q)) :
      Writes store v s (.error ⟨store.path, .encoding e⟩, { s with files := fs })
  | done {t : Text} {bs : Bytes} {fs : Files.System}
      (h : store.text v = .ok t) (he : Utf8.encode t = .ok bs)
      (hr : fs.readBytes store.path = .ok bs) (hs : ∃ q, s.files.Spares fs (· = q)) :
      Writes store v s (.ok store.path, { s with files := fs })

theorem text_ne_encoding {c : WriteCause} (h : store.text v = .error c) (x : Utf8.EncodeError) :
    c ≠ .encoding x := by
  unfold text at h
  split at h
  · cases h
    simp
  · split at h <;> cases h

theorem writes (store : Store) (v : Json) (s : Session) :
    Writes store v s ((store.write v).outcome s) := by
  simp only [write, Action.outcome_bind, Action.outcome_ofExcept, Action.outcome_mapError,
    Action.outcome_makeDirs, Action.outcome_change, Action.outcome_pure]
  cases ht : store.text v with
  | error c => exact .noText ht (text_ne_encoding ht)
  | ok t =>
    obtain ⟨hg, hw⟩ := s.files.grows_madeDirs store.path.parent
    rcases hm : s.files.madeDirs store.path.parent with ⟨fs, _ | e⟩ <;> rw [hm] at hg hw
    · cases ho : fs.writeBytes store.path [] with
      | error e =>
        simp only [Except.mapError, hm, ho]
        exact .noAccess e hg hw
      | ok opened =>
        -- The file is empty from here on, and what could be opened can be written.
        obtain ⟨q, hl, hs⟩ := Files.System.exists_spares_writeBytes ho
        have hs := (Files.System.spares_of_grows hg hw _).trans hs
        cases he : Utf8.encode t with
        | error e =>
          simp only [Except.mapError, hm, ho, he]
          exact .noEncoding ht he (Files.System.readBytes_writeBytes ho) ⟨q, hs⟩
        | ok bs =>
          obtain ⟨done, hd⟩ := Files.System.exists_writeBytes_writeBytes ho bs
          obtain ⟨q', hl', hs'⟩ := Files.System.exists_spares_writeBytes hd
          obtain ⟨bs', hq'⟩ := Files.System.locate_of_retains hl hs'.retains hs'.working (.inl rfl)
          cases hl'.symm.trans hq'
          simp only [Except.mapError, hm, ho, he, hd]
          exact .done ht he (Files.System.readBytes_writeBytes hd) ⟨q, hs.trans hs'⟩
    · simp only [Except.mapError, hm]
      exact .noAccess e hg hw

/-- A write that fails logs nothing, and leaves all files of the tree and what the store's path is
read as, unless the text of the document has no form in UTF-8: the file is empty then. -/
theorem readBytes_of_write_error (h : (store.write v).outcome s = (.error e, s')) :
    s'.log = s.log ∧
      ((∃ t x, store.text v = .ok t ∧ Utf8.encode t = .error x ∧ e = ⟨store.path, .encoding x⟩ ∧
        s'.files.readBytes store.path = .ok []) ∨
      (∀ x, e.cause ≠ .encoding x) ∧
        (∀ q bs, s'.files.tree.at? q = some (.file bs) ↔ s.files.tree.at? q = some (.file bs)) ∧
        ∀ bs, s.files.readBytes store.path = .ok bs → s'.files.readBytes store.path = .ok bs) := by
  have hs := h ▸ writes store v s
  cases hs with
  | noText ht hc => exact ⟨rfl, .inr ⟨hc, fun _ _ => .rfl, fun _ => id⟩⟩
  | noAccess e hg hw =>
    refine ⟨rfl, .inr ⟨by simp, fun q bs => hg.file_iff, fun bs hr => ?_⟩⟩
    exact Files.System.readBytes_of_grows hg hw hr
  | noEncoding ht he hr => exact ⟨rfl, .inl ⟨_, _, ht, he, rfl, hr⟩⟩

theorem exists_spares_write (store : Store) (v : Json) (s : Session) :
    ∃ q, s.files.Spares ((store.write v).outcome s).2.files (· = q) := by
  have hw := store.writes v s
  generalize (store.write v).outcome s = x at hw ⊢
  cases hw with
  | noText => exact ⟨[], .refl _ _⟩
  | noAccess e hg hw => exact ⟨[], Files.System.spares_of_grows hg hw _⟩
  | noEncoding _ _ _ hs => exact hs
  | done _ _ _ hs => exact hs

def kept : Store := ⟨⟨.relative, ["d.json"]⟩⟩

def keptFiles : Files.System :=
  ⟨.dir [("d.json", .file (Utf8.encodeChars "\x7b\x7d".toList))], [], [], []⟩

def longInt : Json := .int (.ofNat (Nat.pow 10 Decimal.maxDigits))

theorem text_longInt : kept.text longInt = .error .tooManyDigits := by
  have h (n : Nat) (hn : Nat.pow 10 Decimal.maxDigits ≤ n) :
      kept.text (.int (.ofNat n)) = .error .tooManyDigits := by
    have hl : hasLongInt (.int (.ofNat n)) = true := by
      rw [hasLongInt, Decimal.tooLong, decide_eq_true_eq]
      exact hn
    rw [text, hl, if_pos rfl]
  exact h _ (Nat.le_refl _)

theorem readBytes_of_write_error_longInt : ∃ e s',
    (kept.write longInt).outcome ⟨keptFiles, []⟩ = (.error e, s') ∧
      s'.files.readBytes kept.path = .ok (Utf8.encodeChars "\x7b\x7d".toList) := by
  have h : (kept.write longInt).outcome ⟨keptFiles, []⟩ =
      (.error ⟨kept.path, .tooManyDigits⟩, ⟨keptFiles, []⟩) := by
    simp only [write, Action.outcome_bind, Action.outcome_ofExcept, text_longInt, Except.mapError]
  have hk := (readBytes_of_write_error h).2.resolve_left fun ⟨_, _, _, _, he, _⟩ => by
    cases he
  exact ⟨_, _, h, hk.2.2 _ (by cbv)⟩

/-- A document with a lone surrogate empties the file of the one that is stored. -/
theorem write_empties_file : ∃ e s',
    (kept.write (.obj [("a", .str [.lone 0])])).outcome ⟨keptFiles, []⟩ = (.error e, s') ∧
      keptFiles.readBytes kept.path = .ok (Utf8.encodeChars "\x7b\x7d".toList) ∧
      s'.files.readBytes kept.path = .ok [] :=
  ⟨⟨kept.path, .encoding ⟨0xD800, 10, 10⟩⟩, ⟨⟨.dir [("d.json", .file [])], [], [], []⟩, []⟩,
    by cbv, by cbv, by cbv⟩

end RouteAtlas.Store
