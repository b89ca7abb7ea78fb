import RouteAtlas.Files.Reading
import RouteAtlas.Proofs.Files.Writing

/-!
# Files that are read

A file that can be read has a text, or its bytes are not UTF-8.
-/

namespace RouteAtlas.Files.System

variable {fs : System} {goal : Goal} {p : Path} {e : NameError}

theorem locate_eq_badName :
    fs.locate goal p = .error (.badName e) ↔ NameError.ofText? p.toText = some e := by
  unfold locate
  cases NameError.ofText? p.toText with
  | some x => simp
  | none =>
    dsimp only
    split
    · simp
    · cases fs.tree.resolve goal 40 (if p.isAbsolute then [] else fs.working) p.names <;>
        simp [Except.mapError]

theorem readBytes_eq_badName :
    fs.readBytes p = .error (.badName e) ↔ NameError.ofText? p.toText = some e := by
  have hl : fs.locate .node p = .error (.badName e) ↔ _ := locate_eq_badName
  rw [← hl, readBytes]
  rcases fs.locate .node p with x | ⟨q, _ | _ | _ | _⟩ <;> simp

theorem ofText?_of_readTextLenient (h : fs.readTextLenient p = .error (.badName e)) :
    NameError.ofText? p.toText = some e := by
  refine readBytes_eq_badName.1 (?_ : fs.readBytes p = _)
  unfold readTextLenient at h
  cases hb : fs.readBytes p <;> simp_all [Except.map]

theorem readText_eq_access {x : AccessError} :
    fs.readText p = .error (.access x) ↔ fs.readBytes p = .error x := by
  unfold readText
  cases fs.readBytes p with
  | error y => simp [Except.mapError, bind, Except.bind]
  | ok bs =>
    cases hd : Utf8.decode bs <;> simp [Except.mapError, bind, Except.bind, hd, pure, Except.pure]

theorem readText_eq_encoding {x : Utf8.DecodeError} :
    fs.readText p = .error (.encoding x) ↔
      ∃ bs, fs.readBytes p = .ok bs ∧ Utf8.decode bs = .error x := by
  unfold readText
  cases fs.readBytes p with
  | error y => simp [Except.mapError, bind, Except.bind]
  | ok bs =>
    cases hd : Utf8.decode bs <;> simp [Except.mapError, bind, Except.bind, hd, pure, Except.pure]

end RouteAtlas.Files.System
