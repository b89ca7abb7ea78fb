import Mathlib.Tactic.Common
import RouteAtlas.Handler.Pieces
import RouteAtlas.Proofs.Text.Search
import RouteAtlas.Proofs.Text.Word

/-!
# Balanced source text

Brackets close in a balanced text, literals end in it, and its commas stand inside of brackets.
Cutting at the outer commas reads such texts back.
-/

namespace RouteAtlas.Source

/-- What may stand between the quotes of a literal: the quote itself and the backslash only behind a
backslash. -/
inductive LiteralBody (quote : CodePoint) : Text → Prop
  | nil : LiteralBody quote []
  | plain {c t} (hq : c ≠ quote) (hb : c ≠ .char '\\') (ht : LiteralBody quote t) :
      LiteralBody quote (c :: t)
  | escaped {c t} (ht : LiteralBody quote t) : LiteralBody quote (.char '\\' :: c :: t)

inductive Brackets : CodePoint → CodePoint → Prop
  | round : Brackets (.char '(') (.char ')')
  | square : Brackets (.char '[') (.char ']')
  | curly : Brackets (.char '{') (.char '}')

def isPlain (c : CodePoint) : Bool := !isQuote c && !isOpener c && !isCloser c && c != ','

/-- Balanced text; `commas` says whether commas may stand outside of all groups. -/
inductive Balanced : Bool → Text → Prop
  | nil {commas} : Balanced commas []
  | plain {commas c t} (hc : isPlain c) (ht : Balanced commas t) : Balanced commas (c :: t)
  | comma {t} (ht : Balanced true t) : Balanced true (.char ',' :: t)
  | literal {commas q body t} (hq : isQuote q) (hb : LiteralBody q body) (ht : Balanced commas t) :
      Balanced commas (q :: (body ++ q :: t))
  | group {commas o c inside t} (hg : Brackets o c) (hi : Balanced true inside)
      (ht : Balanced commas t) : Balanced commas (o :: (inside ++ c :: t))

namespace Balanced

variable {commas : Bool} {s t : Text}

theorem append (hs : Balanced commas s) (ht : Balanced commas t) : Balanced commas (s ++ t) := by
  induction hs with
  | nil => exact ht
  | plain hc _ ih => exact .plain hc (ih ht)
  | comma _ ih => exact .comma (ih ht)
  | literal hq hb _ ih => simpa using Balanced.literal hq hb (ih ht)
  | group hg hi _ _ ih => simpa using Balanced.group hg hi (ih ht)

theorem of_plain (h : ∀ c ∈ t, isPlain c) : Balanced commas t := by
  induction t with
  | nil => exact .nil
  | cons c t ih => exact .plain (h c (by simp)) (ih fun d hd => h d (by simp [hd]))

theorem allowCommas (h : Balanced commas t) : Balanced true t := by
  induction h with
  | nil => exact .nil
  | plain hc _ ih => exact .plain hc ih
  | comma _ ih => exact .comma ih
  | literal hq hb _ ih => exact .literal hq hb ih
  | group hg hi _ _ ih => exact .group hg hi ih

theorem join {ts : List Text} (h : ∀ t ∈ ts, Balanced false t) :
    Balanced true (Text.join "," ts) := by
  induction ts with
  | nil => exact .nil
  | cons t ts ih =>
    have ht := (h t (by simp)).allowCommas
    cases ts with
    | nil => simpa [Text.join] using ht
    | cons u us =>
      rw [Text.join_cons_cons]
      exact ht.append (.comma (ih fun v hv => h v (by simp [hv])))

end Balanced

namespace Place

/-- Whether `P` holds of all characters of a text, each with the place where a scan meets it. -/
def Along (P : Place → CodePoint → Prop) (p : Place) : Text → Prop
  | [] => True
  | c :: r => P p c ∧ Along P (p.step c) r

variable {P Q : Place → CodePoint → Prop} {p : Place} {s t : Text}

theorem along_append : p.Along P (s ++ t) ↔ p.Along P s ∧ (p.run s).Along P t := by
  induction s generalizing p with
  | nil => simp [Along]
  | cons c s ih => simp [Along, ih, and_assoc]

theorem Along.mono (h : p.Along P t) (hpq : ∀ q c, P q c → Q q c) : p.Along Q t := by
  induction t generalizing p with
  | nil => trivial
  | cons c t ih => exact ⟨hpq _ _ h.1, ih h.2⟩

/-- In code no bracket closes at depth `d`, and no comma stands there unless commas may. -/
def Above (d : Int) (commas : Bool) (q : Place) (c : CodePoint) : Prop :=
  q.mode = .code → (isCloser c → d < q.depth) ∧
    (c = .char ',' → d < q.depth ∨ commas = true ∧ d = q.depth)

theorem above_of_quoted {d : Int} {commas : Bool} {q : Place} (h : q.mode ≠ .code) (c : CodePoint) :
    q.Above d commas c := fun hm => absurd hm h

theorem Above.not_outer {q : Place} {c : CodePoint} (h : q.Above 0 false c) :
    ¬ (c = .char ',' ∧ q.isOuter) := by
  rintro ⟨hc, ho⟩
  simp only [isOuter, Bool.and_eq_true, beq_iff_eq] at ho
  have hd := (h ho.1).2 hc
  simp only [Bool.false_eq_true, false_and, or_false] at hd
  omega

variable {q c : CodePoint} {d : Int}

theorem step_quoted (hq : c ≠ q) (hb : c ≠ .char '\\') :
    (Place.mk (.quoted q) d).step c = ⟨.quoted q, d⟩ := by
  simp [step, hq, hb]

theorem step_unquote (hq : isQuote q) : (Place.mk (.quoted q) d).step q = ⟨.code, d⟩ := by
  have hb : q ≠ .char '\\' := by
    rintro rfl
    simp [isQuote] at hq
  simp [step, hb]

theorem step_quote (hq : isQuote q) : (Place.mk .code d).step q = ⟨.quoted q, d⟩ := by
  simp [step, hq]

theorem step_plain (hc : isPlain c) : (Place.mk .code d).step c = ⟨.code, d⟩ := by
  simp only [isPlain, Bool.and_eq_true, Bool.not_eq_true'] at hc
  simp [step, hc]

theorem above_of_ne {e : Int} {commas : Bool} {p : Place} (hc : isCloser c = false)
    (hn : c ≠ .char ',') : p.Above e commas c :=
  fun _ => ⟨by simp [hc], fun h => absurd h hn⟩

end Place

theorem isPlain_iff {c : CodePoint} : isPlain c ↔
    isQuote c = false ∧ isOpener c = false ∧ isCloser c = false ∧ c ≠ .char ',' := by
  simp [isPlain, and_assoc]

theorem isPlain_of {p : CodePoint → Bool} {c : CodePoint} (h : p c)
    (hp : ∀ s ∈ ([.char '"', .char '\'', .char '\x60', .char '(', .char '[', .char '{', .char ')',
      .char ']', .char '}', .char ','] : Text), p s = false) : isPlain c := by
  by_contra hn
  have hc : isQuote c ∨ isOpener c ∨ isCloser c ∨ c = .char ',' := by
    by_contra ho
    simp only [not_or, Bool.not_eq_true] at ho
    exact hn (isPlain_iff.2 ho)
  have hs := hp c (by
    simp only [isQuote, isOpener, isCloser, Bool.or_eq_true, beq_iff_eq] at hc
    simp only [List.mem_cons, List.not_mem_nil, or_false]
    tauto)
  simp [h] at hs

theorem isPlain_of_isName {c : CodePoint} (h : c.isName) : isPlain c :=
  isPlain_of h (by decide)

theorem isPlain_of_isBlank {c : CodePoint} (h : c.isBlank) : isPlain c :=
  isPlain_of h (by decide)

theorem isQuote_ne {q : CodePoint} (h : isQuote q) : isCloser q = false ∧ q ≠ .char ',' := by
  simp only [isQuote, Bool.or_eq_true, beq_iff_eq] at h
  rcases h with (rfl | rfl) | rfl <;> exact ⟨rfl, by decide⟩

theorem Brackets.open_ne {o c : CodePoint} (h : Brackets o c) :
    isCloser o = false ∧ o ≠ .char ',' := by
  cases h <;> exact ⟨rfl, by decide⟩

theorem Brackets.step_open {o c : CodePoint} (h : Brackets o c) (d : Int) :
    (Place.mk .code d).step o = ⟨.code, d + 1⟩ := by
  cases h <;> rfl

theorem Brackets.step_close {o c : CodePoint} (h : Brackets o c) (d : Int) :
    (Place.mk .code (d + 1)).step c = ⟨.code, d⟩ := by
  have hd : d + 1 - 1 = d := by omega
  cases h <;> simp [Place.step, isQuote, isOpener, isCloser, hd]

theorem LiteralBody.of_plain {q : CodePoint} {t : Text} (hq : isQuote q)
    (h : ∀ c ∈ t, isPlain c ∧ c ≠ .char '\\') : LiteralBody q t := by
  induction t with
  | nil => exact .nil
  | cons c t ih =>
    obtain ⟨hp, hb⟩ := h c (by simp)
    have hn : c ≠ q := by
      rintro rfl
      simp [(isPlain_iff.1 hp).1] at hq
    exact .plain hn hb (ih fun d hd => h d (by simp [hd]))

theorem LiteralBody.along {q : CodePoint} {body : Text} (h : LiteralBody q body) (d e : Int)
    (commas : Bool) :
    (Place.mk (.quoted q) e).Along (Place.Above d commas) body ∧
      (Place.mk (.quoted q) e).run body = ⟨.quoted q, e⟩ := by
  induction h with
  | nil => exact ⟨trivial, rfl⟩
  | plain hq hb _ ih =>
    refine ⟨⟨Place.above_of_quoted (by simp) _, ?_⟩, ?_⟩
    · rw [Place.step_quoted hq hb]
      exact ih.1
    · rw [Place.run_cons, Place.step_quoted hq hb]
      exact ih.2
  | escaped _ ih =>
    have hs : ((Place.mk (.quoted q) e).step (.char '\\')).mode ≠ .code := by simp [Place.step]
    exact ⟨⟨Place.above_of_quoted (by simp) _, Place.above_of_quoted hs _, ih.1⟩, ih.2⟩

theorem Balanced.along {commas : Bool} {t : Text} (h : Balanced commas t) (d : Int) :
    (Place.mk .code d).Along (Place.Above d commas) t ∧ (Place.mk .code d).run t = ⟨.code, d⟩ := by
  induction h generalizing d with
  | nil => exact ⟨trivial, rfl⟩
  | plain hc _ ih =>
    obtain ⟨-, -, hn, hm⟩ := isPlain_iff.1 hc
    rw [Place.Along, Place.run_cons, Place.step_plain hc]
    exact ⟨⟨Place.above_of_ne hn hm, (ih d).1⟩, (ih d).2⟩
  | comma _ ih =>
    have hc : (Place.mk .code d).Above d true (.char ',') := fun _ =>
      ⟨by simp [isCloser], fun _ => .inr ⟨rfl, rfl⟩⟩
    exact ⟨⟨hc, (ih d).1⟩, (ih d).2⟩
  | literal hq hb _ ih =>
    obtain ⟨hn, hm⟩ := isQuote_ne hq
    obtain ⟨ha, hr⟩ := hb.along d d _
    rw [Place.Along, Place.run_cons, Place.step_quote hq, Place.along_append, Place.run_append, hr,
      Place.Along, Place.run_cons, Place.step_unquote hq]
    exact ⟨⟨Place.above_of_ne hn hm, ha, Place.above_of_quoted (by simp) _, (ih d).1⟩, (ih d).2⟩
  | @group commas _ _ _ _ hg _ _ ihi ih =>
    obtain ⟨hn, hm⟩ := hg.open_ne
    obtain ⟨ha, hr⟩ := ihi (d + 1)
    rw [Place.Along, Place.run_cons, hg.step_open, Place.along_append, Place.run_append, hr,
      Place.Along, Place.run_cons, hg.step_close]
    -- one level further in, all that closes or divides stands above the level outside
    have hi := ha.mono (Q := Place.Above d commas) fun q c hq hm =>
      ⟨fun hc => by have := (hq hm).1 hc; omega,
        fun hc => .inl (by have := (hq hm).2 hc; omega)⟩
    have hd : d < d + 1 := by omega
    exact ⟨⟨Place.above_of_ne hn hm, hi, fun _ => ⟨fun _ => hd, fun _ => .inl hd⟩, (ih d).1⟩,
      (ih d).2⟩

/-- A text without outer commas belongs to the first piece of what is cut. -/
theorem cutOuter_append {p : Place} {t : Text}
    (h : p.Along (fun q c => ¬ (c = .char ',' ∧ q.isOuter)) t) (r : Text) :
    cutOuter p (t ++ r) = (cutOuter (p.run t) r).modifyHead (t ++ ·) := by
  induction t generalizing p with
  | nil =>
    show cutOuter p r = (cutOuter p r).modifyHead id
    rw [List.modifyHead_id, id]
  | cons c t ih =>
    rw [List.cons_append, cutOuter, if_neg h.1, ih h.2, Place.run_cons]
    cases hq : cutOuter ((p.step c).run t) r with
    | nil => exact absurd hq (cutOuter_ne_nil _ _)
    | cons q qs => rfl

/-- A text without a bracket that closes the outermost one is enclosed with what follows. -/
theorem enclosed_append {p : Place} {t : Text}
    (h : p.Along (fun q c => ¬ (q.mode = .code ∧ isCloser c ∧ q.depth = 1)) t) (r : Text) :
    enclosed p (t ++ r) = (enclosed (p.run t) r).map (t ++ ·) := by
  induction t generalizing p with
  | nil => simp
  | cons c t ih =>
    rw [List.cons_append, enclosed, if_neg h.1, ih h.2, Place.run_cons, Option.map_map]
    rfl

theorem Balanced.cutOuter_append {t : Text} (h : Balanced false t) (r : Text) :
    cutOuter .start (t ++ r) = (cutOuter .start r).modifyHead (t ++ ·) := by
  obtain ⟨ha, hr⟩ := h.along 0
  have hn := ha.mono (Q := fun q c => ¬ (c = .char ',' ∧ q.isOuter)) fun _ _ hq => hq.not_outer
  exact (Source.cutOuter_append hn r).trans (by rw [hr]; rfl)

/-- Balanced texts with commas between them are the pieces that they are cut into. -/
theorem cutOuter_join {ts : List Text} (hne : ts ≠ []) (h : ∀ t ∈ ts, Balanced false t) :
    cutOuter .start (Text.join "," ts) = ts := by
  induction ts with
  | nil => exact absurd rfl hne
  | cons t ts ih =>
    have ht := h t (by simp)
    cases ts with
    | nil =>
      have := ht.cutOuter_append []
      simpa [Text.join, cutOuter] using this
    | cons u us =>
      have hc : cutOuter .start ("," ++ Text.join "," (u :: us)) =
          [] :: cutOuter .start (Text.join "," (u :: us)) := rfl
      rw [Text.join_cons_cons, ht.cutOuter_append, hc, ih (by simp) fun v hv => h v (by simp [hv])]
      simp

theorem enclosed_of_balanced {t : Text} (h : Balanced true t) (r : Text) :
    enclosed ⟨.code, 1⟩ (t ++ .char ')' :: r) = some t := by
  obtain ⟨ha, hr⟩ := h.along 1
  have hn := ha.mono (Q := fun q c => ¬ (q.mode = .code ∧ isCloser c ∧ q.depth = 1))
    fun q c hq ⟨hm, hc, hd⟩ => by
      have := (hq hm).1 hc
      omega
  rw [enclosed_append hn, hr]
  simp [enclosed, isCloser]

/-- Leaving out a blank last piece changes nothing for what ignores blank pieces. -/
theorem filterMap_dropBlankLast {α : Type} {f : Text → Option α} (hf : ∀ t, t.isBlank → f t = none)
    (ps : List Text) : (dropBlankLast ps).filterMap f = ps.filterMap f := by
  induction ps with
  | nil => rfl
  | cons p ps ih =>
    cases ps with
    | nil =>
      rw [dropBlankLast]
      split
      · rename_i h
        simp [hf p h]
      · rfl
    | cons q qs =>
      rw [dropBlankLast, ← List.singleton_append, List.filterMap_append, ih,
        ← List.filterMap_append, List.singleton_append]

/-- A piece that is not blank keeps its place. -/
theorem getElem?_dropBlankLast {ps : List Text} {i : Nat} {p : Text} (h : ps[i]? = some p)
    (hp : p.isBlank = false) : (dropBlankLast ps)[i]? = some p := by
  induction ps generalizing i with
  | nil => simp at h
  | cons q qs ih =>
    cases qs with
    | nil =>
      cases i with
      | zero =>
        obtain rfl : q = p := by simpa using h
        simp [dropBlankLast, hp]
      | succ i => simp at h
    | cons r rs =>
      cases i with
      | zero => simpa [dropBlankLast] using h
      | succ i => simpa [dropBlankLast] using ih (by simpa using h)

/-- The arguments of a call are read back, but for a blank last one. -/
theorem arguments_join {ts : List Text} (hne : ts ≠ []) (h : ∀ t ∈ ts, Balanced false t)
    (r : Text) : arguments (Text.join "," ts ++ .char ')' :: r) = dropBlankLast ts := by
  rw [arguments, enclosed_of_balanced (Balanced.join h)]
  exact congrArg dropBlankLast (cutOuter_join hne h)

end RouteAtlas.Source
