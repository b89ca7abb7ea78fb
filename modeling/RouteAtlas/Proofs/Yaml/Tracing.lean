import Mathlib
import RouteAtlas.Yaml.Token.Scan

/-!
# What stops the scan of YAML text

A scan stops early at a fault of form, at a version number of too many digits, or at an escape that
belongs to no character.
-/

namespace RouteAtlas.Yaml

def hexNumber (ds : Text) : Nat := (ds.filterMap Json.hexValue?).foldl (fun n d => 16 * n + d) 0

inductive StopsScan (t : Text) : LoadError → Prop
  | malformed : StopsScan t .malformed
  | version {ds : Text} (hi : ds <:+: t) (hd : ∀ c ∈ ds, c.isAsciiDigit)
      (hl : Decimal.maxDigits < ds.length) : StopsScan t (.scalar (.tooManyDigits ds.length))
  | escape {ds : Text} {e : ScalarError} (hi : .char '\\' :: .char 'U' :: ds <:+: t)
      (hn : 0x110000 ≤ hexNumber ds) (he : e = .codePoint ∨ e = .hugeCodePoint) :
      StopsScan t (.scalar e)

/-- A result whose place is further on in the text, or an error that the text accounts for. -/
def Traced {α : Type} (place : α → Cursor) (t : Text) : Except LoadError α → Prop
  | .ok a => (place a).rest <:+ t
  | .error e => StopsScan t e

variable {α β : Type} {t u : Text} {c d : Cursor}

theorem StopsScan.mono {e : LoadError} (h : StopsScan u e) (hu : u <:+ t) : StopsScan t e := by
  cases h with
  | malformed => exact .malformed
  | version hi hd hl => exact .version (hi.trans hu.isInfix) hd hl
  | escape hi hn he => exact .escape (hi.trans hu.isInfix) hn he

namespace Traced

variable {place : α → Cursor} {place' : β → Cursor} {x : Except LoadError α}

theorem malformed : Traced place t (.error .malformed) := StopsScan.malformed

theorem mono (h : Traced place u x) (hu : u <:+ t) : Traced place t x := by
  cases x with
  | ok a => exact List.IsSuffix.trans h hu
  | error e => exact StopsScan.mono h hu

theorem map {x : Except LoadError (α × Cursor)} (f : α → β) (h : Traced Prod.snd t x) :
    Traced Prod.snd t (x.map fun p => (f p.1, p.2)) := by
  cases x with
  | ok p => exact h
  | error e => exact h

theorem bind {f : α → Except LoadError β} (h : Traced place t x)
    (hf : ∀ a, (place a).rest <:+ t → Traced place' (place a).rest (f a)) :
    Traced place' t (x >>= f) := by
  cases x with
  | ok a => exact (hf a h).mono h
  | error e => exact h

end Traced

namespace Cursor

theorem rest_next {x : CodePoint} {r : Text} (h : c.rest = x :: r) : c.next.rest = r := by
  unfold next
  rw [h]
  dsimp only
  split_ifs <;> rfl

theorem next_suffix (c : Cursor) : c.next.rest <:+ c.rest := by
  cases h : c.rest with
  | nil => simp [next, h]
  | cons x r => exact rest_next h ▸ List.suffix_cons x r

theorem advance_suffix (n : Nat) (c : Cursor) : (c.advance n).rest <:+ c.rest := by
  induction n generalizing c with
  | zero => exact List.suffix_refl _
  | succ n ih => exact (ih c.next).trans c.next_suffix

theorem span_suffix (c : Cursor) (p : CodePoint → Bool) : (c.span p).2.rest <:+ c.rest :=
  advance_suffix _ c

theorem skipWhile_suffix (c : Cursor) (p : CodePoint → Bool) :
    (c.skipWhile p).rest <:+ c.rest := c.span_suffix p

theorem skipSpaces_suffix (c : Cursor) : c.skipSpaces.rest <:+ c.rest :=
  c.skipWhile_suffix _

theorem lineBreak_suffix (c : Cursor) : c.lineBreak.2.rest <:+ c.rest := by
  unfold lineBreak
  split
  · exact (c.next.next_suffix).trans c.next_suffix
  · split_ifs
    · exact c.next_suffix
    · exact c.next_suffix
    · exact List.suffix_refl _
  · exact List.suffix_refl _

theorem suffix_of_span {p : CodePoint → Bool} {w : Text} (h : c.span p = (w, d)) :
    d.rest <:+ c.rest := by
  simpa [h] using c.span_suffix p

theorem suffix_of_lineBreak {b : Text} (h : c.lineBreak = (b, d)) : d.rest <:+ c.rest := by
  simpa [h] using c.lineBreak_suffix

end Cursor

open Cursor

section Quoted

theorem traced_quotedBreaks (fuel : Nat) (c : Cursor) :
    Traced Prod.snd c.rest (quotedBreaks fuel c) := by
  fun_induction quotedBreaks fuel c
  case case1 => exact List.suffix_refl _
  case case2 => exact .malformed
  case case3 fuel c _ c' _ b d hd ih =>
    refine Traced.mono ?_ ((suffix_of_lineBreak hd).trans (c.skipWhile_suffix isTabOrSpace))
    exact ih.bind fun ⟨bs, e⟩ _ => List.suffix_refl _
  case case4 fuel c _ c' _ => exact c.skipWhile_suffix isTabOrSpace

theorem traced_quotedSpaces (fuel : Nat) (c : Cursor) :
    Traced Prod.snd c.rest (quotedSpaces fuel c) := by
  fun_cases quotedSpaces fuel c
  case case1 => exact .malformed
  case case2 blanks c' hc _ _ b d hd =>
    refine Traced.mono ?_ ((suffix_of_lineBreak hd).trans (suffix_of_span hc))
    refine (traced_quotedBreaks fuel d).bind fun ⟨bs, e⟩ _ => ?_
    dsimp only
    split_ifs <;> exact List.suffix_refl _
  case case3 blanks c' hc _ _ => exact suffix_of_span hc

/-- An escape of fewer than eight digits stands for a character. -/
theorem hexNumber_lt (ds : Text) : hexNumber ds < 16 ^ ds.length := by
  induction ds using List.reverseRecOn with
  | nil => simp [hexNumber]
  | append_singleton ds d ih =>
    have hd : ∀ v ∈ Json.hexValue? d, v < 16 := by
      intro v hv
      unfold Json.hexValue? at hv
      dsimp only at hv
      split_ifs at hv <;> simp at hv <;> omega
    cases hv : Json.hexValue? d with
    | none =>
      simp only [hexNumber, List.filterMap_append, List.filterMap_cons, hv, List.filterMap_nil,
        List.append_nil, List.length_append, List.length_singleton, pow_succ] at ih ⊢
      omega
    | some v =>
      have := hd v hv
      simp only [hexNumber, List.filterMap_append, List.filterMap_cons, hv, List.filterMap_nil,
        List.foldl_append, List.foldl_cons, List.foldl_nil, List.length_append,
        List.length_singleton, pow_succ] at ih ⊢
      omega

theorem traced_escapedNumber {e : CodePoint} {r : Text} {count : Nat}
    (hc : c.rest = .char '\\' :: e :: r) (he : longEscape? e = some count) :
    Traced Prod.snd c.rest (escapedNumber count c.next.next) := by
  have hr : c.next.next.rest = r := rest_next (rest_next hc)
  have hi : .char '\\' :: e :: r.take count <:+: c.rest := by
    rw [hc]
    exact (List.prefix_append (_ :: e :: r.take count) (r.drop count)).isInfix.trans
      (by simp)
  have hstop (x : ScalarError) (hx : x = .codePoint ∨ x = .hugeCodePoint)
      (hn : 0x110000 ≤ hexNumber (r.take count)) : StopsScan c.rest (.scalar x) := by
    have hlt := hexNumber_lt (r.take count)
    have hle := Nat.pow_le_pow_right (n := 16) (by omega) (List.length_take_le count r)
    unfold longEscape? at he
    split at he <;> cases he
    · omega
    · omega
    · exact .escape hi hn hx
  rw [escapedNumber, hr]
  dsimp only
  split_ifs with hl hh hp
  · exact .malformed
  · exact hstop _ (.inr rfl) (le_trans (by decide) hh)
  · exact hstop _ (.inl rfl) hp
  · exact (advance_suffix _ _).trans (c.next.next_suffix.trans c.next_suffix)

theorem traced_quotedWord (double : Bool) (fuel : Nat) (c : Cursor) :
    Traced Prod.snd c.rest (quotedWord double fuel c) := by
  have hnext (c : Cursor) : c.next.next.rest <:+ c.rest :=
    c.next.next_suffix.trans c.next_suffix
  fun_induction quotedWord double fuel c
  case case4 c _ _ _ _ _ _ ih => exact (ih.map _).mono (hnext c)
  case case8 c _ _ _ _ _ _ _ y _ _ ih => exact (ih.map _).mono (hnext c)
  case case9 fuel c x _ _ _ hx e r count he _ hc ih =>
    obtain ⟨hx, -⟩ := Bool.and_eq_true_iff.1 hx
    obtain rfl := eq_of_beq hx
    exact (traced_escapedNumber hc he).bind fun ⟨y, d⟩ _ => (ih d).map _
  case case10 fuel c x _ _ _ _ e r _ _ _ b d hd _ ih =>
    refine Traced.mono ?_ ((suffix_of_lineBreak hd).trans c.next_suffix)
    exact (traced_quotedBreaks fuel d).bind fun ⟨bs, d⟩ _ => (ih d).map _
  case case12 c x _ _ _ _ _ _ ih => exact (ih.map _).mono c.next_suffix
  all_goals first | exact List.suffix_refl _ | exact .malformed

theorem traced_quotedRest (double : Bool) (fuel : Nat) (c : Cursor) :
    Traced Prod.snd c.rest (quotedRest double fuel c) := by
  fun_induction quotedRest double fuel c
  case case1 => exact .malformed
  case case2 fuel c ih =>
    refine (traced_quotedWord double fuel c).bind fun ⟨word, d⟩ _ => ?_
    dsimp only
    refine iteInduction (fun _ => ?_) (fun _ => ?_)
    · exact d.next_suffix
    · refine (traced_quotedSpaces fuel d).bind fun ⟨gap, d⟩ _ => ?_
      exact (ih d).bind fun ⟨more, d⟩ _ => List.suffix_refl d.rest

theorem traced_quotedScalar (double : Bool) (c : Cursor) :
    Traced Prod.snd c.rest (quotedScalar double c) :=
  (traced_quotedRest double _ c.next).mono c.next_suffix

end Quoted

section Plain

theorem plainBreaks_suffix (fuel : Nat) (c : Cursor) : (plainBreaks fuel c).2.rest <:+ c.rest := by
  fun_induction plainBreaks fuel c <;>
    grind [List.IsSuffix.trans, next_suffix, lineBreak_suffix]

theorem plainSpaces_suffix (fuel : Nat) (c : Cursor) :
    (plainSpaces fuel c).2.2.rest <:+ c.rest := by
  fun_cases plainSpaces fuel c <;>
    grind [List.IsSuffix.trans, span_suffix, lineBreak_suffix, plainBreaks_suffix]

theorem plainWord_suffix (flow : Bool) (fuel : Nat) (c : Cursor) :
    (plainWord flow fuel c).2.rest <:+ c.rest := by
  fun_induction plainWord flow fuel c <;>
    grind [List.IsSuffix.trans, next_suffix]

theorem plainRest_suffix (flow : Bool) (indent : Int) (gap : Text) (broken : Bool) (fuel : Nat)
    (c : Cursor) : (plainRest flow indent gap broken fuel c).2.2.rest <:+ c.rest := by
  fun_induction plainRest flow indent gap broken fuel c <;>
    grind [List.IsSuffix.trans, plainWord_suffix, plainSpaces_suffix]

end Plain

section Block

theorem traced_blockHeader (c : Cursor) : Traced (·.2.2) c.rest (blockHeader c) := by
  unfold blockHeader
  extract_lets chomp digit finish
  have hchomp {c d : Cursor} {k : Chomping} (h : chomp c = some (k, d)) : d.rest <:+ c.rest := by
    grind [next_suffix]
  have hdigit {c d : Cursor} {n : Nat} (h : digit c = some (n, d)) : d.rest <:+ c.rest := by
    grind [next_suffix]
  have hfinish (p : Chomping × Option Nat × Cursor) (hp : p.2.2.rest <:+ c.rest) :
      Traced (·.2.2) c.rest (finish p) :=
    iteInduction (fun _ => hp) fun _ => .malformed
  split
  · rename_i k d hd
    split
    · exact .malformed
    · rename_i n e _ he
      exact hfinish (k, some n, e) ((hdigit he).trans (hchomp hd))
    · exact hfinish (k, none, d) (hchomp hd)
  · split
    · exact .malformed
    · rename_i n d _ hd
      split
      · rename_i k e he
        exact hfinish (k, some n, e) ((hchomp he).trans (hdigit hd))
      · exact hfinish (.clip, some n, d) (hdigit hd)
    · exact hfinish (.clip, none, c) (List.suffix_refl _)

theorem traced_ignoredLine (c : Cursor) : Traced id c.rest (ignoredLine c) := by
  fun_cases ignoredLine c
  case case1 c₁ c₂ _ =>
    have h : c₂.rest <:+ c.rest := by
      grind [List.IsSuffix.trans, skipSpaces_suffix, skipWhile_suffix]
    exact c₂.lineBreak_suffix.trans h
  case case2 => exact .malformed

theorem leadingLines_suffix (fuel widest : Nat) (c : Cursor) :
    (leadingLines fuel widest c).2.2.rest <:+ c.rest := by
  fun_induction leadingLines fuel widest c <;>
    grind [List.IsSuffix.trans, next_suffix, lineBreak_suffix]

theorem indentTo_suffix (indent fuel : Nat) (c : Cursor) :
    (indentTo indent fuel c).rest <:+ c.rest := by
  fun_induction indentTo indent fuel c <;> grind [List.IsSuffix.trans, next_suffix]

theorem blockBreaks_suffix (indent fuel : Nat) (c : Cursor) :
    (blockBreaks indent fuel c).2.rest <:+ c.rest := by
  fun_induction blockBreaks indent fuel c <;>
    grind [List.IsSuffix.trans, indentTo_suffix, lineBreak_suffix]

theorem blockLines_suffix (folded : Bool) (indent fuel : Nat) (c : Cursor) :
    (blockLines folded indent fuel c).2.2.2.rest <:+ c.rest := by
  fun_induction blockLines folded indent fuel c <;>
    grind [List.IsSuffix.trans, span_suffix, lineBreak_suffix, blockBreaks_suffix]

theorem traced_blockScalar (folded : Bool) (parent : Int) (c : Cursor) :
    Traced Prod.snd c.rest (blockScalar folded parent c) := by
  unfold blockScalar
  refine Traced.mono ?_ c.next_suffix
  refine (traced_blockHeader c.next).bind fun ⟨chomping, increment, c⟩ _ => ?_
  refine (traced_ignoredLine c).bind fun c _ => ?_
  extract_lets fuel least
  split
  rename_i breaks indent d hd
  have hd : d.rest <:+ c.rest := by
    grind [leadingLines_suffix, blockBreaks_suffix]
  split
  rename_i body last tail e he
  have he : e.rest <:+ d.rest := by
    grind [blockLines_suffix, List.suffix_refl]
  exact he.trans hd

end Block

section Property

theorem traced_anchorName (c : Cursor) : Traced Prod.snd c.rest (anchorName c) := by
  fun_cases anchorName c
  case case1 => exact .malformed
  case case2 name d hd _ _ => exact (suffix_of_span hd).trans c.next_suffix

theorem traced_escapedBytes (fuel : Nat) (c : Cursor) :
    Traced Prod.snd c.rest (escapedBytes fuel c) := by
  fun_induction escapedBytes fuel c
  case case2 c _ _ _ _ _ _ _ _ ih => exact (ih.map _).mono (advance_suffix 3 c)
  all_goals first | exact List.suffix_refl _ | exact .malformed

theorem traced_uri (fuel : Nat) (c : Cursor) : Traced Prod.snd c.rest (uri fuel c) := by
  fun_induction uri fuel c
  case case2 fuel c _ ih =>
    refine (traced_escapedBytes _ c).bind fun ⟨bs, d⟩ _ => ?_
    dsimp only
    split
    · exact .malformed
    · exact (ih d).map _
  case case4 c _ _ d hd _ ih => exact (ih.map _).mono (suffix_of_span hd)
  case case3 c _ _ d hd _ => exact suffix_of_span hd
  case case1 => exact List.suffix_refl _

theorem traced_someUri (c : Cursor) : Traced Prod.snd c.rest (someUri c) := by
  unfold someUri
  split
  · exact traced_uri _ c
  · exact .malformed

theorem traced_tagHandle (c : Cursor) : Traced Prod.snd c.rest (tagHandle c) := by
  fun_cases tagHandle c
  case case2 => exact c.next_suffix
  case case3 name d hd _ =>
    exact d.next_suffix.trans ((suffix_of_span hd).trans c.next_suffix)
  all_goals exact .malformed

theorem traced_tagToken (c : Cursor) : Traced Prod.snd c.rest (tagToken c) := by
  unfold tagToken
  extract_lets finish word suffixed
  have hfinish (t : Token) (d : Cursor) : Traced Prod.snd d.rest (finish (t, d)) :=
    iteInduction (fun _ => List.suffix_refl _) fun _ => .malformed
  have hsuffixed (handle : Text) (d : Cursor) : Traced Prod.snd d.rest (suffixed (handle, d)) :=
    (traced_someUri d).bind fun ⟨suffix, d⟩ _ => hfinish (.tag (some handle) suffix) d
  split
  · refine Traced.mono ?_ (advance_suffix 2 c)
    refine (traced_someUri _).bind fun ⟨suffix, d⟩ _ => ?_
    dsimp only
    split
    · exact (hfinish (.tag none suffix) d.next).mono d.next_suffix
    · exact .malformed
  split
  · exact (hfinish (.tag none "!") c.next).mono c.next_suffix
  split
  · exact (traced_tagHandle c).bind fun ⟨handle, d⟩ _ => hsuffixed handle d
  · exact (hsuffixed "!" c.next).mono c.next_suffix

theorem traced_versionNumber (c : Cursor) : Traced Prod.snd c.rest (versionNumber c) := by
  fun_cases versionNumber c
  case case1 => exact .malformed
  case case2 ds d hd _ hl =>
    obtain rfl : c.rest.takeWhile CodePoint.isAsciiDigit = ds := congrArg Prod.fst hd
    exact .version (List.takeWhile_prefix _).isInfix (fun x hx => List.mem_takeWhile_imp hx) hl
  case case3 ds d hd _ _ => exact suffix_of_span hd

theorem traced_directiveToken (c : Cursor) : Traced Prod.snd c.rest (directiveToken c) := by
  have hfinish (x : Directive) (d : Cursor) : Traced Prod.snd d.rest
      (do let d ← ignoredLine d; return (Token.directive x, d)) :=
    (traced_ignoredLine d).bind fun d _ => List.suffix_refl d.rest
  unfold directiveToken
  split
  rename_i name d hd
  refine Traced.mono ?_ ((suffix_of_span hd).trans c.next_suffix)
  dsimp only
  refine iteInduction (fun _ => .malformed) fun _ => ?_
  refine iteInduction (fun _ => ?_) fun _ => iteInduction (fun _ => ?_) fun _ => ?_
  · refine Traced.mono ?_ d.skipSpaces_suffix
    refine (traced_versionNumber _).bind fun ⟨major, d⟩ _ => ?_
    refine iteInduction (fun _ => .malformed) fun _ => Traced.mono ?_ d.next_suffix
    refine (traced_versionNumber _).bind fun ⟨minor, d⟩ _ => ?_
    exact iteInduction (fun _ => .malformed) fun _ => hfinish (.version major minor) d
  · refine Traced.mono ?_ d.skipSpaces_suffix
    refine (traced_tagHandle _).bind fun ⟨handle, d⟩ _ => ?_
    refine iteInduction (fun _ => .malformed) fun _ => Traced.mono ?_ d.skipSpaces_suffix
    refine (traced_someUri _).bind fun ⟨stem, d⟩ _ => ?_
    exact iteInduction (fun _ => .malformed) fun _ => hfinish (.tagHandle handle stem) d
  · exact (hfinish .reserved _).mono (d.skipWhile_suffix _)

end Property

namespace Scan

def isFailure : Token → Bool
  | .failure _ => true
  | _ => false

/-- A scan that is somewhere in a text and has met no failure. -/
structure Clean (t : Text) (s : Scan) : Prop where
  forward : s.cursor.rest <:+ t
  proper : ∀ x ∈ s.tokens, isFailure x = false

/-- The next state of a scan, or an error that the text accounts for. -/
def Goes (t : Text) : Except LoadError Scan → Prop
  | .ok s => s.Clean t
  | .error e => StopsScan t e

variable {s : Scan} {x : Token}

theorem Goes.bind {y : Except LoadError Scan} {f : Scan → Except LoadError Scan} (h : Goes t y)
    (hf : ∀ s, s.Clean t → Goes t (f s)) : Goes t (y >>= f) := by
  cases y with
  | ok s => exact hf s h
  | error e => exact h

theorem Goes.malformed : Goes t (.error .malformed) := StopsScan.malformed

def IsProper (x : Except LoadError (Token × Cursor)) : Prop :=
  ∀ p, x = .ok p → isFailure p.1 = false

theorem IsProper.bind (y : Except LoadError α) {f : α → Except LoadError (Token × Cursor)}
    (hf : ∀ a, IsProper (f a)) : IsProper (y >>= f) := by
  intro p hp
  cases y with
  | ok a => exact hf a p hp
  | error e => cases hp

theorem IsProper.ok (hx : isFailure x = false) (c : Cursor) : IsProper (.ok (x, c)) := by
  rintro p ⟨⟩
  exact hx

theorem IsProper.error (e : LoadError) : IsProper (.error e) := fun _ hp => nomatch hp

theorem isProper_tagToken (c : Cursor) : IsProper (tagToken c) := by
  unfold tagToken
  extract_lets finish word suffixed
  have hfinish (handle : Option Text) (suffix : Text) (d : Cursor) :
      IsProper (finish (.tag handle suffix, d)) :=
    iteInduction (fun _ => .ok rfl d) fun _ => .error _
  have hsuffixed (p : Text × Cursor) : IsProper (suffixed p) := .bind _ fun q => hfinish _ q.1 q.2
  refine iteInduction (fun _ => .bind _ fun q => ?_) fun _ =>
    iteInduction (fun _ => hfinish none "!" c.next) fun _ => ?_
  · exact iteInduction (fun _ => hfinish none q.1 q.2.next) fun _ => .error _
  · exact iteInduction (fun _ => .bind _ hsuffixed) fun _ => hsuffixed ("!", c.next)

theorem isProper_directiveToken (c : Cursor) : IsProper (directiveToken c) := by
  have hfinish (x : Directive) (d : Cursor) :
      IsProper (do let d ← ignoredLine d; return (Token.directive x, d)) :=
    .bind _ fun d => .ok rfl d
  unfold directiveToken
  split
  rename_i name d _
  dsimp only
  refine iteInduction (fun _ => .error _) fun _ => ?_
  refine iteInduction (fun _ => .bind _ fun ⟨major, d⟩ => ?_) fun _ =>
    iteInduction (fun _ => .bind _ fun ⟨handle, d⟩ => ?_) fun _ => hfinish .reserved _
  · refine iteInduction (fun _ => .error _) fun _ => .bind _ fun ⟨minor, d⟩ => ?_
    exact iteInduction (fun _ => .error _) fun _ => hfinish (.version major minor) d
  · refine iteInduction (fun _ => .error _) fun _ => .bind _ fun ⟨stem, d⟩ => ?_
    exact iteInduction (fun _ => .error _) fun _ => hfinish (.tagHandle handle stem) d

namespace Clean

/-- What else the state holds does not count. -/
theorem congr {s' : Scan} (h : s.Clean t) (hc : s'.cursor = s.cursor)
    (ht : s'.tokens = s.tokens) : s'.Clean t :=
  ⟨hc ▸ h.forward, ht ▸ h.proper⟩

theorem moved (h : s.Clean t) (hc : c.rest <:+ s.cursor.rest) : { s with cursor := c }.Clean t :=
  ⟨hc.trans h.forward, h.proper⟩

theorem push (h : s.Clean t) (hx : isFailure x = false) : (s.push x).Clean t :=
  ⟨h.forward, List.forall_mem_cons.2 ⟨hx, h.proper⟩⟩

theorem pushAt (h : s.Clean t) (hc : c.rest <:+ s.cursor.rest) (hx : isFailure x = false) :
    (s.pushAt c x).Clean t :=
  (h.push hx).moved hc

theorem next (h : s.Clean t) (x : Token) (hx : isFailure x = false) :
    (s.pushAt s.cursor.next x).Clean t :=
  h.pushAt s.cursor.next_suffix hx

theorem insertAt (h : s.Clean t) (n : Nat) (hx : isFailure x = false) :
    (s.insertAt n x).Clean t := by
  refine ⟨h.forward, fun y hy => ?_⟩
  rcases List.mem_append.1 hy with hy | hy
  · exact h.proper y (List.mem_of_mem_take hy)
  · rcases List.mem_cons.1 hy with rfl | hy
    · exact hx
    · exact h.proper y (List.mem_of_mem_drop hy)

theorem skipGaps (h : s.Clean t) (fuel : Nat) : (s.skipGaps fuel).Clean t := by
  have hgap (c : Cursor) :
      (if c.skipSpaces.has 0 (· == '#') then c.skipSpaces.skipWhile (!isBreak ·)
        else c.skipSpaces).rest <:+ c.rest := by
    split
    · exact (skipWhile_suffix _ _).trans c.skipSpaces_suffix
    · exact c.skipSpaces_suffix
  induction fuel generalizing s with
  | zero => exact h
  | succ fuel ih =>
    refine iteInduction (fun _ => ih ?_) fun _ => h.moved (hgap s.cursor)
    exact (h.moved ((lineBreak_suffix _).trans (hgap s.cursor))).congr rfl rfl

theorem toNextToken (h : s.Clean t) : s.toNextToken.Clean t :=
  skipGaps (iteInduction (fun _ => h.moved s.cursor.next_suffix) fun _ => h) _

theorem unwindFrom (h : s.Clean t) (column : Int) (is : List Int) :
    (Scan.unwindFrom column is s).Clean t := by
  induction is generalizing s with
  | nil => exact h
  | cons i is ih =>
    exact iteInduction (fun _ => ih ((h.push (x := .blockEnd) rfl).congr rfl rfl)) fun _ => h

theorem unwind (h : s.Clean t) (column : Int) : (s.unwind column).Clean t :=
  iteInduction (fun _ => h.unwindFrom column _) fun _ => h

/-- A block collection may be opened, here or further back. -/
theorem opened (h : s.Clean t) (column : Int) {f : Scan → Scan}
    (hf : ∀ s, s.Clean t → (f s).Clean t) :
    (match s.deepen column with
      | some s => f s
      | none => s).Clean t := by
  split
  · rename_i s' hs
    unfold Scan.deepen at hs
    split at hs <;> cases hs
    exact hf _ (h.congr rfl rfl)
  · exact h

theorem openBlock (h : s.Clean t) (hx : isFailure x = false) : (s.openBlock x).Clean t :=
  h.opened _ fun _ h => h.push hx

theorem dropStaleKeys (h : s.Clean t) : Goes t s.dropStaleKeys :=
  iteInduction (fun _ => .malformed) fun _ => h.congr rfl rfl

theorem dropKey (h : s.Clean t) : Goes t s.dropKey :=
  iteInduction (fun _ => .malformed) fun _ => h.congr rfl rfl

theorem saveKey (h : s.Clean t) : Goes t s.saveKey :=
  iteInduction (fun _ => h.dropKey.bind fun _ h => h.congr rfl rfl) fun _ => h

theorem closeAll (h : s.Clean t) : Goes t s.closeAll :=
  (h.unwind (-1)).dropKey.bind fun _ h => h.congr rfl rfl

theorem separator (h : s.Clean t) (hx : isFailure x = false) : Goes t (s.separator x) :=
  h.closeAll.bind fun s h => h.pushAt (advance_suffix 3 s.cursor) hx

theorem flowStart (h : s.Clean t) (hx : isFailure x = false) : Goes t (s.flowStart x) :=
  h.saveKey.bind fun _ h => (h.next x hx).congr rfl rfl

theorem flowEnd (h : s.Clean t) (hx : isFailure x = false) : Goes t (s.flowEnd x) := by
  refine h.dropKey.bind fun s h => ?_
  split
  · exact .malformed
  · exact (h.next x hx).congr rfl rfl

theorem flowEntry (h : s.Clean t) : Goes t s.flowEntry :=
  h.dropKey.bind fun _ h => (h.next .flowEntry rfl).congr rfl rfl

theorem blockEntry (h : s.Clean t) : Goes t s.blockEntry := by
  refine iteInduction (fun _ => .malformed) fun _ => ?_
  refine Goes.bind (dropKey ?_) fun _ h => (h.next .blockEntry rfl).congr rfl rfl
  exact iteInduction (fun _ => h.openBlock rfl) fun _ => h

theorem explicitKey (h : s.Clean t) : Goes t s.explicitKey := by
  refine iteInduction (fun _ => .malformed) fun _ => ?_
  refine Goes.bind (dropKey ?_) fun _ h => (h.next .key rfl).congr rfl rfl
  exact iteInduction (fun _ => h.openBlock rfl) fun _ => h

theorem value (h : s.Clean t) : Goes t s.value := by
  unfold Scan.value
  split
  · rename_i k _
    have hc : Clean t { s with keys := s.keys.filter fun p => p.1 != s.flow } := h.congr rfl rfl
    have hk := hc.insertAt k.tokens (x := .key) rfl
    exact (next (iteInduction (fun _ => hk.opened _ fun _ h => h.insertAt k.tokens rfl) fun _ => hk)
      .value rfl).congr rfl rfl
  · refine iteInduction (fun _ => .malformed) fun _ => ?_
    refine Goes.bind (dropKey ?_) fun _ h => (h.next .value rfl).congr rfl rfl
    exact iteInduction (fun _ => h.openBlock rfl) fun _ => h

theorem keyable (h : s.Clean t) {scan : Cursor → Except LoadError (Token × Cursor)}
    (hs : ∀ c, Traced Prod.snd c.rest (scan c))
    (hx : ∀ c, IsProper (scan c)) : Goes t (s.keyable scan) := by
  refine h.saveKey.bind fun s h => ?_
  have hc := hs s.cursor
  cases hp : scan s.cursor with
  | error e =>
    rw [hp] at hc
    exact StopsScan.mono hc h.forward
  | ok p =>
    rw [hp] at hc
    exact (h.pushAt hc (hx _ p hp)).congr rfl rfl

theorem keyable_map (h : s.Clean t) {scan : Cursor → Except LoadError (Text × Cursor)}
    (hs : ∀ c, Traced Prod.snd c.rest (scan c)) (f : Text → Token)
    (hx : ∀ w, isFailure (f w) = false) :
    Goes t (s.keyable fun c => (scan c).map fun p => (f p.1, p.2)) := by
  refine h.keyable (fun c => (hs c).map f) fun c => ?_
  cases scan c with
  | ok p => exact .ok (hx p.1) p.2
  | error e => exact .error e

theorem block (h : s.Clean t) (folded : Bool) : Goes t (s.block folded) := by
  refine h.dropKey.bind fun s h => ?_
  have hc := traced_blockScalar folded s.indent s.cursor
  cases hp : blockScalar folded s.indent s.cursor with
  | error e =>
    rw [hp] at hc
    exact StopsScan.mono hc h.forward
  | ok p =>
    rw [hp] at hc
    exact (h.pushAt (x := .scalar false p.1) hc rfl).congr rfl rfl

theorem plain (h : s.Clean t) : Goes t s.plain := by
  refine h.saveKey.bind fun s h => ?_
  have hc := plainRest_suffix (s.flow != 0) (s.indent + 1) [] false (s.cursor.left + 1) s.cursor
  split
  rename_i w broken c hp
  rw [show plainRest _ _ _ _ _ s.cursor = _ from hp] at hc
  exact (h.pushAt (x := .scalar true w) hc rfl).congr rfl rfl

theorem directive (h : s.Clean t) : Goes t (do
    let s ← s.closeAll
    let (x, c) ← directiveToken s.cursor
    return s.pushAt c x) := by
  refine h.closeAll.bind fun s h => ?_
  have hc := traced_directiveToken s.cursor
  cases hp : directiveToken s.cursor with
  | error e =>
    rw [hp] at hc
    exact StopsScan.mono hc h.forward
  | ok p =>
    rw [hp] at hc
    exact h.pushAt hc (isProper_directiveToken _ p hp)

theorem token (h : s.Clean t) (c : CodePoint) : Goes t (s.token c) := by
  unfold Scan.token
  refine iteInduction (fun _ => h.directive) fun _ => ?_
  refine iteInduction (fun _ => h.separator rfl) fun _ => ?_
  refine iteInduction (fun _ => h.separator rfl) fun _ => ?_
  refine iteInduction (fun _ => h.flowStart rfl) fun _ => ?_
  refine iteInduction (fun _ => h.flowStart rfl) fun _ => ?_
  refine iteInduction (fun _ => h.flowEnd rfl) fun _ => ?_
  refine iteInduction (fun _ => h.flowEnd rfl) fun _ => ?_
  refine iteInduction (fun _ => h.flowEntry) fun _ => ?_
  refine iteInduction (fun _ => h.blockEntry) fun _ => ?_
  refine iteInduction (fun _ => h.explicitKey) fun _ => ?_
  refine iteInduction (fun _ => h.value) fun _ => ?_
  refine iteInduction (fun _ => h.keyable_map traced_anchorName .alias fun _ => rfl) fun _ => ?_
  refine iteInduction (fun _ => h.keyable_map traced_anchorName .anchor fun _ => rfl) fun _ => ?_
  refine iteInduction (fun _ => h.keyable traced_tagToken isProper_tagToken) fun _ => ?_
  refine iteInduction (fun _ => h.block false) fun _ => ?_
  refine iteInduction (fun _ => h.block true) fun _ => ?_
  refine iteInduction (fun _ => h.keyable_map (traced_quotedScalar false) (.scalar false)
    fun _ => rfl) fun _ => ?_
  refine iteInduction (fun _ => h.keyable_map (traced_quotedScalar true) (.scalar false)
    fun _ => rfl) fun _ => ?_
  exact iteInduction (fun _ => h.plain) fun _ => .malformed

theorem step (h : s.Clean t) : Goes t s.step := by
  refine h.toNextToken.dropStaleKeys.bind fun s h => ?_
  have hu := h.unwind s.cursor.column
  dsimp only
  split
  · exact hu.closeAll.bind fun s h => h.push rfl
  · exact hu.token _

theorem failed (h : s.Clean t) {e : LoadError} (he : StopsScan t e) :
    ∀ x, .failure x ∈ s.failed e → StopsScan t x := by
  intro x hx
  rcases List.mem_cons.1 hx with hx | hx
  · cases hx
    exact he
  · cases h.proper _ (List.mem_of_mem_drop hx)

theorem run (h : s.Clean t) (fuel : Nat) : ∀ e, .failure e ∈ s.run fuel → StopsScan t e := by
  induction fuel generalizing s with
  | zero => exact fun e he => Bool.noConfusion (h.proper _ he)
  | succ fuel ih =>
    have hs := h.step
    rw [Scan.run]
    cases hp : s.step with
    | error e =>
      rw [hp] at hs
      exact h.failed hs
    | ok s' =>
      rw [hp] at hs
      dsimp only
      split
      · exact fun e he => Bool.noConfusion (hs.proper _ he)
      · exact ih hs

end Clean

end Scan

/-- The tokens of a text end in a failure only for a reason that is in the text. -/
theorem stopsScan_of_failure {e : LoadError} (h : .failure e ∈ Token.ofText t) :
    StopsScan t e := by
  unfold Token.ofText at h
  split at h
  · have hc : Scan.Clean t (Scan.start t) :=
      ⟨List.suffix_refl t, fun _ hx => absurd hx List.not_mem_nil⟩
    exact hc.run _ e (List.mem_reverse.1 h)
  · cases List.mem_singleton.1 h
    exact .malformed

end RouteAtlas.Yaml
