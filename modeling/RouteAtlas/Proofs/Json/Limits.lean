import Mathlib
import RouteAtlas.Json.Reader

/-!
# What stops the JSON reader

Beside a fault of its form, a text is refused only for more digits in a row, or more opening
brackets, than the limits allow.
-/

namespace RouteAtlas.Json

def isOpening (c : CodePoint) : Bool := c == '[' || c == '{'

/-- What can stop the reading of a text in which `room` more containers may open. -/
inductive Stops (room : Nat) (t : Text) : ReadError → Prop
  | malformed : Stops room t .malformed
  | tooManyDigits {ds : Text} (hi : ds <:+: t) (hd : ∀ c ∈ ds, c.isAsciiDigit)
      (hl : Decimal.maxDigits < ds.length) : Stops room t (.tooManyDigits ds.length)
  | tooDeep (opened : Container) (h : room < t.countP isOpening) : Stops room t (.tooDeep opened)

/-- A result that leaves an end of the text, or an error that the text accounts for. -/
def Traces {α : Type} (room : Nat) (t : Text) : Except ReadError (α × Text) → Prop
  | .ok p => p.2 <:+ t
  | .error e => Stops room t e

variable {α β : Type} {bounded : Bool} {room : Nat} {t r : Text}

theorem Stops.mono {e : ReadError} (h : Stops room r e) (hr : r <:+ t) : Stops room t e := by
  cases h with
  | malformed => exact .malformed
  | tooManyDigits hi hd hl => exact .tooManyDigits (hi.trans hr.isInfix) hd hl
  | tooDeep opened h => exact .tooDeep opened (h.trans_le (hr.sublist.countP_le))

/-- The bracket that was read makes up for the room that it took. -/
theorem Stops.behind {e : ReadError} {c : CodePoint} (hc : isOpening c) (hr : 0 < room)
    (h : Stops (room - 1) r e) : Stops room (c :: r) e := by
  cases h with
  | malformed => exact .malformed
  | tooManyDigits hi hd hl => exact .tooManyDigits (hi.trans (List.suffix_cons c r).isInfix) hd hl
  | tooDeep opened h =>
    refine .tooDeep opened ?_
    rw [List.countP_cons_of_pos hc]
    omega

namespace Traces

theorem mono {x : Read α} (h : Traces room r x) (hr : r <:+ t) : Traces room t x := by
  cases x with
  | ok p => exact List.IsSuffix.trans h hr
  | error e => exact Stops.mono h hr

/-- A container is refused where there is no room for it. -/
theorem opened {x : Read α} {c : CodePoint} (hc : isOpening c) (k : Container)
    (h : Traces (room - 1) r x) :
    Traces room (c :: r) (if room = 0 then .error (.tooDeep k) else x) := by
  split
  · rename_i h0
    exact .tooDeep k (by simp [h0, List.countP_cons_of_pos hc])
  · rename_i h0
    cases x with
    | ok p => exact List.IsSuffix.trans h (List.suffix_cons c r)
    | error e => exact Stops.behind hc (Nat.pos_of_ne_zero h0) h

theorem malformed : Traces room t (.error .malformed : Read α) := Stops.malformed

theorem map {x : Read α} (f : α → β) (h : Traces room t x) :
    Traces room t (x.map fun p => (f p.1, p.2)) := by
  cases x with
  | ok p => exact h
  | error e => exact h

theorem bind {x : Except ReadError (α × Text)} {f : α × Text → Except ReadError (β × Text)}
    (h : Traces room t x) (hf : ∀ a r, r <:+ t → Traces room r (f (a, r))) :
    Traces room t (x >>= f) := by
  cases x with
  | ok p => exact (hf p.1 p.2 h).mono h
  | error e => exact h

end Traces

theorem skipSpace_suffix (t : Text) : skipSpace t <:+ t := List.dropWhile_suffix _

theorem suffix_of_skipSpace {c : CodePoint} (h : skipSpace t = c :: r) : r <:+ t :=
  (List.suffix_cons c r).trans (h ▸ skipSpace_suffix t)

theorem suffix_of_after {w : Text} (h : Text.after w t = some r) : r <:+ t :=
  ⟨w, (Text.eq_append_of_after h).symm⟩

section Strings

theorem suffix_of_hex4? {n : Nat} (h : hex4? t = some (n, r)) : r <:+ t := by
  unfold hex4? at h
  split at h
  · rename_i a b c d rest
    simp only [Option.bind_eq_bind, Option.bind_eq_some_iff] at h
    obtain ⟨_, _, _, _, _, _, _, _, h⟩ := h
    cases h
    exact ⟨[a, b, c, d], rfl⟩
  · cases h

theorem suffix_getD {o : Option (α × Text)} {a : α} (h : ∀ p ∈ o, p.2 <:+ t) :
    (o.getD (a, t)).2 <:+ t := by
  cases o with
  | none => exact List.suffix_refl t
  | some p => exact h p rfl

theorem suffix_of_unicodeEscape? {x : CodePoint} (h : unicodeEscape? t = some (x, r)) :
    r <:+ t := by
  unfold unicodeEscape? at h
  obtain ⟨⟨high, r'⟩, hh, h⟩ := Option.bind_eq_some_iff.1 h
  refine List.IsSuffix.trans ?_ (suffix_of_hex4? hh)
  obtain rfl := congrArg Prod.snd (Option.some.inj h)
  refine suffix_getD fun p hp => ?_
  obtain ⟨_, _, hp⟩ := Option.bind_eq_some_iff.1 hp
  obtain ⟨r₁, ha, hp⟩ := Option.bind_eq_some_iff.1 hp
  obtain ⟨⟨low, r₂⟩, hl, hp⟩ := Option.bind_eq_some_iff.1 hp
  obtain ⟨_, _, hp⟩ := Option.bind_eq_some_iff.1 hp
  obtain rfl := Option.some.inj hp
  exact (suffix_of_hex4? hl).trans (suffix_of_after ha)

theorem traces_readString (room fuel : Nat) (t : Text) : Traces room t (readString fuel t) := by
  induction fuel generalizing t with
  | zero => exact .malformed
  | succ fuel ih =>
    cases t with
    | nil => exact .malformed
    | cons c r =>
      have hmap {r' : Text} (x : CodePoint) (hr : r' <:+ r) :
          Traces room (c :: r) ((readString fuel r').map fun p => (x :: p.1, p.2)) :=
        ((ih r').map (x :: ·)).mono (hr.trans (List.suffix_cons c r))
      rw [readString.eq_def]
      dsimp only
      split
      · exact List.suffix_cons c r
      split
      · split
        · exact .malformed
        · rename_i e r
          have hr := List.suffix_cons e r
          split
          · split
            · exact .malformed
            · rename_i x r' hx
              exact hmap x ((suffix_of_unicodeEscape? hx).trans hr)
          · split
            · exact .malformed
            · exact hmap _ hr
      split
      · exact .malformed
      · exact hmap c (List.suffix_refl r)

end Strings

section Numbers

theorem map_digitsAhead (t : Text) :
    (digitsAhead t).1.map .char = t.takeWhile (·.isAsciiDigit) := by
  induction t with
  | nil => rfl
  | cons c t ih =>
    cases hc : c.isAsciiDigit with
    | false => simp [digitsAhead, hc]
    | true =>
      cases c with
      | char d => simpa [digitsAhead, hc] using ih
      | lone n =>
        have hn : 0xD800 + n.val ≤ 0x39 := by
          simp [CodePoint.isAsciiDigit, within, CodePoint.toNat] at hc
          exact of_decide_eq_true hc.2
        omega

theorem digitsAhead_suffix (t : Text) : (digitsAhead t).2 <:+ t := List.dropWhile_suffix _

theorem fraction_suffix (t : Text) : (fraction t).2 <:+ t := by
  unfold fraction
  split
  · rename_i r
    dsimp only
    split
    · exact List.suffix_refl _
    · exact (digitsAhead_suffix r).trans (List.suffix_cons _ r)
  · exact List.suffix_refl _

theorem suffix_of_exponent? (t : Text) : ∀ p ∈ exponent? t, p.2 <:+ t := by
  fun_cases exponent? t
  case case2 c r hc negative s hs ds rest hd _ =>
    intro p hp
    cases hp
    have hr : s <:+ r := by
      split at hs <;> cases hs
      · exact List.suffix_cons _ _
      · exact List.suffix_cons _ _
      · exact List.suffix_refl _
    exact (hd ▸ digitsAhead_suffix s).trans (hr.trans (List.suffix_cons c r))
  all_goals exact fun p hp => nomatch hp

/-- The digits of the integer stand in the text, and what is behind them is an end of it. -/
theorem integer_traces {whole : List Char} (h : (match t with
      | .char '0' :: r => (['0'], r)
      | _ => digitsAhead t) = (whole, r)) :
    whole.map .char <:+: t ∧ (∀ c ∈ whole.map CodePoint.char, c.isAsciiDigit) ∧ r <:+ t := by
  split at h
  · cases h
    exact ⟨(List.prefix_append [_] _).isInfix, List.forall_mem_singleton.2 rfl,
      List.suffix_cons _ _⟩
  · obtain ⟨rfl, rfl⟩ : (digitsAhead t).1 = whole ∧ (digitsAhead t).2 = r := by simp [h]
    rw [map_digitsAhead]
    exact ⟨(List.takeWhile_prefix _).isInfix, fun c hc => List.mem_takeWhile_imp hc,
      digitsAhead_suffix t⟩

theorem traces_readMagnitude (room : Nat) (bounded negative : Bool) (t : Text) :
    Traces room t (readMagnitude bounded negative t) := by
  fun_cases readMagnitude bounded negative t
  case case1 => exact .malformed
  case case2 whole r hp _ rest _ hl _ =>
    obtain ⟨hi, hd, -⟩ := integer_traces hp
    have hl' : Decimal.maxDigits < (whole.map CodePoint.char).length := by
      simpa using (Bool.and_eq_true_iff.1 hl).2
    have hs : Stops room t _ := .tooManyDigits hi hd hl'
    rwa [List.length_map] at hs
  case case3 whole r hp _ rest _ _ n hf =>
    exact (hf ▸ fraction_suffix r).trans (integer_traces hp).2.2
  case case4 whole r hp _ part rest hf power r' he _ =>
    have hr := (hf ▸ fraction_suffix r).trans (integer_traces hp).2.2
    have h := suffix_getD (a := 0) (suffix_of_exponent? rest)
    exact (he ▸ h).trans hr

theorem traces_readNumber (room : Nat) (bounded : Bool) (t : Text) :
    Traces room t (readNumber bounded t) := by
  unfold readNumber
  split
  · rename_i r
    split
    · rename_i h
      exact (suffix_of_after h).trans (List.suffix_cons _ r)
    · exact (traces_readMagnitude room bounded true r).mono (List.suffix_cons _ r)
  · exact traces_readMagnitude room bounded false t

end Numbers

theorem suffix_of_word? {v : Json} (h : word? t = some (v, r)) : r <:+ t := by
  obtain ⟨w, -, h⟩ := List.exists_of_findSome?_eq_some h
  obtain ⟨r', ha, h⟩ := Option.map_eq_some_iff.1 h
  cases h
  exact suffix_of_after ha

mutual

theorem traces_readValue (bounded : Bool) (room fuel : Nat) (t : Text) :
    Traces room t (readValue bounded room fuel t) := by
  cases fuel with
  | zero => exact .malformed
  | succ fuel =>
    rw [readValue.eq_def]
    dsimp only
    split
    · rename_i r
      exact ((traces_readString room fuel r).map _).mono (List.suffix_cons _ r)
    · rename_i r
      refine .opened rfl _ ?_
      split
      · rename_i r' hr
        exact suffix_of_skipSpace hr
      · exact ((traces_readItems bounded (room - 1) fuel _).map _).mono (skipSpace_suffix r)
    · rename_i r
      refine .opened rfl _ ?_
      split
      · rename_i r' hr
        exact suffix_of_skipSpace hr
      · exact ((traces_readFields bounded (room - 1) fuel _).map
          fun fs => obj (Pairs.ofList fs)).mono (skipSpace_suffix r)
    · split
      · rename_i p hw
        exact suffix_of_word? (r := p.2) hw
      · exact traces_readNumber room bounded t

theorem traces_readItems (bounded : Bool) (room fuel : Nat) (t : Text) :
    Traces room t (readItems bounded room fuel t) := by
  cases fuel with
  | zero => exact .malformed
  | succ fuel =>
    rw [readItems]
    refine (traces_readValue bounded room fuel t).bind fun v r _ => ?_
    dsimp only
    split
    · rename_i r' hr
      exact suffix_of_skipSpace hr
    · rename_i r' hr
      have hr' := (skipSpace_suffix r').trans (suffix_of_skipSpace hr)
      exact ((traces_readItems bounded room fuel (skipSpace r')).map _).mono hr'
    · exact .malformed

theorem traces_readFields (bounded : Bool) (room fuel : Nat) (t : Text) :
    Traces room t (readFields bounded room fuel t) := by
  cases fuel with
  | zero => exact .malformed
  | succ fuel =>
    rw [readFields.eq_def]
    dsimp only
    split
    · rename_i r
      refine Traces.mono ?_ (List.suffix_cons _ r)
      refine (traces_readString room fuel r).bind fun k r _ => ?_
      dsimp only
      split
      · rename_i r' hr
        refine Traces.mono ?_ ((skipSpace_suffix r').trans (suffix_of_skipSpace hr))
        refine (traces_readValue bounded room fuel _).bind fun v r _ => ?_
        dsimp only
        split
        · rename_i r' hr
          exact suffix_of_skipSpace hr
        · rename_i r' hr
          have hr' := (skipSpace_suffix r').trans (suffix_of_skipSpace hr)
          exact ((traces_readFields bounded room fuel (skipSpace r')).map _).mono hr'
        · exact .malformed
      · exact .malformed
    · exact .malformed

end

/-- A text is refused for its form, or for what the limits say of it. -/
theorem stops_of_ofText {e : ReadError} (h : ofText bounded t = .error e) :
    Stops maxDepth t e := by
  have hv := (traces_readValue bounded maxDepth (2 * t.length + 2) (skipSpace t)).mono
    (skipSpace_suffix t)
  rw [ofText] at h
  cases hr : readValue bounded maxDepth (2 * t.length + 2) (skipSpace t) with
  | error x =>
    rw [hr] at h hv
    cases h
    exact hv
  | ok p =>
    rw [hr] at h
    simp only [bind, Except.bind] at h
    split at h
    · cases h
    · cases h
      exact .malformed

end RouteAtlas.Json
