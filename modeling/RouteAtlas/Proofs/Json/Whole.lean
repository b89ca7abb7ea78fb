import RouteAtlas.Json.Printer
import RouteAtlas.Proofs.Text.Utf8

/-!
# Texts of values without lone surrogates

The JSON text of a value has a form in UTF-8 if and only if no text in the value holds a surrogate
that stands alone.
-/

namespace RouteAtlas.Json

mutual

def isWhole : Json → Bool
  | .str t => t.isWhole
  | .list vs => itemsAreWhole vs
  | .obj fs => fieldsAreWhole fs
  | .shared _ v => isWhole v
  | _ => true

def itemsAreWhole : List Json → Bool
  | [] => true
  | v :: vs => isWhole v && itemsAreWhole vs

def fieldsAreWhole : List (Text × Json) → Bool
  | [] => true
  | (k, v) :: fs => k.isWhole && isWhole v && fieldsAreWhole fs

end

theorem isWhole_ofString (s : String) : (Text.ofString s).isWhole := Text.isWhole_map_char s.toList

theorem isWhole_ofInt (n : Int) : (Text.ofInt n).isWhole := by
  cases n with
  | ofNat n => exact Text.isWhole_map_char _
  | negSucc n => exact Text.isWhole_map_char ('-' :: Nat.toDigits 10 (n + 1))

theorem isWhole_writeDigits (digits : Nat) (k : Int) : (Binary.writeDigits digits k).isWhole :=
  Text.isWhole_map_char _

theorem isWhole_text (x : Binary) : x.text.isWhole := by
  cases x with
  | finite s m q =>
    have h : Text.isWhole (if m = 0 then "0.0" else
        Binary.writeDigits (Binary.shortest m q).1 (Binary.shortest m q).2) := by
      split
      · exact isWhole_ofString _
      · exact isWhole_writeDigits _ _
    cases s
    · exact h
    · exact h
  | infinite s => cases s <;> exact isWhole_ofString _
  | undefined => exact isWhole_ofString _

theorem isWhole_ofBinary (x : Binary) : (ofBinary x).isWhole := by
  cases x with
  | finite s m q => exact isWhole_text (.finite s m q)
  | infinite s => cases s <;> exact isWhole_ofString _
  | undefined => exact isWhole_ofString _

/-- No escape is made for a surrogate, and none has one. -/
theorem isWhole_escaped (c : CodePoint) : Text.isWhole (escaped false c) = !c.isLone := by
  cases c with
  | lone n =>
    have h : 0xD800 ≤ (CodePoint.lone n).toNat := (CodePoint.toNat_lone n).1
    have hs : escaped false (.lone n) = [.lone n] := by
      have hf : (CodePoint.lone n).toNat ≠ 0x0C := by omega
      have hb : (CodePoint.lone n).toNat ≠ 0x08 := by omega
      have hc : ¬ (CodePoint.lone n).toNat < 0x20 := by omega
      simp [escaped, hf, hb, hc]
    rw [hs]
    rfl
  | char c =>
    unfold escaped
    dsimp only
    repeat' split
    all_goals rfl

theorem isWhole_quoted (t : Text) : (quoted false t).isWhole = t.isWhole := by
  have h : Text.isWhole (t.flatMap (escaped false)) = t.isWhole := by
    induction t with
    | nil => rfl
    | cons c t ih =>
      rw [List.flatMap_cons, Text.isWhole_append, isWhole_escaped, ih]
      rfl
  rw [quoted, Text.isWhole_append, Text.isWhole_append, h, isWhole_ofString, Bool.true_and,
    Bool.and_true]

/-- The layouts that keep characters as they are and put nothing between items that cannot be
encoded. -/
structure Layout.IsWhole (l : Layout) : Prop where
  ascii : l.ascii = false
  between : l.between.isWhole
  afterKey : l.afterKey.isWhole

theorem Layout.isWhole_newline (l : Layout) (level : Nat) : (l.newline level).isWhole := by
  unfold newline
  split
  · rfl
  · simp [Text.isWhole, CodePoint.isLone]

mutual

theorem isWhole_render {l : Layout} (hl : l.IsWhole) (level : Nat) (v : Json) :
    (render l level v).isWhole = v.isWhole := by
  cases v with
  | null => rfl
  | bool b => cases b <;> rfl
  | int n => exact isWhole_ofInt n
  | float x => exact isWhole_ofBinary x
  | str t => simp only [render, isWhole, hl.ascii, isWhole_quoted]
  | list vs =>
    cases vs with
    | nil => rfl
    | cons v vs =>
      simp only [render, isWhole, itemsAreWhole, Text.isWhole_append, isWhole_ofString,
        Layout.isWhole_newline, isWhole_render hl (level + 1) v,
        isWhole_renderItems hl (level + 1) vs, Bool.true_and, Bool.and_true]
  | obj fs =>
    cases fs with
    | nil => rfl
    | cons f fs =>
      obtain ⟨k, v⟩ := f
      simp only [render, isWhole, fieldsAreWhole, Text.isWhole_append, isWhole_ofString,
        Layout.isWhole_newline, hl.ascii, hl.afterKey, isWhole_quoted,
        isWhole_render hl (level + 1) v, isWhole_renderFields hl (level + 1) fs, Bool.true_and,
        Bool.and_true]
  | shared _ v => exact isWhole_render hl level v

theorem isWhole_renderItems {l : Layout} (hl : l.IsWhole) (level : Nat) (vs : List Json) :
    (renderItems l level vs).isWhole = itemsAreWhole vs := by
  cases vs with
  | nil => rfl
  | cons v vs =>
    simp only [renderItems, itemsAreWhole, Text.isWhole_append, hl.between,
      Layout.isWhole_newline, isWhole_render hl level v, isWhole_renderItems hl level vs,
      Bool.true_and]

theorem isWhole_renderFields {l : Layout} (hl : l.IsWhole) (level : Nat)
    (fs : List (Text × Json)) : (renderFields l level fs).isWhole = fieldsAreWhole fs := by
  cases fs with
  | nil => rfl
  | cons f fs =>
    obtain ⟨k, v⟩ := f
    simp only [renderFields, fieldsAreWhole, Text.isWhole_append, hl.ascii, hl.between,
      hl.afterKey, Layout.isWhole_newline, isWhole_quoted, isWhole_render hl level v,
      isWhole_renderFields hl level fs, Bool.true_and, Bool.and_true]

end

theorem Layout.isWhole_compact : Layout.compact.IsWhole := ⟨rfl, rfl, rfl⟩

/-- The compact text of a value can be encoded if and only if the value holds no lone surrogate. -/
theorem exists_encode_compact_iff (v : Json) :
    (∃ bs, Utf8.encode (v.toText .compact) = .ok bs) ↔ v.isWhole := by
  rw [Utf8.exists_encode_iff, toText, isWhole_render Layout.isWhole_compact]

end RouteAtlas.Json
