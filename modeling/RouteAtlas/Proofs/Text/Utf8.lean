import Mathlib.Tactic.Common
import RouteAtlas.Text.Utf8

/-!
# UTF-8 read back

A text without surrogates that stand alone can be encoded, and its bytes are decoded to it.
-/

namespace RouteAtlas

namespace Text

def isWhole (t : Text) : Bool := t.all fun c => !c.isLone

theorem isWhole_append (s t : Text) : isWhole (s ++ t) = (isWhole s && isWhole t) :=
  List.all_append

theorem isWhole_map_char (cs : List Char) : isWhole (cs.map .char) := by
  simp [isWhole]

theorem isWhole_iff_chars? {t : Text} : t.isWhole ↔ t.chars?.isSome := by
  induction t with
  | nil => simp [isWhole, chars?]
  | cons c t ih =>
    cases c with
    | lone n => simp [isWhole, chars?, CodePoint.isLone]
    | char c => simpa [isWhole, chars?] using ih

theorem unifyBreaks_of_not_mem {t : Text} (h : .char '\r' ∉ t) : t.unifyBreaks = t := by
  induction t with
  | nil => rfl
  | cons c t ih =>
    simp only [List.mem_cons, not_or] at h
    rw [unifyBreaks]
    · rw [ih h.2]
    · rintro r rfl
      exact absurd rfl h.1
    · rintro rfl
      exact absurd rfl h.1

end Text

namespace Utf8

theorem exists_encode_iff {t : Text} : (∃ bs, encode t = .ok bs) ↔ t.isWhole := by
  rw [Text.isWhole_iff_chars?]
  unfold encode
  cases t.chars? <;> simp

section Sequence

variable {c : Char} {rest : Bytes}

theorem toNat_ofNat {n : Nat} (h : n < 256) : (UInt8.ofNat n).toNat = n := by
  simpa using Nat.mod_eq_of_lt h

def tail (k : Nat) : UInt8 := UInt8.ofNat (0x80 + k % 0x40)

theorem toNat_tail (k : Nat) : (tail k).toNat = 0x80 + k % 0x40 := by
  have h : 0x80 + k % 0x40 < 256 := by omega
  exact toNat_ofNat h

theorem isTail_tail (k : Nat) : isTail (tail k) := by
  simp only [isTail, toNat_tail, Bool.and_eq_true, decide_eq_true_eq]
  omega

theorem tailBits_tail (k : Nat) : tailBits (tail k) = k % 0x40 := by
  have h := toNat_tail k
  unfold tailBits
  omega

theorem sequence_one (h : c.toNat < 0x80) :
    sequence (UInt8.ofNat c.toNat) rest = .char c 0 := by
  have hb : (UInt8.ofNat c.toNat).toNat = c.toNat := toNat_ofNat (by omega)
  simp [sequence, hb, h]

theorem sequence_two (h : 0x80 ≤ c.toNat) (h' : c.toNat < 0x800) :
    sequence (UInt8.ofNat (0xC0 + c.toNat / 0x40)) (tail c.toNat :: rest) = .char c 1 := by
  have hb : (UInt8.ofNat (0xC0 + c.toNat / 0x40)).toNat = 0xC0 + c.toNat / 0x40 :=
    toNat_ofNat (by omega)
  have hf : mayFollow (UInt8.ofNat (0xC0 + c.toNat / 0x40)) (tail c.toNat) := by
    rw [mayFollow, isTail_tail, hb, if_neg (by omega), if_neg (by omega), if_neg (by omega),
      if_neg (by omega)]
    rfl
  have hc : (0xC0 + c.toNat / 0x40 - 0xC0) * 0x40 + c.toNat % 0x40 = c.toNat := by omega
  simp only [sequence, hb, hf, tailBits_tail]
  rw [if_neg (by omega), if_neg (by omega), if_neg (by simp), if_pos (by omega), hc,
    Char.ofNat_toNat]

theorem sequence_three (h : 0x800 ≤ c.toNat) (h' : c.toNat < 0x10000) :
    sequence (UInt8.ofNat (0xE0 + c.toNat / 0x1000))
      (tail (c.toNat / 0x40) :: tail c.toNat :: rest) = .char c 2 := by
  have hv : c.toNat < 0xD800 ∨ 0xDFFF < c.toNat ∧ c.toNat < 0x110000 := c.valid
  have hb : (UInt8.ofNat (0xE0 + c.toNat / 0x1000)).toNat = 0xE0 + c.toNat / 0x1000 :=
    toNat_ofNat (by omega)
  have hf : mayFollow (UInt8.ofNat (0xE0 + c.toNat / 0x1000)) (tail (c.toNat / 0x40)) := by
    rw [mayFollow, isTail_tail, hb, toNat_tail]
    split
    · simp; omega
    split
    · simp; omega
    · rw [if_neg (by omega), if_neg (by omega)]
      rfl
  have hc : (0xE0 + c.toNat / 0x1000 - 0xE0) * 0x1000 + c.toNat / 0x40 % 0x40 * 0x40 +
      c.toNat % 0x40 = c.toNat := by omega
  simp only [sequence, hb, hf, isTail_tail, tailBits_tail]
  rw [if_neg (by omega), if_neg (by omega), if_neg (by simp), if_neg (by omega),
    if_neg (by simp), if_pos (by omega), hc, Char.ofNat_toNat]

theorem sequence_four (h : 0x10000 ≤ c.toNat) :
    sequence (UInt8.ofNat (0xF0 + c.toNat / 0x40000))
      (tail (c.toNat / 0x1000) :: tail (c.toNat / 0x40) :: tail c.toNat :: rest) = .char c 3 := by
  have hv : c.toNat < 0xD800 ∨ 0xDFFF < c.toNat ∧ c.toNat < 0x110000 := c.valid
  have hb : (UInt8.ofNat (0xF0 + c.toNat / 0x40000)).toNat = 0xF0 + c.toNat / 0x40000 :=
    toNat_ofNat (by omega)
  have hf : mayFollow (UInt8.ofNat (0xF0 + c.toNat / 0x40000)) (tail (c.toNat / 0x1000)) := by
    rw [mayFollow, isTail_tail, hb, toNat_tail, if_neg (by omega), if_neg (by omega)]
    split
    · simp; omega
    split
    · simp; omega
    · rfl
  have hc : (0xF0 + c.toNat / 0x40000 - 0xF0) * 0x40000 + c.toNat / 0x1000 % 0x40 * 0x1000 +
      c.toNat / 0x40 % 0x40 * 0x40 + c.toNat % 0x40 = c.toNat := by omega
  simp only [sequence, hb, hf, isTail_tail, tailBits_tail]
  rw [if_neg (by omega), if_neg (by omega), if_neg (by simp), if_neg (by omega),
    if_neg (by simp), if_neg (by omega), if_neg (by simp), hc, Char.ofNat_toNat]

theorem exists_sequence_encodeChar (c : Char) (rest : Bytes) :
    ∃ b bs, encodeChar c = b :: bs ∧ sequence b (bs ++ rest) = .char c bs.length := by
  have hv : c.toNat < 0xD800 ∨ 0xDFFF < c.toNat ∧ c.toNat < 0x110000 := c.valid
  unfold encodeChar
  dsimp only
  split
  · exact ⟨_, _, rfl, sequence_one ‹_›⟩
  split
  · refine ⟨_, [tail c.toNat], ?_, sequence_two (by omega) ‹_›⟩
    simp [tail]
  split
  · exact ⟨_, [tail (c.toNat / 0x40), tail c.toNat], by simp [tail],
      sequence_three (by omega) ‹_›⟩
  · exact ⟨_, [tail (c.toNat / 0x1000), tail (c.toNat / 0x40), tail c.toNat], by simp [tail],
      sequence_four (by omega)⟩

end Sequence

theorem decodeFrom_skip (position : Nat) (bs rest : Bytes) :
    decodeFrom position bs.length (bs ++ rest) = decodeFrom (position + bs.length) 0 rest := by
  induction bs generalizing position with
  | nil => rfl
  | cons b bs ih =>
    rw [List.length_cons, List.cons_append, decodeFrom, ih]
    congr 1
    omega

theorem decodeFrom_encodeChars (position : Nat) (cs : List Char) :
    decodeFrom position 0 (encodeChars cs) = .ok cs := by
  induction cs generalizing position with
  | nil => rfl
  | cons c cs ih =>
    obtain ⟨b, bs, he, hs⟩ := exists_sequence_encodeChar c (encodeChars cs)
    have hc : encodeChars (c :: cs) = b :: (bs ++ encodeChars cs) := by
      simp [encodeChars, he]
    rw [hc, decodeFrom, hs]
    simp only [decodeFrom_skip, ih]
    rfl

theorem decode_of_encode {t : Text} {bs : Bytes} (h : encode t = .ok bs) : decode bs = .ok t := by
  unfold encode at h
  split at h
  · rename_i cs hc
    obtain rfl := Except.ok.inj h
    rw [decode, decodeFrom_encodeChars, Text.eq_map_char_of_chars? hc]
    rfl
  · cases h

end Utf8

end RouteAtlas
