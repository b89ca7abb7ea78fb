import RouteAtlas.Number.Decimal
import RouteAtlas.Text.CodePoint

/-!
# UTF-8

Encoding is defined for characters and fails at an unpaired surrogate. Decoding reports the first
sequence that is no character, or leaves such sequences out.
-/

namespace RouteAtlas

abbrev Bytes := List UInt8

namespace Utf8

def encodeChar (c : Char) : Bytes :=
  let n := c.toNat
  let tail := fun k => UInt8.ofNat (0x80 + n / k % 0x40)
  if n < 0x80 then [UInt8.ofNat n]
  else if n < 0x800 then [UInt8.ofNat (0xC0 + n / 0x40), tail 1]
  else if n < 0x10000 then [UInt8.ofNat (0xE0 + n / 0x1000), tail 0x40, tail 1]
  else [UInt8.ofNat (0xF0 + n / 0x40000), tail 0x1000, tail 0x40, tail 1]

def encodeChars (cs : List Char) : Bytes := cs.flatMap encodeChar

/-- The first run of surrogates, from the first position to the last. -/
structure EncodeError where
  surrogate : Nat
  first : Nat
  last : Nat
  deriving DecidableEq

def hexText (digits n : Nat) : Text :=
  let ds := Nat.toDigits 16 n
  (List.replicate (digits - ds.length) '0' ++ ds).map .char

def EncodeError.message (e : EncodeError) : Text :=
  let place :=
    if e.first = e.last then
      "character '\\u" ++ hexText 4 e.surrogate ++ "' in position " ++ Text.ofNat e.first
    else "characters in position " ++ Text.ofNat e.first ++ "-" ++ Text.ofNat e.last
  "'utf-8' codec can't encode " ++ place ++ ": surrogates not allowed"

def encode (t : Text) : Except EncodeError Bytes :=
  match t.chars? with
  | some cs => .ok (encodeChars cs)
  | none =>
    let first := (t.takeWhile (!·.isLone)).length
    let run := (t.drop first).takeWhile CodePoint.isLone
    .error ⟨((t[first]?).map CodePoint.toNat).getD 0, first, first + run.length - 1⟩

/-- The bytes of a code point in the name of a file, where some surrogates stand for single
bytes. -/
def nameBytes? : CodePoint → Option Bytes
  | .char c => some (encodeChar c)
  | .lone n => if 0x480 ≤ n.val ∧ n.val < 0x500 then some [UInt8.ofNat (n.val - 0x400)] else none

def encodeName (t : Text) : Except EncodeError Bytes :=
  match t.mapM nameBytes? with
  | some bs => .ok bs.flatten
  | none =>
    let first := (t.takeWhile fun c => (nameBytes? c).isSome).length
    let run := (t.drop first).takeWhile CodePoint.isLone
    .error ⟨((t[first]?).map CodePoint.toNat).getD 0, first, first + run.length - 1⟩

inductive Reason where
  | start
  | continuation
  | truncated
  deriving DecidableEq

def Reason.message : Reason → Text
  | .start => "invalid start byte"
  | .continuation => "invalid continuation byte"
  | .truncated => "unexpected end of data"

/-- A sequence of `count` bytes from `position` on that is no character. -/
structure DecodeError where
  reason : Reason
  byte : UInt8
  position : Nat
  count : Nat
  deriving DecidableEq

def DecodeError.message (e : DecodeError) : Text :=
  let place :=
    if e.count = 1 then
      "byte 0x" ++ hexText 2 e.byte.toNat ++ " in position " ++ Text.ofNat e.position
    else
      "bytes in position " ++ Text.ofNat e.position ++ "-" ++ Text.ofNat (e.position + e.count - 1)
  "'utf-8' codec can't decode " ++ place ++ ": " ++ e.reason.message

/-- What a byte begins: a character with the number of bytes behind the first, or nothing. -/
inductive Sequence where
  | char (c : Char) (more : Nat)
  | bad (reason : Reason) (count : Nat)

def isTail (b : UInt8) : Bool := 0x80 ≤ b.toNat && b.toNat < 0xC0

/-- Whether the second byte may follow the first one: no overlong form, no surrogate, nothing
beyond the last code point. -/
def mayFollow (first second : UInt8) : Bool :=
  isTail second &&
    (if first.toNat = 0xE0 then 0xA0 ≤ second.toNat
     else if first.toNat = 0xED then second.toNat < 0xA0
     else if first.toNat = 0xF0 then 0x90 ≤ second.toNat
     else if first.toNat = 0xF4 then second.toNat < 0x90
     else true)

def tailBits (b : UInt8) : Nat := b.toNat - 0x80

def sequence (first : UInt8) (rest : Bytes) : Sequence :=
  let n := first.toNat
  if n < 0x80 then .char (Char.ofNat n) 0
  else if n < 0xC2 ∨ 0xF5 ≤ n then .bad .start 1
  else
    match rest with
    | [] => .bad .truncated 1
    | b :: rest =>
      if !mayFollow first b then .bad .continuation 1
      else if n < 0xE0 then .char (Char.ofNat ((n - 0xC0) * 0x40 + tailBits b)) 1
      else
        match rest with
        | [] => .bad .truncated 2
        | c :: rest =>
          if !isTail c then .bad .continuation 2
          else if n < 0xF0 then
            .char (Char.ofNat ((n - 0xE0) * 0x1000 + tailBits b * 0x40 + tailBits c)) 2
          else
            match rest with
            | [] => .bad .truncated 3
            | d :: _ =>
              if !isTail d then .bad .continuation 3
              else .char (Char.ofNat
                ((n - 0xF0) * 0x40000 + tailBits b * 0x1000 + tailBits c * 0x40 + tailBits d)) 3

/-- Decodes from `position` on; the next `skip` bytes belong to a sequence already read. -/
def decodeFrom (position skip : Nat) : Bytes → Except DecodeError (List Char)
  | [] => .ok []
  | b :: r =>
    match skip with
    | n + 1 => decodeFrom (position + 1) n r
    | 0 =>
      match sequence b r with
      | .char c more => (decodeFrom (position + 1) more r).map (c :: ·)
      | .bad reason count => .error ⟨reason, b, position, count⟩

def decode (bs : Bytes) : Except DecodeError Text :=
  (decodeFrom 0 0 bs).map (·.map .char)

def decodeLenientFrom (skip : Nat) : Bytes → List Char
  | [] => []
  | b :: r =>
    match skip with
    | n + 1 => decodeLenientFrom n r
    | 0 =>
      match sequence b r with
      | .char c more => c :: decodeLenientFrom more r
      | .bad _ count => decodeLenientFrom (count - 1) r

/-- Decodes, leaving out what is no character. -/
def decodeLenient (bs : Bytes) : Text := (decodeLenientFrom 0 bs).map .char

end Utf8

namespace Text

/-- A carriage return, with or without a line feed behind it, is read as a line feed. -/
def unifyBreaks : Text → Text
  | [] => []
  | .char '\r' :: .char '\n' :: r => .char '\n' :: unifyBreaks r
  | .char '\r' :: r => .char '\n' :: unifyBreaks r
  | c :: r => c :: unifyBreaks r

end Text

end RouteAtlas
