import DeckMerge.Text.Basic

/-!
UTF-8 octets of a text, and the text of well-formed octets: no overlong form, no surrogate, nothing
past the last code point.
-/

namespace DeckMerge

abbrev Bytes := List UInt8

namespace Text

def utf8Char (c : Char) : Bytes :=
  let n := c.toNat
  if n < 0x80 then [n.toUInt8]
  else if n < 0x800 then [(0xc0 + n / 0x40).toUInt8, (0x80 + n % 0x40).toUInt8]
  else if n < 0x10000 then
    [(0xe0 + n / 0x1000).toUInt8, (0x80 + n / 0x40 % 0x40).toUInt8, (0x80 + n % 0x40).toUInt8]
  else
    [(0xf0 + n / 0x40000).toUInt8, (0x80 + n / 0x1000 % 0x40).toUInt8,
     (0x80 + n / 0x40 % 0x40).toUInt8, (0x80 + n % 0x40).toUInt8]

def utf8 (s : Text) : Bytes := s.flatMap utf8Char

/-- The six payload bits of a continuation octet. -/
def tailBits? (b : UInt8) : Option Nat :=
  if 0x80 ≤ b ∧ b ≤ 0xbf then some (b.toNat - 0x80) else none

def ofUtf8? : Bytes → Option Text
  | [] => some []
  | b :: bs =>
    if b < 0x80 then (ofUtf8? bs).map (Char.ofNat b.toNat :: ·)
    else if b < 0xc2 then none
    else if b < 0xe0 then
      match bs with
      | b₁ :: bs => do
        let x ← tailBits? b₁
        (ofUtf8? bs).map (Char.ofNat ((b.toNat - 0xc0) * 0x40 + x) :: ·)
      | _ => none
    else if b < 0xf0 then
      match bs with
      | b₁ :: b₂ :: bs => do
        let n := (b.toNat - 0xe0) * 0x1000 + (← tailBits? b₁) * 0x40 + (← tailBits? b₂)
        if n < 0x800 ∨ (0xd800 ≤ n ∧ n < 0xe000) then none
        else (ofUtf8? bs).map (Char.ofNat n :: ·)
      | _ => none
    else
      match bs with
      | b₁ :: b₂ :: b₃ :: bs => do
        let n := (b.toNat - 0xf0) * 0x40000 + (← tailBits? b₁) * 0x1000 + (← tailBits? b₂) * 0x40
          + (← tailBits? b₃)
        if n < 0x10000 ∨ 0x10ffff < n then none
        else (ofUtf8? bs).map (Char.ofNat n :: ·)
      | _ => none

/-! ### Flaws -/

inductive Utf8Flaw.Cause
  /-- No character starts so. -/
  | start
  /-- A character does not go on so. -/
  | continuation
  /-- The octets end within a character. -/
  | ending
deriving DecidableEq

/-- The octets from a position on that begin no character. -/
structure Utf8Flaw where
  position : Nat
  octets : Bytes
  cause : Utf8Flaw.Cause
deriving DecidableEq

/-- The bounds of the octets that follow a first one: the second of some has narrower ones, so that
no character has two forms and no surrogate has any. -/
def tailBounds? (b : UInt8) : Option (List (UInt8 × UInt8)) :=
  if b < 0x80 then some []
  else if b < 0xc2 then none
  else if b < 0xe0 then some [(0x80, 0xbf)]
  else if b < 0xf0 then
    some [(if b = 0xe0 then 0xa0 else 0x80, if b = 0xed then 0x9f else 0xbf), (0x80, 0xbf)]
  else if b < 0xf5 then
    some [(if b = 0xf0 then 0x90 else 0x80, if b = 0xf4 then 0x8f else 0xbf), (0x80, 0xbf), (0x80, 0xbf)]
  else none

/-- The first flaw, when a character that starts at a position has shown some octets and awaits more. -/
def utf8FlawFrom (position : Nat) (shown : Bytes) (awaited : List (UInt8 × UInt8)) :
    Bytes → Option Utf8Flaw
  | [] => if awaited = [] then none else some ⟨position, shown, .ending⟩
  | b :: bs =>
    match awaited with
    | [] => match tailBounds? b with
      | none => some ⟨position, [b], .start⟩
      | some [] => utf8FlawFrom (position + 1) [] [] bs
      | some bounds => utf8FlawFrom position [b] bounds bs
    | (least, most) :: more =>
      if b < least ∨ most < b then some ⟨position, shown, .continuation⟩
      else if more = [] then utf8FlawFrom (position + shown.length + 1) [] [] bs
      else utf8FlawFrom position (shown ++ [b]) more bs

def utf8Flaw? (bs : Bytes) : Option Utf8Flaw := utf8FlawFrom 0 [] [] bs

end Text

end DeckMerge
