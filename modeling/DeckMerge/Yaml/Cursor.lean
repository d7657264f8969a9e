import DeckMerge.Text.Basic

/-!
A place in a text, with the line and the column it is at.
-/

namespace DeckMerge.Yaml

def isBreak (c : Char) : Bool :=
  c == '\n' || c == '\r' || c.toNat == 0x85 || c.toNat == 0x2028 || c.toNat == 0x2029

/-- What separates words. -/
def isGap (c : Char) : Bool := c == ' ' || c == '\t' || isBreak c

structure Cursor where
  rest : Text
  /-- How many characters are behind. -/
  index : Nat
  line : Nat
  column : Nat

namespace Cursor

def start (s : Text) : Cursor := ⟨s, 0, 0, 0⟩

def peek (c : Cursor) : Option Char := c.rest.head?

def sees (c : Cursor) (p : Char → Bool) : Bool := c.peek.any p

/-- Whether a word ends before the character at an offset. -/
def endsWord (c : Cursor) (offset : Nat) : Bool := c.rest[offset]?.all isGap

def endsLine (c : Cursor) : Bool := c.peek.all isBreak

def step (c : Cursor) : Cursor :=
  match c.rest with
  | [] => c
  | '\r' :: '\n' :: rest => ⟨'\n' :: rest, c.index + 1, c.line, c.column + 1⟩
  | ch :: rest =>
    if isBreak ch then ⟨rest, c.index + 1, c.line + 1, 0⟩
    else ⟨rest, c.index + 1, c.line, if ch.toNat = 0xfeff then c.column else c.column + 1⟩

def skip : Nat → Cursor → Cursor
  | 0, c => c
  | n + 1, c => skip n c.step

def takeWhile (c : Cursor) (p : Char → Bool) : Text × Cursor :=
  let s := c.rest.takeWhile p
  (s, c.skip s.length)

/-- The end of a line, which is read as a line feed unless it is a separator of its own. -/
def readBreak? (c : Cursor) : Option (Text × Cursor) :=
  match c.rest with
  | '\r' :: '\n' :: _ => some ("\n", c.skip 2)
  | ch :: _ =>
    if ch.toNat = 0x2028 ∨ ch.toNat = 0x2029 then some ([ch], c.step)
    else if isBreak ch then some ("\n", c.step)
    else none
  | [] => none

/-- Whether a mark that separates documents is here. -/
def atSeparator (c : Cursor) : Bool :=
  (("---".toList).isPrefixOf c.rest || ("...".toList).isPrefixOf c.rest) && c.endsWord 3

def skipLine (c : Cursor) : Cursor := (c.takeWhile fun ch => !isBreak ch).2

end Cursor

end DeckMerge.Yaml
