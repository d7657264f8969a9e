import DeckMerge.Text.Basic

/-!
Names of XML: where they may start, how they go on, and how a prefix is told from the rest.
-/

namespace DeckMerge.Xml

def nameStartRanges : List (Nat × Nat) :=
  [(0xc0, 0xd6), (0xd8, 0xf6), (0xf8, 0x2ff), (0x370, 0x37d), (0x37f, 0x1fff), (0x200c, 0x200d),
   (0x2070, 0x218f), (0x2c00, 0x2fef), (0x3001, 0xd7ff), (0xf900, 0xfdcf), (0xfdf0, 0xfffd),
   (0x10000, 0xeffff)]

def isNameStart (c : Char) : Bool :=
  c.isAlpha || c == ':' || c == '_' ||
    nameStartRanges.any fun (first, last) => first ≤ c.toNat && c.toNat ≤ last

def isNameChar (c : Char) : Bool :=
  isNameStart c || c.isDigit || c == '-' || c == '.' || c.toNat == 0xb7 ||
    (0x300 ≤ c.toNat && c.toNat ≤ 0x36f) || (0x203f ≤ c.toNat && c.toNat ≤ 0x2040)

def isSpace (c : Char) : Bool := c == ' ' || c == '\t' || c == '\n' || c == '\r'

def skipSpace (s : Text) : Text := s.dropWhile isSpace

def readName : Recogniser Text
  | [] => none
  | c :: s => if isNameStart c then some (c :: s.takeWhile isNameChar, s.dropWhile isNameChar) else none

def isPlainName (s : Text) : Bool :=
  match s with
  | [] => false
  | c :: t => isNameStart c && (c :: t).all fun c => isNameChar c && c != ':'

/-- A prefix, which may be empty, and a local name; nothing for a name with colons out of place. -/
def splitName (s : Text) : Option (Text × Text) :=
  match Text.splitAt ':' s with
  | [name] => some ([], name)
  | [pfx, name] => if isPlainName pfx && isPlainName name then some (pfx, name) else none
  | _ => none

end DeckMerge.Xml
