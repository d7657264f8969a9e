import DeckMerge.Text.Utf8
import DeckMerge.Text.Letter
import DeckMerge.Xml.Document

/-!
Documents as octets: how the encoding is told from a mark at the front or from the declaration, and the
ends of lines, which become line feeds.
-/

namespace DeckMerge.Xml

inductive Encoding
  | ascii
  | latin
  | utf8
deriving DecidableEq

/-- The encodings that a declaration may name. -/
def Encoding.named : List (Text × Encoding) :=
  [("UTF-8", .utf8), ("UTF8", .utf8), ("ISO-8859-1", .latin), ("ISO-LATIN-1", .latin),
   ("ISO LATIN 1", .latin), ("LATIN1", .latin), ("L1", .latin), ("ASCII", .ascii),
   ("US-ASCII", .ascii)]

def ofOctets (bs : Bytes) : Text := bs.map fun b => Char.ofNat b.toNat

def Encoding.decode? : Encoding → Bytes → Option Text
  | .ascii, bs => if bs.all (· < 0x80) then some (ofOctets bs) else none
  | .latin, bs => some (ofOctets bs)
  | .utf8, bs => Text.ofUtf8? bs

/-- The text of units of 16 bits; surrogates come in pairs. -/
def ofUnits? : List Nat → Option Text
  | [] => some []
  | a :: us =>
    if a < 0xd800 ∨ 0xe000 ≤ a then (ofUnits? us).map (Char.ofNat a :: ·)
    else match us with
      | b :: us =>
        if a < 0xdc00 ∧ 0xdc00 ≤ b ∧ b < 0xe000 then
          (ofUnits? us).map (Char.ofNat (0x10000 + (a - 0xd800) * 0x400 + (b - 0xdc00)) :: ·)
        else none
      | [] => none

/-- The units that two octets each make; the low one comes first or last. -/
def units? (lowFirst : Bool) : Bytes → Option (List Nat)
  | [] => some []
  | a :: b :: bs =>
    (units? lowFirst bs).map
      ((if lowFirst then a.toNat + 256 * b.toNat else 256 * a.toNat + b.toNat) :: ·)
  | [_] => none

/-- The name of the encoding that a declaration in these octets gives. -/
def label? (bs : Bytes) : Option Text := do (← readDeclaration (ofOctets bs)).1.encoding

def decode? (bs : Bytes) : Option Text :=
  match bs with
  | 0xef :: 0xbb :: 0xbf :: rest => Text.ofUtf8? rest
  | 0xff :: 0xfe :: rest => do ofUnits? (← units? true rest)
  | 0xfe :: 0xff :: rest => do ofUnits? (← units? false rest)
  | _ => match label? bs with
    | none => Text.ofUtf8? bs
    | some name => do (← Encoding.named.lookup (Text.upper name)).decode? bs

def Document.ofBytes? (bs : Bytes) : Option Document := do
  Document.ofText? (Text.withLineFeeds (← decode? bs))

def isWellFormed (s : Text) : Bool := (Document.ofBytes? (Text.utf8 s)).isSome

end DeckMerge.Xml
