import DeckMerge.Text.Basic

/-!
Plain values as character data of a document: what a document cannot hold is dropped, and the five
characters of markup are written as entities.
-/

namespace DeckMerge.Markup

/-- Whether a document may hold a code point at all. -/
def isLegal (n : Nat) : Bool :=
  n = 0x9 || n = 0xa || n = 0xd || (0x20 ≤ n && n ≤ 0xd7ff) || (0xe000 ≤ n && n ≤ 0xfffd) ||
    (0x10000 ≤ n && n ≤ 0x10ffff)

def sanitize (s : Text) : Text := s.filter fun c => isLegal c.toNat

def escapeChar : Char → Text
  | '&' => "&amp;"
  | '<' => "&lt;"
  | '>' => "&gt;"
  | '"' => "&quot;"
  | '\'' => "&apos;"
  | c => [c]

def escape (s : Text) : Text := (sanitize s).flatMap escapeChar

/-- Escapes any sequence of code points, halves of surrogate pairs included. -/
def escapeCodePoints (ns : List Nat) : Text :=
  ((ns.filter isLegal).map Char.ofNat).flatMap escapeChar

def patternMarks : Text := ".*+?^$\x7b\x7d()|[]\\"

def literalPattern (s : Text) : Text :=
  s.flatMap fun c => if c ∈ patternMarks then ['\\', c] else [c]

end DeckMerge.Markup
