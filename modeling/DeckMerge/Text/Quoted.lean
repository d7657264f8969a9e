import DeckMerge.Text.Printable

/-!
Quoted text: single quotes, unless the text holds a single quote and no double one. Backslashes, the
quote in use and characters that are not printable are escaped.
-/

namespace DeckMerge.Text

def quoteMark (s : Text) : Char :=
  if s.contains '\'' && !s.contains '"' then '"' else '\''

def quotedChar (mark c : Char) : Text :=
  if c = mark || c = '\\' then ['\\', c]
  else if c = '\t' then "\\t"
  else if c = '\n' then "\\n"
  else if c = '\r' then "\\r"
  else if isPrintable c then [c]
  else if c.toNat ≤ 0xff then "\\x" ++ hex 2 c.toNat
  else if c.toNat ≤ 0xffff then "\\u" ++ hex 4 c.toNat
  else "\\U" ++ hex 8 c.toNat

def quoted (s : Text) : Text :=
  let mark := quoteMark s
  mark :: s.flatMap (quotedChar mark) ++ [mark]

end DeckMerge.Text
