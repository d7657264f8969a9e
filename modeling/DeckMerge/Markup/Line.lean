import DeckMerge.Text.Basic

/-!
Lines of a value. A line ends at a line feed, at a carriage return, or at both in this order.
-/

namespace DeckMerge.Markup

/-- The text with every line break written as a line feed. -/
def normalizeBreaks : Text → Text
  | [] => []
  | '\r' :: '\n' :: s => '\n' :: normalizeBreaks s
  | '\r' :: s => '\n' :: normalizeBreaks s
  | c :: s => c :: normalizeBreaks s

def lines (s : Text) : List Text := Text.splitAt '\n' (normalizeBreaks s)

def hasBreak (s : Text) : Bool := s.any fun c => c = '\n' || c = '\r'

end DeckMerge.Markup
