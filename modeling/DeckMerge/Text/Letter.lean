import DeckMerge.Text.CaseTable

/-!
Upper and lower case of whole texts. Lower case depends on place: a capital sigma at the end of a
word becomes the final small sigma.
-/

namespace DeckMerge.Text

def mapCase (ranges : List CaseRange) (expansions : List (Nat × List Nat)) (c : Char) : Text :=
  match expansions.lookup c.toNat with
  | some ns => ns.map Char.ofNat
  | none => [(ranges.findSome? (·.map? c.toNat)).elim c Char.ofNat]

def upperChar (c : Char) : Text :=
  if c.toNat < 0x80 then [c.toUpper] else mapCase upperRanges upperExpansions c

def lowerChar (c : Char) : Text :=
  if c.toNat < 0x80 then [c.toLower] else mapCase lowerRanges lowerExpansions c

def upper (s : Text) : Text := s.flatMap upperChar

def inRanges (ranges : List (Nat × Nat)) (c : Char) : Bool :=
  ranges.any fun (first, last) => first ≤ c.toNat && c.toNat ≤ last

/-- Whether the next letter that counts is one with case. -/
def meetsCased (s : Text) : Bool :=
  match s.dropWhile (inRanges caseIgnorableRanges) with
  | [] => false
  | c :: _ => inRanges casedRanges c

/-- Lower case of a text, given what stands before it, nearest character first. -/
def lowerAfter (before : Text) : Text → Text
  | [] => []
  | c :: s =>
    (if c = 'Σ' then if meetsCased before && !meetsCased s then ['ς'] else ['σ']
     else lowerChar c) ++ lowerAfter (c :: before) s

def lower (s : Text) : Text := lowerAfter [] s

end DeckMerge.Text
