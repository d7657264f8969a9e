import DeckMerge.Text.Blank

/-!
The two vocabularies of runs: those of slides and those of word processing. A run holds properties
and text elements; a line break stands between runs and carries the same properties.
-/

namespace DeckMerge.Run

inductive Dialect
  | drawing
  | word
deriving DecidableEq

namespace Dialect

def all : List Dialect := [.drawing, .word]

def name : Dialect → Text
  | .drawing => "DrawingML"
  | .word => "WordprocessingML"

def runTag : Dialect → Text
  | .drawing => "a:r"
  | .word => "w:r"

def propsTag : Dialect → Text
  | .drawing => "a:rPr"
  | .word => "w:rPr"

def textTag : Dialect → Text
  | .drawing => "a:t"
  | .word => "w:t"

/-- The break between two lines, with the properties as they are written. -/
def lineBreak (d : Dialect) (props : Text) : Text :=
  match d with
  | .drawing => if props = [] then "<a:br/>" else "<a:br>" ++ props ++ "</a:br>"
  | .word => "<w:r>" ++ props ++ "<w:br/></w:r>"

end Dialect

def closeTag (tag : Text) : Text := "</" ++ tag ++ ">"

/-- What a tag may hold after its name: nothing, or a blank and more, up to the first bracket. -/
def readAttributes? (s : Text) : Option (Text × Text) :=
  match s with
  | '>' :: rest => some ([], rest)
  | c :: _ =>
    if Text.isBlank c then
      match s.span (· != '>') with
      | (inner, _ :: rest) => some (inner, rest)
      | (_, []) => none
    else none
  | [] => none

/-- An opening tag that does not close itself. -/
def openTag (tag : Text) : Recogniser Text := fun s => do
  let rest ← ('<' :: tag).isPrefixOf? s
  let (inner, rest) ← readAttributes? rest
  if inner.getLast? = some '/' then none
  return ('<' :: tag ++ inner ++ ['>'], rest)

/-- A tag that closes itself. -/
def emptyTag (tag : Text) : Recogniser Text := fun s => do
  let rest ← ('<' :: tag).isPrefixOf? s
  match rest with
  | '/' :: '>' :: rest => return ('<' :: tag ++ ['/', '>'], rest)
  | _ =>
    let (inner, rest) ← readAttributes? rest
    if 2 ≤ inner.length ∧ inner.getLast? = some '/' then
      return ('<' :: tag ++ inner ++ ['>'], rest)
    else none

end DeckMerge.Run
