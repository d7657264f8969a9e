import DeckMerge.Report
import DeckMerge.Xml.Encoding

/-!
Parts are checked before they go into a package: each must be a document that can be read.
-/

namespace DeckMerge.Package

def checkPart (name s : Text) : Except Report Unit :=
  if Xml.isWellFormed s then .ok ()
  else .error ((Report.plain .partValidation "Rendered part is not well-formed XML").inPart name
    |>.because .malformedMarkup [])

def checkParts : List (Text × Text) → Except Report Nat
  | [] => .ok 0
  | (name, s) :: parts => do
    checkPart name s
    return (← checkParts parts) + 1

end DeckMerge.Package
