import DeckMerge.Package.Store
import DeckMerge.Text.Digit

/-!
The slides of a package: parts whose names hold a number.
-/

namespace DeckMerge.Package

def slideName (n : Nat) : Text := "ppt/slides/slide" ++ Text.ofNat n ++ ".xml"

/-- The number of a slide, read from its name; a line feed may end the name. -/
def slideNumber? (name : Text) : Option Nat := do
  let rest ← ("ppt/slides/slide".toList).isPrefixOf? name
  let (digits, rest) := rest.span Text.isDigit
  if digits ≠ [] ∧ (rest = ".xml".toList ∨ rest = ".xml\n".toList) then some (Text.ofDigits digits)
  else none

def slideNumber (name : Text) : Except Refusal Nat :=
  match slideNumber? name with
  | some n => .ok n
  | none => .error (.notASlide name)

def isSlide (name : Text) : Bool := (slideNumber? name).isSome

def slides (p : Package) : List Text :=
  (p.names.filter isSlide).mergeSort fun a b =>
    (slideNumber? a).getD 0 ≤ (slideNumber? b).getD 0

def relationshipsName (name : Text) : Text :=
  let (folder, file) := (Text.breakAtLast? '/' name).getD ([], name)
  folder ++ "/_rels/" ++ file ++ ".rels"

def nextNumber (p : Package) : Nat := ((p.slides.filterMap slideNumber?).foldl max 0) + 1

end DeckMerge.Package
