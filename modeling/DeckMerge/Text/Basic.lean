/-!
Texts as lists of code points, with the searches that read them from the left. A recogniser reads
one form at the front of a text; `find?` and `findAll` look for it further on.
-/

namespace DeckMerge

abbrev Text := List Char

instance : Coe String Text := ⟨String.toList⟩

namespace Text

/-- The text around the first occurrence of `needle`. -/
def breakOn? (needle : Text) : Text → Option (Text × Text)
  | [] => if needle = [] then some ([], []) else none
  | c :: s =>
    match needle.isPrefixOf? (c :: s) with
    | some rest => some ([], rest)
    | none => (breakOn? needle s).map fun (before, rest) => (c :: before, rest)

def holds (s needle : Text) : Bool := (breakOn? needle s).isSome

/-- The pieces between the occurrences of `needle`, leftmost first and never overlapping. -/
def splitOn (needle s : Text) : List Text :=
  match breakOn? needle s with
  | none => [s]
  | some (before, rest) =>
    if rest.length < s.length then before :: splitOn needle rest else [s]
termination_by s.length

def splitAt (mark : Char) : Text → List Text
  | [] => [[]]
  | c :: s =>
    if c = mark then [] :: splitAt mark s
    else match splitAt mark s with
      | [] => [[c]]
      | piece :: pieces => (c :: piece) :: pieces

def joinWith (mark : Text) : List Text → Text
  | [] => []
  | [piece] => piece
  | piece :: pieces => piece ++ mark ++ joinWith mark pieces

def replace (needle value s : Text) : Text := joinWith value (splitOn needle s)

/-- The texts around the last occurrence of one character. -/
def breakAtLast? (mark : Char) (s : Text) : Option (Text × Text) :=
  match s.reverse.span (· != mark) with
  | (_, []) => none
  | (after, _ :: before) => some (before.reverse, after.reverse)

def startsWith (s pfx : Text) : Bool := pfx.isPrefixOf s

def endsWith (s suffix : Text) : Bool := suffix.isSuffixOf s

def ofNat (n : Nat) : Text := Nat.toDigits 10 n

def ofInt : Int → Text
  | .ofNat n => ofNat n
  | .negSucc n => '-' :: ofNat (n + 1)

/-- Digits in base 16, padded with zeros to a least width. -/
def hex (width n : Nat) : Text :=
  let digits := Nat.toDigits 16 n
  List.replicate (width - digits.length) '0' ++ digits

def hexDigit? (c : Char) : Option Nat :=
  if '0' ≤ c ∧ c ≤ '9' then some (c.toNat - 48)
  else if 'a' ≤ c ∧ c ≤ 'f' then some (c.toNat - 87)
  else if 'A' ≤ c ∧ c ≤ 'F' then some (c.toNat - 55)
  else none

/-- Line feeds for all ends of lines. -/
def withLineFeeds : Text → Text
  | '\r' :: '\n' :: s => '\n' :: withLineFeeds s
  | '\r' :: s => '\n' :: withLineFeeds s
  | c :: s => c :: withLineFeeds s
  | [] => []

/-- A list cut at an end index: a negative one drops from the end. -/
def cutAt {α : Type} (xs : List α) : Int → List α
  | .ofNat n => xs.take n
  | .negSucc n => xs.take (xs.length - (n + 1))

end Text

/-- Reads one form at the front of a text, and gives the rest. -/
abbrev Recogniser (α : Type) := Text → Option (α × Text)

namespace Recogniser

variable {α : Type}

/-- The first form in a text, with what precedes and what follows it. -/
def find? (r : Recogniser α) : Text → Option (Text × α × Text)
  | [] => (r []).map fun (a, rest) => ([], a, rest)
  | c :: s =>
    match r (c :: s) with
    | some (a, rest) => some ([], a, rest)
    | none => (find? r s).map fun (before, a, rest) => (c :: before, a, rest)

/-- All forms that do not overlap, leftmost first, each with the text since the one before; then the
text after the last. A form that takes no character ends the search. -/
def findAll (r : Recogniser α) (s : Text) : List (Text × α) × Text :=
  match find? r s with
  | none => ([], s)
  | some (before, a, rest) =>
    if rest.length < s.length then
      let (found, tail) := findAll r rest
      ((before, a) :: found, tail)
    else ([], s)
termination_by s.length

/-- The last of the forms that `findAll` gives, with all that precedes and follows it. -/
def findLast? (r : Recogniser α) (s : Text) : Option (Text × α × Text) :=
  match find? r s with
  | none => none
  | some (before, a, rest) =>
    if rest.length < s.length then
      match findLast? r rest with
      | none => some (before, a, rest)
      | some (before', a', rest') => some (s.take (s.length - rest.length) ++ before', a', rest')
    else none
termination_by s.length

end Recogniser

end DeckMerge
