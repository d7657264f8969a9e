import DeckMerge.Report
import DeckMerge.Text.Digit
import DeckMerge.Value

/-!
The kinds of plain texts: nothing, truth values, integers in several bases, reals, and texts. A text that
looks like none of the others stays a text.
-/

namespace DeckMerge.Yaml

-- The powers of the core library, whatever else is in scope.
attribute [local instance (high)] instPowNat

inductive Tag
  | null
  | bool
  | int
  | real
  | text
  | sequence
  | mapping
  /-- The key under which other mappings are merged. -/
  | merge
  /-- The key of a default value. -/
  | value
  | other (name : Text)
deriving DecidableEq

namespace Tag

/-- The part of names that all tags of the schema have. -/
def schema : Text := "tag:yaml.org,2002:"

def known : List (Text × Tag) :=
  [("null", .null), ("bool", .bool), ("int", .int), ("float", .real), ("str", .text),
   ("seq", .sequence), ("map", .mapping), ("merge", .merge), ("value", .value)]

def ofName (name : Text) : Tag :=
  match schema.isPrefixOf? name with
  | some rest => (known.lookup rest).getD (.other name)
  | none => .other name

/-! ### Forms of numerals -/

def isDigit (c : Char) : Bool := c.isDigit

def signed : Text → Bool × Text
  | '-' :: s => (true, s)
  | '+' :: s => (false, s)
  | s => (false, s)

/-- Whether a text has at least one character, all of a class or underscores. -/
def spaced (p : Char → Bool) (s : Text) : Bool := s ≠ [] && s.all fun c => p c || c == '_'

/-- Whether a text is a digit and then digits or underscores. -/
def isWhole : Text → Bool
  | [] => false
  | c :: s => isDigit c && s.all fun c => isDigit c || c == '_'

/-- Whether a text is a place of a numeral in base 60. -/
def isSixtieth : Text → Bool
  | [b] => isDigit b
  | [a, b] => isDigit b && '0' ≤ a && a ≤ '5'
  | _ => false

/-- Whether a text is a numeral in base 60. -/
def isSexagesimal (s : Text) : Bool :=
  match Text.splitAt ':' s with
  | front :: place :: places => isWhole front && (place :: places).all isSixtieth
  | _ => false

def isInt (s : Text) : Bool :=
  let (_, s) := signed s
  match s with
  | '0' :: 'b' :: s => spaced (fun c => c == '0' || c == '1') s
  | '0' :: 'x' :: s => spaced (fun c => (Text.hexDigit? c).isSome) s
  | ['0'] => true
  | '0' :: s => spaced (fun c => '0' ≤ c && c ≤ '7') s
  | _ => isWhole s || isSexagesimal s

/-- Splits off an exponent. -/
def breakExponent (s : Text) : Text × Option Text :=
  match s.span fun c => c != 'e' && c != 'E' with
  | (front, _ :: exponent) => (front, some exponent)
  | (front, []) => (front, none)

/-- Whether a text is an exponent; its sign may have to be there. -/
def isExponent (needsSign : Bool) (s : Text) : Bool :=
  match s with
  | '-' :: s | '+' :: s => s ≠ [] && s.all isDigit
  | _ => !needsSign && s ≠ [] && s.all isDigit

/-- Whether underscores in a text stand alone and between digits. -/
def isGrouped (s : Text) : Bool := (Text.splitAt '_' s).all fun g => g ≠ [] && g.all isDigit

def infinities : List Text := [".inf", ".Inf", ".INF"]

def nans : List Text := [".nan", ".NaN", ".NAN"]

/-- Whether a text is a real with a point or an exponent: an exponent without a sign needs a whole part
that is grouped, and so does one without a point. -/
def isDecimal (s : Text) : Bool :=
  let (front, exponent) := breakExponent s
  let (whole, fraction) := front.span (· != '.')
  match fraction with
  | '.' :: fraction =>
    if whole = [] then isWhole fraction && exponent.all (isExponent true)
    else
      isWhole whole && fraction.all (fun c => isDigit c || c == '_')
        && exponent.all (isExponent (!isGrouped whole))
  | _ => isGrouped whole && exponent.any (isExponent false)

def isReal (s : Text) : Bool :=
  let (_, t) := signed s
  infinities.contains t || nans.contains s
    || (isDecimal t && (t = s || t.head? != some '.'))
    || (match t.span (· != '.') with
      | (front, '.' :: fraction) =>
        isSexagesimal front && fraction.all fun c => isDigit c || c == '_'
      | _ => false)

def truths : List (Text × Bool) :=
  [("yes", true), ("no", false), ("true", true), ("false", false), ("on", true), ("off", false)]

/-- The ways a word can be written: small, with a capital, and in capitals. -/
def cases (s : Text) : List Text :=
  [s, (s.take 1).map Char.toUpper ++ s.drop 1, s.map Char.toUpper]

/-- The kind of a plain text. -/
def ofPlain (s : Text) : Tag :=
  if truths.any fun (word, _) => (cases word).contains s then .bool
  else if isReal s then .real
  else if isInt s then .int
  else if s = "<<".toList then .merge
  else if s = [] ∨ s = ['~'] ∨ (cases "null").contains s then .null
  else if s = ['='] then .value
  else .text

/-! ### Values -/

def withoutUnderscores (s : Text) : Text := s.filter (· != '_')

/-- A numeral in a base; there has to be a digit. -/
def numeral? (base : Nat) (s : Text) : Option Nat :=
  if s = [] then none
  else s.foldl (fun n c => do
    let d ← Text.hexDigit? c
    if d < base then return base * (← n) + d else none) (some 0)

/-- A decimal numeral has at most this many digits. -/
def maxDigits : Nat := 4300

def decimal? (s : Text) : Option Nat := if maxDigits < s.length then none else numeral? 10 s

def sexagesimal? (s : Text) : Option Nat :=
  (Text.splitAt ':' s).foldl (fun n place => do return 60 * (← n) + (← decimal? place)) (some 0)

def intOf (s : Text) : Except Fault Int :=
  let (isNegative, s) := signed (withoutUnderscores s)
  let n? := match s with
    | ['0'] => some 0
    | '0' :: 'b' :: s => numeral? 2 s
    | '0' :: 'x' :: s => numeral? 16 s
    | '0' :: _ => numeral? 8 s
    | _ => if s.contains ':' then sexagesimal? s else decimal? s
  match n? with
  | some n => .ok (if isNegative then -n else n)
  | none => .error .badValue

/-- Digits before and after a point, as one numeral and the count of those after it. -/
def digitsOf (s : Text) : Option (Nat × Nat) := do
  let (whole, fraction) := s.span (· != '.')
  let n ← numeral? 10 (whole ++ fraction.drop 1)
  return (n, fraction.length - 1)

def realOf (s : Text) : Except Fault Binary64 :=
  let (isNegative, s) := signed ((withoutUnderscores s).map Char.toLower)
  if s = ".inf".toList then .ok (.infinity isNegative)
  else if s = ".nan".toList then .ok .nan
  else
    let number? := do
      match (Text.splitAt ':' s).reverse with
      | last :: places =>
        let (last, exponent) := breakExponent last
        let (n, fraction) ← digitsOf last
        let exponent ← match exponent with
          | none => pure 0
          | some e => Text.readInt? e
        let above ← places.reverse.foldl (fun n p => do return 60 * (← n) + (← numeral? 10 p)) (some 0)
        return Binary64.ofDecimal isNegative (60 * above * 10 ^ fraction + n) (exponent - fraction)
      | [] => none
    match number? with
    | some x => .ok x
    | none => .error .badValue

def boolOf (s : Text) : Except Fault Bool :=
  match truths.lookup (s.map Char.toLower) with
  | some b => .ok b
  | none => .error .badValue

def valueOf (t : Tag) (s : Text) : Except Fault Value :=
  match t with
  | .null => .ok .null
  | .bool => .bool <$> boolOf s
  | .int => .int <$> intOf s
  | .real => .real <$> realOf s
  | .text => .ok (.text s)
  | _ => .error .malformedDocument

end Tag

end DeckMerge.Yaml
