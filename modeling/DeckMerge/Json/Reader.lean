import DeckMerge.Value

/-!
Reading JSON text. Integers and reals stay apart, the names NaN and Infinity are numbers, and of two
fields with one name the later value stands in the place of the first.
-/

namespace DeckMerge.Json

inductive Fault
  | malformed
  /-- An integer of more digits than are converted. -/
  | tooManyDigits
deriving DecidableEq

def skipBlanks (s : Text) : Text :=
  s.dropWhile fun c => c = ' ' || c = '\t' || c = '\n' || c = '\r'

def hex4? (a b c d : Char) : Option Nat := do
  return (← Text.hexDigit? a) * 0x1000 + (← Text.hexDigit? b) * 0x100 + (← Text.hexDigit? c) * 0x10
    + (← Text.hexDigit? d)

def pair? (high low : Nat) : Option Char :=
  if 0xd800 ≤ high ∧ high < 0xdc00 ∧ 0xdc00 ≤ low ∧ low < 0xe000 then
    some (Char.ofNat (0x10000 + (high - 0xd800) * 0x400 + (low - 0xdc00)))
  else none

/-- The character of a code point; half of a pair becomes the replacement character. -/
def single (n : Nat) : Char :=
  if 0xd800 ≤ n ∧ n < 0xe000 then Char.ofNat 0xfffd else Char.ofNat n

/-- The text of code points and units, pairs of units put together. -/
def ofUnits : List Nat → Text
  | [] => []
  | [n] => [single n]
  | n :: m :: ns =>
    match pair? n m with
    | some c => c :: ofUnits ns
    | none => single n :: ofUnits (m :: ns)

def plainEscape? : Char → Option Char
  | '"' => some '"'
  | '\\' => some '\\'
  | '/' => some '/'
  | 'b' => some '\x08'
  | 'f' => some '\x0c'
  | 'n' => some '\n'
  | 'r' => some '\r'
  | 't' => some '\t'
  | _ => none

/-- Code points and units up to the closing quote, and what follows it. -/
def readUnits : Text → Option (List Nat × Text)
  | [] => none
  | '"' :: s => some ([], s)
  | '\\' :: 'u' :: a :: b :: c :: d :: s => do
    let n ← hex4? a b c d
    let (ns, rest) ← readUnits s
    return (n :: ns, rest)
  | '\\' :: c :: s => do
    let x ← plainEscape? c
    let (ns, rest) ← readUnits s
    return (x.toNat :: ns, rest)
  | c :: s => do
    if c.toNat < 0x20 then none
    let (ns, rest) ← readUnits s
    return (c.toNat :: ns, rest)

/-- The text up to the closing quote, and what follows it. -/
def readText (s : Text) : Option (Text × Text) :=
  (readUnits s).map fun (ns, rest) => (ofUnits ns, rest)

def digits (s : Text) : Text × Text := s.span Char.isDigit

def digitsValue (s : Text) : Nat := s.foldl (fun n c => 10 * n + (c.toNat - 48)) 0

/-- Digits after a point, when a point with digits follows. -/
def readFraction (s : Text) : Option (Text × Text) :=
  match s with
  | '.' :: t => match digits t with
    | ([], _) => none
    | (ds, rest) => some (ds, rest)
  | _ => none

def readExponent (s : Text) : Option (Int × Text) :=
  match s with
  | c :: t =>
    if c = 'e' ∨ c = 'E' then
      let (negative, t) := match t with
        | '-' :: t => (true, t)
        | '+' :: t => (false, t)
        | t => (false, t)
      match digits t with
      | ([], _) => none
      | (ds, rest) => some (if negative then -(digitsValue ds : Int) else digitsValue ds, rest)
    else none
  | [] => none

def readMagnitude (negative : Bool) (s : Text) : Except Fault (Value × Text) :=
  match digits s with
  | ([], _) => .error .malformed
  | (ds, rest) =>
    let (ds, rest) := if ds.head? = some '0' then (['0'], s.drop 1) else (ds, rest)
    let (fraction, rest') := (readFraction rest).getD ([], rest)
    let (exponent, rest'') := (readExponent rest').getD (0, rest')
    if rest''.length = rest.length then
      if 4300 < ds.length then .error .tooManyDigits
      else .ok (.int (if negative then -(digitsValue ds : Int) else digitsValue ds), rest)
    else
      .ok (.real (.ofDecimal negative (digitsValue (ds ++ fraction)) (exponent - fraction.length)), rest'')

def words : List (Text × Value) :=
  [("null", .null), ("true", .bool true), ("false", .bool false), ("NaN", .real .nan),
   ("Infinity", .real (.infinity false)), ("-Infinity", .real (.infinity true))]

def readAtom (s : Text) : Except Fault (Value × Text) :=
  match words.findSome? fun (w, v) => (w.isPrefixOf? s).map (v, ·) with
  | some r => .ok r
  | none => match s with
    | '-' :: t => readMagnitude true t
    | _ => readMagnitude false s

mutual

def readValue : Nat → Text → Except Fault (Value × Text)
  | 0, _ => .error .malformed
  | fuel + 1, s =>
    match s with
    | '"' :: t => match readText t with
      | some (x, rest) => .ok (.text x, rest)
      | none => .error .malformed
    | '[' :: t => match skipBlanks t with
      | ']' :: rest => .ok (.list [], rest)
      | t => do
        let (items, rest) ← readItems fuel t
        return (.list items, rest)
    | '\x7b' :: t => match skipBlanks t with
      | '\x7d' :: rest => .ok (.mapping [], rest)
      | t => do
        let (fields, rest) ← readFields fuel [] t
        return (.mapping fields, rest)
    | _ => readAtom s

def readItems : Nat → Text → Except Fault (List Value × Text)
  | 0, _ => .error .malformed
  | fuel + 1, s => do
    let (v, rest) ← readValue fuel s
    match skipBlanks rest with
    | ',' :: rest =>
      let (vs, rest) ← readItems fuel (skipBlanks rest)
      return (v :: vs, rest)
    | ']' :: rest => return ([v], rest)
    | _ => .error .malformed

def readFields : Nat → List (Key × Value) → Text → Except Fault (List (Key × Value) × Text)
  | 0, _, _ => .error .malformed
  | fuel + 1, done, s =>
    match s with
    | '"' :: t => match readText t with
      | none => .error .malformed
      | some (name, rest) => match skipBlanks rest with
        | ':' :: rest => do
          let (v, rest) ← readValue fuel (skipBlanks rest)
          let done := Fields.put done (.text name) v
          match skipBlanks rest with
          | ',' :: rest => readFields fuel done (skipBlanks rest)
          | '\x7d' :: rest => return (done, rest)
          | _ => .error .malformed
        | _ => .error .malformed
    | _ => .error .malformed

end

def read (s : Text) : Except Fault Value := do
  let (v, rest) ← readValue (s.length + 1) (skipBlanks s)
  if skipBlanks rest = [] then return v else .error .malformed

end DeckMerge.Json
