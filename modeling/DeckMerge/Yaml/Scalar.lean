import DeckMerge.Report
import DeckMerge.Yaml.Cursor

/-!
Texts in documents: plain, in quotes, or as blocks. Lines are folded: a single end of a line counts as a
space, and of several all but the first are kept.
-/

namespace DeckMerge.Yaml

/-- What ends of lines are folded to. -/
def folded (first more : Text) : Text :=
  if first ≠ "\n".toList then first ++ more else if more = [] then " " else more

/-! ### Plain texts -/

/-- Blanks and ends of lines; nothing if a separator of documents follows. -/
def readGapLines : Nat → Cursor → Option Text × Cursor
  | 0, c => (some [], c)
  | fuel + 1, c =>
    if c.sees (· == ' ') then readGapLines fuel c.step
    else match c.readBreak? with
      | none => (some [], c)
      | some (b, c) =>
        if c.atSeparator then (none, c)
        else match readGapLines fuel c with
          | (some more, c) => (some (b ++ more), c)
          | r => r

/-- The gap after a stretch of plain text, whether it goes over lines, and what it is folded to. -/
def readPlainGap (c : Cursor) : Option Text × Bool × Cursor :=
  let (blanks, c) := c.takeWhile (· == ' ')
  match c.readBreak? with
  | none => (some blanks, false, c)
  | some (b, c) =>
    if c.atSeparator then (none, true, c)
    else match readGapLines c.rest.length c with
      | (some more, c) => (some (folded b more), true, c)
      | (none, c) => (none, true, c)

/-- The length of a stretch of plain text. -/
def plainLength (inFlow : Bool) : Text → Nat
  | [] => 0
  | ch :: s =>
    let ends := isGap ch
      || (ch == ':' && s.head?.all fun next => isGap next || (inFlow && ",[]{}".toList.contains next))
      || (inFlow && ",?[]{}".toList.contains ch)
    if ends then 0 else plainLength inFlow s + 1

/-- A plain text, and whether it goes on to the start of a line. Its lines are indented. -/
def readPlain (inFlow : Bool) (indent : Int) : Nat → Cursor → Text × Bool × Cursor
  | 0, c => ([], false, c)
  | fuel + 1, c =>
    let n := plainLength inFlow c.rest
    let (front, next) := (c.rest.take n, c.skip n)
    let (gap, isLine, next) := readPlainGap next
    let gap := gap.getD []
    let isDone := gap = [] ∨ next.sees (· == '#') ∨ (¬ inFlow ∧ next.column < indent)
      ∨ plainLength inFlow next.rest = 0
    if isDone then (front, isLine, next)
    else
      let (more, isLine, next) := readPlain inFlow indent fuel next
      (front ++ gap ++ more, isLine, next)

/-! ### Quoted texts -/

/-- Characters that stand for others after a backslash. -/
def escapes : List (Char × Nat) :=
  [('0', 0), ('a', 7), ('b', 8), ('t', 9), ('\t', 9), ('n', 10), ('v', 11), ('f', 12), ('r', 13),
   ('e', 0x1b), (' ', 0x20), ('"', 0x22), ('\\', 0x5c), ('/', 0x2f), ('N', 0x85), ('_', 0xa0),
   ('L', 0x2028), ('P', 0x2029)]

/-- How many hexadecimal digits follow a letter. -/
def escapeWidths : List (Char × Nat) := [('x', 2), ('u', 4), ('U', 8)]

def hexNumber? (s : Text) : Option Nat :=
  s.foldl (fun n c => do return 16 * (← n) + (← Text.hexDigit? c)) (some 0)

/-- A code point given by its number. -/
def readCode (c : Cursor) : Except Fault (Nat × Cursor) :=
  match c.peek.bind fun ch => escapeWidths.lookup ch with
  | none => .error .malformedDocument
  | some width =>
    let c := c.step
    let digits := c.rest.take width
    match hexNumber? digits with
    | some n =>
      if digits.length < width then .error .malformedDocument
      else if 0x10ffff < n then .error .badValue
      else .ok (n, c.skip width)
    | none => .error .malformedDocument

def isHighSurrogate (n : Nat) : Bool := 0xd800 ≤ n && n < 0xdc00

def isLowSurrogate (n : Nat) : Bool := 0xdc00 ≤ n && n < 0xe000

/-- A code point whose surrogates may be given one after the other. -/
def readCodes (c : Cursor) : Except Fault (Char × Cursor) := do
  let (n, c) ← readCode c
  if isHighSurrogate n ∧ c.sees (· == '\\') then
    match readCode c.step with
    | .ok (m, next) =>
      if isLowSurrogate m then
        return (Char.ofNat (0x10000 + (n - 0xd800) * 0x400 + (m - 0xdc00)), next)
    | .error _ => pure ()
  return (if isHighSurrogate n || isLowSurrogate n then Char.ofNat 0xfffd else Char.ofNat n, c)

/-- Empty lines and the blanks before the next text. No separator of documents may come. -/
def readQuotedBreaks : Nat → Cursor → Except Fault (Text × Cursor)
  | 0, c => .ok ([], c)
  | fuel + 1, c =>
    if c.atSeparator then .error .malformedDocument
    else
      let (_, c) := c.takeWhile fun ch => ch == ' ' || ch == '\t'
      match c.readBreak? with
      | none => .ok ([], c)
      | some (b, c) => do
        let (more, c) ← readQuotedBreaks fuel c
        return (b ++ more, c)

/-- The blanks and ends of lines between texts in quotes. -/
def readQuotedGap (c : Cursor) : Except Fault (Text × Cursor) := do
  let (blanks, c) := c.takeWhile fun ch => ch == ' ' || ch == '\t'
  match c.readBreak? with
  | none => if c.rest = [] then .error .malformedDocument else return (blanks, c)
  | some (b, c) =>
    let (more, c) ← readQuotedBreaks (c.rest.length + 1) c
    return (folded b more, c)

/-- What a backslash and the characters after it stand for. -/
def readEscape (c : Cursor) : Except Fault (Text × Cursor) :=
  match c.peek with
  | none => .error .malformedDocument
  | some ch =>
    match escapes.lookup ch, c.readBreak? with
    | some n, _ => .ok ([Char.ofNat n], c.step)
    | none, some (_, c) => readQuotedBreaks (c.rest.length + 1) c
    | none, none => do
      let (ch, c) ← readCodes c
      return ([ch], c)

/-- A text in quotes, whose opening quote is behind. In single quotes a quote is written twice, in
double quotes backslashes escape. -/
def readQuoted (quote : Char) : Nat → Cursor → Except Fault (Text × Cursor)
  | 0, _ => .error .malformedDocument
  | fuel + 1, c =>
    match c.rest with
    | [] => .error .malformedDocument
    | ch :: rest => do
      if ch = quote then
        if quote = '\'' ∧ rest.head? = some '\'' then
          let (more, c) ← readQuoted quote fuel (c.skip 2)
          return (quote :: more, c)
        else return ([], c.step)
      let (front, c) ←
        if isGap ch then readQuotedGap c
        else if quote = '"' ∧ ch = '\\' then readEscape c.step
        else pure ([ch], c.step)
      let (more, c) ← readQuoted quote fuel c
      return (front ++ more, c)

/-! ### Blocks -/

/-- What becomes of the ends of lines at the end of a block. -/
inductive Ending
  | strip
  | clip
  | keep
deriving DecidableEq

def readEnding (c : Cursor) : Option (Ending × Cursor) :=
  match c.peek with
  | some '+' => some (.keep, c.step)
  | some '-' => some (.strip, c.step)
  | _ => none

/-- A digit that gives the indentation; it may not be zero. -/
def readIncrement (c : Cursor) : Except Fault (Option Nat × Cursor) :=
  match c.peek with
  | some ch =>
    if ch = '0' then .error .malformedDocument
    else if ch.isDigit then .ok (some (ch.toNat - 48), c.step)
    else .ok (none, c)
  | none => .ok (none, c)

/-- The ending and the indentation that a block is headed with, in either order, and the rest of that
line. -/
def readHeading (c : Cursor) : Except Fault (Ending × Option Nat × Cursor) := do
  let (ending, increment, c) ← match readEnding c with
    | some (ending, c) => do
      let (increment, c) ← readIncrement c
      pure (ending, increment, c)
    | none => do
      let (increment, c) ← readIncrement c
      match increment, readEnding c with
      | some _, some (ending, c) => pure (ending, increment, c)
      | _, _ => pure (Ending.clip, increment, c)
  if !(c.sees (· == ' ') || c.endsLine) then .error .malformedDocument
  let (_, c) := c.takeWhile (· == ' ')
  let c := if c.sees (· == '#') then c.skipLine else c
  if !c.endsLine then .error .malformedDocument
  return (ending, increment, (c.readBreak?.map (·.2)).getD c)

/-- Empty lines before the first line of a block, and the greatest column met in them. -/
def readLeading : Nat → Nat → Cursor → Text × Nat × Cursor
  | 0, column, c => ([], column, c)
  | fuel + 1, column, c =>
    if c.sees (· == ' ') then readLeading fuel (max column c.step.column) c.step
    else match c.readBreak? with
      | none => ([], column, c)
      | some (b, c) =>
        let (more, column, c) := readLeading fuel column c
        (b ++ more, column, c)

/-- Skips blanks up to a column. -/
def indentTo (column : Nat) : Nat → Cursor → Cursor
  | 0, c => c
  | fuel + 1, c =>
    if c.column < column ∧ c.sees (· == ' ') then indentTo column fuel c.step else c

def readEmptyLines (column : Nat) : Nat → Cursor → Text × Cursor
  | 0, c => ([], c)
  | fuel + 1, c =>
    let c := indentTo column c.rest.length c
    match c.readBreak? with
    | none => ([], c)
    | some (b, c) =>
      let (more, c) := readEmptyLines column fuel c
      (b ++ more, c)

/-- The lines of a block from one that is indented on: the text, the end of its last line and the empty
lines after it. Folding leaves lines alone that start with a blank. -/
def readLines (isFolded : Bool) (column : Nat) : Nat → Cursor → Text × Text × Text × Cursor
  | 0, c => ([], [], [], c)
  | fuel + 1, c =>
    let isIndented (c : Cursor) : Bool := c.sees fun ch => ch == ' ' || ch == '\t'
    let (front, next) := c.takeWhile fun ch => !isBreak ch
    let (b, next) := (next.readBreak?).getD ([], next)
    let (empty, next) := readEmptyLines column (next.rest.length + 1) next
    if next.column = column ∧ next.rest ≠ [] then
      let gap : Text :=
        if isFolded && b = "\n".toList && !isIndented c && !isIndented next then
          if empty = [] then " " else empty
        else b ++ empty
      let (more, last, tail, next) := readLines isFolded column fuel next
      (front ++ gap ++ more, last, tail, next)
    else (front, b, empty, next)

/-- A block whose indicator is behind; `indent` is the indentation around it. -/
def readBlock (isFolded : Bool) (indent : Int) (c : Cursor) : Except Fault (Text × Cursor) := do
  let (ending, increment, c) ← readHeading c
  let least := max 1 (indent + 1).toNat
  let fuel := c.rest.length + 1
  let (empty, column, c) := match increment with
    | some n =>
      let (empty, next) := readEmptyLines (least + n - 1) fuel c
      (empty, least + n - 1, next)
    | none =>
      let (empty, column, next) := readLeading fuel 0 c
      (empty, max least column, next)
  let (s, last, tail, c) := if c.column = column ∧ c.rest ≠ [] then
      let (s, last, tail, c) := readLines isFolded column fuel c
      (empty ++ s, last, tail, c)
    else ([], [], empty, c)
  return (match ending with
    | .strip => s
    | .clip => s ++ last
    | .keep => s ++ last ++ tail, c)

end DeckMerge.Yaml
