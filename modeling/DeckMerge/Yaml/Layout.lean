import DeckMerge.Text.Utf8
import DeckMerge.Yaml.Scalar

/-!
The words of a document, with marks for what indentation opens and closes. A text may turn out to be the
key of a mapping only when the colon after it is met; its mark is then put before it.
-/

namespace DeckMerge.Yaml

inductive Token
  | directive (name value : Text)
  | documentStart
  | documentEnd
  | blockSequence
  | blockMapping
  | blockEnd
  | flowSequence
  | flowSequenceEnd
  | flowMapping
  | flowMappingEnd
  | entry
  | flowEntry
  | key
  | value
  | alias (name : Text)
  | anchor (name : Text)
  /-- A tag: its handle, if it has one, and the rest. -/
  | tag (handle : Option Text) (suffix : Text)
  | scalar (s : Text) (isPlain : Bool)
deriving DecidableEq

structure Candidate where
  /-- How many words come before it. -/
  place : Nat
  /-- Whether it has to be a key, for it stands where an entry of a mapping should. -/
  isRequired : Bool
  index : Nat
  line : Nat
  column : Nat

structure Layout where
  cursor : Cursor
  tokens : Array Token
  /-- The indentation of the innermost block; below zero outside all of them. -/
  indent : Int
  outer : List Int
  /-- Whether a key may start here. -/
  mayBeKey : Bool
  /-- The candidates of the flows that are open, the innermost first, and of the block around. -/
  candidates : List (Option Candidate)

namespace Layout

/-- A key is on one line and no longer than this. -/
def maxKeyLength : Nat := 1024

def start (s : Text) : Layout := ⟨.start s, #[], -1, [], true, [none]⟩

def inFlow (l : Layout) : Bool := 1 < l.candidates.length

def push (l : Layout) (t : Token) : Layout := { l with tokens := l.tokens.push t }

def moveTo (l : Layout) (c : Cursor) : Layout := { l with cursor := c }

/-- Closes the blocks that are indented more than a column. -/
def unwindTo (column : Int) (tokens : Array Token) (indent : Int) : List Int →
    Array Token × Int × List Int
  | [] => (tokens, indent, [])
  | i :: outer =>
    if column < indent then unwindTo column (tokens.push .blockEnd) i outer
    else (tokens, indent, i :: outer)

def unwind (l : Layout) (column : Int) : Layout :=
  if l.inFlow then l
  else
    let (tokens, indent, outer) := unwindTo column l.tokens l.indent l.outer
    { l with tokens := tokens, indent := indent, outer := outer }

/-- Opens a block if it is indented more than the one around it; its mark comes at a place. -/
def openBlock (l : Layout) (column place : Nat) (t : Token) : Layout :=
  if l.indent < column then
    { l with
      indent := column
      outer := l.indent :: l.outer
      tokens := l.tokens.insertIdxIfInBounds place t }
  else l

def forgetCandidate (l : Layout) : Except Fault Layout :=
  match l.candidates with
  | some k :: ks =>
    if k.isRequired then .error .malformedDocument else .ok { l with candidates := none :: ks }
  | _ => .ok l

/-- Notes that the next word may be a key. -/
def noteCandidate (l : Layout) : Except Fault Layout := do
  if l.mayBeKey then
    let l ← l.forgetCandidate
    let c := l.cursor
    let k : Candidate :=
      ⟨l.tokens.size, !l.inFlow && l.indent == c.column, c.index, c.line, c.column⟩
    return { l with candidates := some k :: l.candidates.tail }
  else return l

/-- Drops the candidates that a colon can no longer follow. -/
def dropStale (l : Layout) : Except Fault Layout := do
  let ks ← l.candidates.mapM fun k => match k with
    | none => pure none
    | some k =>
      if k.line ≠ l.cursor.line ∨ maxKeyLength < l.cursor.index - k.index then
        if k.isRequired then .error .malformedDocument else pure none
      else pure (some k)
  return { l with candidates := ks }

/-- Skips blanks, comments and ends of lines. After the end of a line in a block, a key may start. -/
def skipGap : Nat → Layout → Layout
  | 0, l => l
  | fuel + 1, l =>
    let c := l.cursor
    let c := if c.index = 0 ∧ c.sees (·.toNat == 0xfeff) then c.step else c
    let (_, c) := c.takeWhile (· == ' ')
    let c := if c.sees (· == '#') then c.skipLine else c
    match c.readBreak? with
    | some (_, c) => skipGap fuel { l with cursor := c, mayBeKey := l.mayBeKey || !l.inFlow }
    | none => l.moveTo c

/-! ### Words -/

def isWordChar (c : Char) : Bool := c.isAlphanum || c == '-' || c == '_'

def readAnchor (c : Cursor) : Except Fault (Text × Cursor) :=
  let (name, c) := c.takeWhile isWordChar
  if name ≠ [] ∧ (c.endsWord 0 ∨ c.sees ("?:,]\x7d%@`".toList.contains ·)) then .ok (name, c)
  else .error .malformedDocument

def isTagChar (c : Char) : Bool := c.isAlphanum || "-;/?:@&=+$,_.!~*'()[]".toList.contains c

/-- Octets that are written with percent signs. -/
def readOctets : Nat → Cursor → Except Fault (Bytes × Cursor)
  | 0, c => .ok ([], c)
  | fuel + 1, c =>
    match c.rest with
    | '%' :: a :: b :: _ =>
      match Text.hexDigit? a, Text.hexDigit? b with
      | some x, some y => do
        let (bs, c) ← readOctets fuel (c.skip 3)
        return ((16 * x + y).toUInt8 :: bs, c)
      | _, _ => .error .malformedDocument
    | '%' :: _ => .error .malformedDocument
    | _ => .ok ([], c)

/-- The rest of a tag; it may be empty if nothing has to come. -/
def readSuffix : Nat → Cursor → Except Fault (Text × Cursor)
  | 0, c => .ok ([], c)
  | fuel + 1, c => do
    let (front, c) := c.takeWhile isTagChar
    if c.sees (· == '%') then
      let (octets, c) ← readOctets (c.rest.length + 1) c
      match Text.ofUtf8? octets with
      | none => .error .malformedDocument
      | some s =>
        let (more, c) ← readSuffix fuel c
        return (front ++ s ++ more, c)
    else return (front, c)

def readSuffixOf (c : Cursor) : Except Fault (Text × Cursor) := do
  let (s, c) ← readSuffix (c.rest.length + 1) c
  if s = [] then .error .malformedDocument else return (s, c)

def readHandle? (c : Cursor) : Option (Text × Cursor) :=
  let (name, next) := c.step.takeWhile isWordChar
  if next.sees (· == '!') then some ('!' :: name ++ ['!'], next.step) else none

/-- Whether the word at a cursor has a second exclamation mark. -/
def hasHandle (c : Cursor) : Bool :=
  ((c.rest.drop 1).takeWhile fun ch => ch != ' ' && !isBreak ch).contains '!'

def readTag (c : Cursor) : Except Fault (Token × Cursor) := do
  let (t, c) ←
    if c.rest[1]? = some '<' then
      let (s, c) ← readSuffixOf (c.skip 2)
      if c.sees (· == '>') then pure (Token.tag none s, c.step) else .error .malformedDocument
    else if c.endsWord 1 then pure (Token.tag none "!", c.step)
    else if hasHandle c then
      match readHandle? c with
      | none => .error .malformedDocument
      | some (handle, c) =>
        let (s, c) ← readSuffixOf c
        pure (Token.tag (some handle) s, c)
    else
      let (s, c) ← readSuffixOf c.step
      pure (Token.tag (some ['!']) s, c)
  if c.endsLine || c.sees (· == ' ') then return (t, c) else .error .malformedDocument

/-- A directive whose percent sign is behind: its name and the rest of the line without a comment. -/
def readDirective (c : Cursor) : Except Fault (Token × Cursor) := do
  let (name, c) := c.takeWhile isWordChar
  if name = [] ∨ !(c.endsLine || c.sees (· == ' ')) then .error .malformedDocument
  let (line, c) := c.takeWhile fun ch => !isBreak ch
  let value := (Text.breakOn? " #" line).elim line (·.1)
  let words := (Text.splitAt ' ' value).filter (· ≠ [])
  return (.directive name (Text.joinWith " " words), c)

def plainBarred : List Char := "-?:,[]\x7b\x7d#&*!|>'\"%@`".toList

/-- Whether a plain text may start here. -/
def startsPlain (l : Layout) : Bool :=
  match l.cursor.peek with
  | none => false
  | some ch =>
    (!isGap ch && !plainBarred.contains ch)
      || (!l.cursor.endsWord 1 && (ch == '-' || (!l.inFlow && (ch == '?' || ch == ':'))))

/-! ### One word -/

/-- A word that has no more to it than its characters. -/
def take (l : Layout) (n : Nat) (t : Token) : Layout := (l.moveTo (l.cursor.skip n)).push t

def separator (l : Layout) (t : Token) : Except Fault Layout := do
  let l ← (l.unwind (-1)).forgetCandidate
  return { l.take 3 t with mayBeKey := false }

def openFlow (l : Layout) (t : Token) : Except Fault Layout := do
  let l ← l.noteCandidate
  return { l.take 1 t with mayBeKey := true, candidates := none :: l.candidates }

def closeFlow (l : Layout) (t : Token) : Except Fault Layout := do
  if !l.inFlow then .error .malformedDocument
  let l ← l.forgetCandidate
  return { l.take 1 t with mayBeKey := false, candidates := l.candidates.tail }

/-- The mark of an entry or of a key that is told from its value. -/
def openEntry (l : Layout) (block t : Token) (mayBeKey : Bool) : Except Fault Layout := do
  if !l.inFlow && !l.mayBeKey then .error .malformedDocument
  let l := if l.inFlow then l else l.openBlock l.cursor.column l.tokens.size block
  let l ← { l with mayBeKey := mayBeKey }.forgetCandidate
  return l.take 1 t

/-- The colon of a mapping, which makes a key of the candidate if there is one. -/
def openValue (l : Layout) : Except Fault Layout :=
  match l.candidates with
  | some k :: ks =>
    let l := { l with
      candidates := none :: ks
      tokens := l.tokens.insertIdxIfInBounds k.place .key
      mayBeKey := false }
    let l := if l.inFlow then l else l.openBlock k.column k.place .blockMapping
    .ok (l.take 1 .value)
  | _ => l.openEntry .blockMapping .value (!l.inFlow)

/-- A text or a property of one: whether a key may start after it, the word and what is left. -/
def word (l : Layout) (r : Except Fault (Token × Bool × Cursor)) : Except Fault Layout := do
  let (t, mayBeKey, c) ← r
  return { (l.moveTo c).push t with mayBeKey := mayBeKey }

def next (l : Layout) (ch : Char) : Except Fault Layout := do
  let c := l.cursor
  let named (make : Text → Token) : Except Fault Layout := do
    (← l.noteCandidate).word do
      let (name, c) ← readAnchor c.step
      return (make name, false, c)
  let quoted : Except Fault Layout := do
    (← l.noteCandidate).word do
      let (s, c) ← readQuoted ch (c.rest.length + 1) c.step
      return (.scalar s false, false, c)
  let block (isFolded : Bool) : Except Fault Layout := do
    (← l.forgetCandidate).word do
      let (s, c) ← readBlock isFolded l.indent c.step
      return (.scalar s false, true, c)
  if c.column = 0 ∧ ch = '%' then
    let l ← (l.unwind (-1)).forgetCandidate
    l.word do
      let (t, c) ← readDirective c.step
      return (t, false, c)
  else if c.column = 0 ∧ c.atSeparator then
    l.separator (if ch = '-' then .documentStart else .documentEnd)
  else if ch = '[' then l.openFlow .flowSequence
  else if ch = '\x7b' then l.openFlow .flowMapping
  else if ch = ']' then l.closeFlow .flowSequenceEnd
  else if ch = '\x7d' then l.closeFlow .flowMappingEnd
  else if ch = ',' then
    let l ← { l with mayBeKey := true }.forgetCandidate
    return l.take 1 .flowEntry
  else if ch = '-' ∧ c.endsWord 1 then l.openEntry .blockSequence .entry true
  else if ch = '?' ∧ (l.inFlow ∨ c.endsWord 1) then l.openEntry .blockMapping .key (!l.inFlow)
  else if ch = ':' ∧ (l.inFlow ∨ c.endsWord 1) then l.openValue
  else if ch = '*' then named .alias
  else if ch = '&' then named .anchor
  else if ch = '!' then do
    (← l.noteCandidate).word do
      let (t, c) ← readTag c
      return (t, false, c)
  else if ch = '|' ∧ ¬ l.inFlow then block false
  else if ch = '>' ∧ ¬ l.inFlow then block true
  else if ch = '\'' ∨ ch = '"' then quoted
  else if l.startsPlain then do
    (← l.noteCandidate).word
      (let (s, isLine, c) := readPlain l.inFlow (l.indent + 1) (c.rest.length + 1) c
      .ok (.scalar s true, isLine, c))
  else .error .malformedDocument

/-- Reads words up to the end. -/
def run : Nat → Layout → Except Fault Layout
  | 0, _ => .error .malformedDocument
  | fuel + 1, l => do
    let l ← (l.skipGap (l.cursor.rest.length + 1)).dropStale
    let l := l.unwind l.cursor.column
    match l.cursor.peek with
    | none => (l.unwind (-1)).forgetCandidate
    | some ch => run fuel (← l.next ch)

end Layout

/-- Whether a character may stand in a document. -/
def isAllowed (c : Char) : Bool :=
  let n := c.toNat
  n == 9 || n == 0xa || n == 0xd || (0x20 ≤ n && n ≤ 0x7e) || n == 0x85 || (0xa0 ≤ n && n ≤ 0xd7ff)
    || (0xe000 ≤ n && n ≤ 0xfffd) || 0x10000 ≤ n

def tokens (s : Text) : Except Fault (List Token) := do
  if !s.all isAllowed then .error .malformedDocument
  return (← Layout.run (s.length + 1) (.start s)).tokens.toList

end DeckMerge.Yaml
