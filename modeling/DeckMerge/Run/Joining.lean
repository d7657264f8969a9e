import DeckMerge.Log
import DeckMerge.Placeholder.Token
import DeckMerge.Run.Dialect

/-!
Joining runs that were split inside a placeholder. Only runs of properties and one text element take
part, and only where nothing but blanks stands between them. The first run of a range takes the text
of all.
-/

namespace DeckMerge.Run

-- The zero of the core library, whatever else is in scope.
attribute [local instance (high)] Zero.ofOfNat0

/-- A run of nothing but properties and one text, cut around the text. -/
structure TextRun where
  head : Text
  text : Text
  tail : Text
deriving DecidableEq

namespace TextRun

def markup (r : TextRun) : Text := r.head ++ r.text ++ r.tail

/-- The ways to read up to a closing mark without meeting the start of another one, nearest first. -/
def readsUpTo (mark stop : Text) : Text → List (Text × Text)
  | [] => if mark = [] then [([], [])] else []
  | c :: s =>
    let here := match mark.isPrefixOf? (c :: s) with
      | some rest => [(mark, rest)]
      | none => []
    if stop.isPrefixOf (c :: s) then here
    else here ++ (readsUpTo mark stop s).map fun (read, rest) => (c :: read, rest)

def readsProps (d : Dialect) (s : Text) : List (Text × Text) :=
  (match emptyTag d.propsTag s with
    | some r => [r]
    | none => match openTag d.propsTag s with
      | some (tag, rest) =>
        (readsUpTo (closeTag d.propsTag) (closeTag d.runTag) rest).map fun (read, rest) =>
          (tag ++ read, rest)
      | none => []) ++ [([], s)]

def readContent? (d : Dialect) (head s : Text) : Option (TextRun × Text) := do
  let (blanks, s) := s.span Text.isBlank
  let (tag, s) ← openTag d.textTag s
  let (text, s) := s.span (· != '<')
  let s ← (closeTag d.textTag).isPrefixOf? s
  let (blanks', s) := s.span Text.isBlank
  let s ← (closeTag d.runTag).isPrefixOf? s
  return (⟨head ++ blanks ++ tag, text, closeTag d.textTag ++ blanks' ++ closeTag d.runTag⟩, s)

def read? (d : Dialect) : Recogniser TextRun := fun s => do
  let (tag, s) ← openTag d.runTag s
  let (blanks, s) := s.span Text.isBlank
  (readsProps d s).findSome? fun (props, s) => readContent? d (tag ++ blanks ++ props) s

end TextRun

/-- Runs in order, each with the text before it. -/
abbrev Runs := List (Text × TextRun)

/-- Cuts the runs where something other than blanks stands between two. -/
def groups : Runs → List Runs
  | [] => []
  | r :: rs =>
    match groups rs with
    | [] => [[r]]
    | [] :: gs => [r] :: gs
    | ((gap, next) :: g) :: gs =>
      if gap.all Text.isBlank then (r :: (gap, next) :: g) :: gs
      else [r] :: ((gap, next) :: g) :: gs

/-- The number of the text that each character of the joined texts comes from. -/
def owners (index : Nat) : List Text → List Nat
  | [] => []
  | t :: ts => t.map (fun _ => index) ++ owners (index + 1) ts

/-- Adds a stretch to ranges, latest first, joining it to the last where they meet. -/
def addRange (ranges : List (Nat × Nat)) (first last : Nat) : List (Nat × Nat) :=
  if first = last then ranges
  else match ranges with
    | (f, l) :: more =>
      if first ≤ l then (f, max last l) :: more else (first, last) :: (f, l) :: more
    | [] => [(first, last)]

/-- The first and last number of the texts that a token of the joined texts spans, in order and
joined where they meet. -/
def spanningRanges (texts : List Text) : List (Nat × Nat) :=
  let owner := owners 0 texts
  ((Placeholder.scan texts.flatten).foldl (fun ranges span =>
    match span with
    | .literal _ _ => ranges
    | .token _ _ => addRange ranges (owner.getD span.start 0) (owner.getD (span.stop - 1) 0)) []).reverse

/-- Joins the runs of each range into its first; `index` is the number of the first run. -/
def joinRanges (ranges : List (Nat × Nat)) (index : Nat) : Runs → Runs
  | [] => []
  | (gap, run) :: rs =>
    match ranges with
    | (first, last) :: more =>
      if first = index then
        let text := run.text ++ (rs.take (last - first)).flatMap (·.2.text)
        (gap, { run with text }) :: joinRanges more (last + 1) (rs.drop (last - first))
      else (gap, run) :: joinRanges ranges (index + 1) rs
    | [] => (gap, run) :: rs
termination_by rs => rs.length
decreasing_by all_goals simp; try omega

def joinGroup (g : Runs) : Runs × Nat :=
  let ranges := spanningRanges (g.map (·.2.text))
  (joinRanges ranges 0 g, (ranges.map fun (first, last) => last - first).sum)

def joinDialect (d : Dialect) (s : Text) : Text × Nat :=
  let (runs, tail) := (TextRun.read? d).findAll s
  let joined := (groups runs).map joinGroup
  ((joined.flatMap (·.1)).flatMap (fun (gap, run) => gap ++ run.markup) ++ tail,
    (joined.map (·.2)).sum)

def joinRuns (s : Text) : Text × Nat :=
  Dialect.all.foldl (fun (s, n) d => let (s, m) := joinDialect d s; (s, n + m)) (s, 0)

def joinNotes (part : Option Text) (removed : Nat) : List Note :=
  let place : Text := match part with
    | none | some [] => []
    | some name => " in " ++ name
  if removed = 0 then []
  else [.template .debug ("Merged " ++ Text.ofNat removed ++ " runs that split placeholders" ++ place)]

end DeckMerge.Run
