import DeckMerge.Markup.Escape
import DeckMerge.Run.Dialect

/-!
The run around a placeholder, taken apart so that it can be written again once for each line of a
value.
-/

namespace DeckMerge.Run

/-- A text cut at the run that encloses a placeholder. The pieces in order, with the placeholder after
`textBefore` and the closing tags between them, are the text. -/
structure Site where
  dialect : Dialect
  preceding : Text
  runOpen : Text
  /-- What stands in the run before its properties. -/
  headBefore : Text
  /-- The properties element as it is written; empty when there is none. -/
  props : Text
  /-- What stands between the properties and the text element. -/
  headAfter : Text
  textOpen : Text
  textBefore : Text
  textAfter : Text
  /-- What stands in the run after the text element. -/
  tail : Text
  following : Text
deriving DecidableEq

namespace Site

inductive Obstacle
  | noRun (tag : Text)
  | openRun (tag : Text)
  | noText (tag : Text)
  | outsideText (tag : Text)
  | openText (tag : Text)
deriving DecidableEq

def Obstacle.message : Obstacle → Text
  | .noRun tag => "No enclosing " ++ tag ++ " element"
  | .openRun tag => "Unterminated " ++ tag ++ " element"
  | .noText tag => "No enclosing " ++ tag ++ " element"
  | .outsideText tag => "Placeholder sits outside " ++ tag
  | .openText tag => "Unterminated " ++ tag ++ " element"

/-- A properties element: one tag, or all up to the first closing tag. -/
def properties (tag : Text) : Recogniser Text := fun s =>
  match emptyTag tag s with
  | some r => some r
  | none => do
    let rest ← ('<' :: tag).isPrefixOf? s
    let (inner, rest) ← readAttributes? rest
    let (content, rest) ← Text.breakOn? (closeTag tag) rest
    return ('<' :: tag ++ inner ++ ['>'] ++ content ++ closeTag tag, rest)

/-- The smallest run around the place between two texts. -/
def locate (d : Dialect) (before after : Text) : Except Obstacle Site := do
  let runClose := closeTag d.runTag
  let textClose := closeTag d.textTag
  match (openTag d.runTag).findLast? before with
  | none => .error (.noRun d.runTag)
  | some (preceding, runOpen, body) =>
    if body.holds runClose then .error (.noRun d.runTag)
    else match Text.breakOn? runClose after with
      | none => .error (.openRun d.runTag)
      | some (inside, following) =>
        if ((openTag d.runTag).find? inside).isSome then .error (.openRun d.runTag)
        else match (openTag d.textTag).findLast? body with
          | none => .error (.noText d.textTag)
          | some (head, textOpen, textBefore) =>
            if textBefore.holds textClose then .error (.outsideText d.textTag)
            else match Text.breakOn? textClose inside with
              | none => .error (.openText d.textTag)
              | some (textAfter, tail) =>
                let (headBefore, props, headAfter) :=
                  ((properties d.propsTag).find? head).getD (head, [], [])
                .ok ⟨d, preceding, runOpen, headBefore, props, headAfter, textOpen, textBefore,
                  textAfter, tail, following⟩

def head (r : Site) : Text := r.headBefore ++ r.headAfter

def rest (r : Site) : Text :=
  r.textAfter ++ closeTag r.dialect.textTag ++ r.tail ++ closeTag r.dialect.runTag

def start (r : Site) : Nat := r.preceding.length

def stop (r : Site) (size : Nat) : Nat :=
  (r.preceding ++ r.runOpen ++ r.headBefore ++ r.props ++ r.headAfter ++ r.textOpen
    ++ r.textBefore).length + size + r.rest.length

/-- Closes the run of one line, breaks, and opens the run of the next. -/
def nextLine (r : Site) : Text :=
  closeTag r.dialect.textTag ++ closeTag r.dialect.runTag ++ r.dialect.lineBreak r.props
    ++ r.runOpen ++ r.props ++ r.textOpen

/-- The runs of these lines up to the end of the last one. What stood in the run beside its
properties stays with the first line. -/
def fill (r : Site) (lines : List Text) : Text :=
  r.runOpen ++ r.props ++ r.head ++ r.textOpen ++ r.textBefore
    ++ Text.joinWith r.nextLine (lines.map Markup.escape)

/-- One run for each line, with a break between two; nothing for no line. -/
def lineRuns (r : Site) (lines : List Text) : Text :=
  if lines = [] then [] else r.fill lines ++ r.rest

end Site

end DeckMerge.Run
