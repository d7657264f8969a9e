import DeckMerge.Json.Reader
import DeckMerge.Json.Writer
import DeckMerge.Markup.Line
import DeckMerge.Report
import DeckMerge.Text.Blank

/-!
The log of events: a file with a JSON object on each line, read back from its end. Lines that hold no
JSON are passed over.
-/

namespace DeckMerge

/-- An event: when it happened, its type, the deck, who speaks, and further fields. -/
structure Event where
  time : Text
  type : Text
  deck : Text
  source : Text
  extra : List (Key × Value)

namespace Event

/-- All fields in order; a further field named like an earlier one takes its place. -/
def fields (e : Event) : List (Key × Value) :=
  e.extra.foldl (fun fs (k, v) => Fields.put fs k v)
    [("timestamp", .text e.time), ("event_type", .text e.type), ("deck_name", .text e.deck),
      ("source", .text e.source)]

def line (e : Event) : Text := Json.write (.mapping e.fields)

end Event

namespace EventLog

def append (content : Text) (e : Event) : Text := content ++ e.line ++ ['\n']

/-- The values of the lines that hold JSON. A numeral that is too long to convert is an error. -/
def readLines : List Text → Except Fault (List Value)
  | [] => .ok []
  | s :: ls =>
    match Json.read (Text.trim s) with
    | .ok v => return v :: (← readLines ls)
    | .error .malformed => readLines ls
    | .error .tooManyDigits => .error .badValue

/-- Whether an event's field is this text; no text lets every event pass. -/
def passes (name : Text) (wanted : Option Text) (v : Value) : Except Fault Bool :=
  match wanted with
  | none | some [] => .ok true
  | some w =>
    match v with
    | .mapping fields => .ok (match Fields.get? fields name with
      | some (.text s) => s = w
      | _ => false)
    | _ => .error .notMapping

/-- The last `n` of a list; all of it for zero, and for a negative number all but the first. -/
def lastOf {α : Type} (xs : List α) (n : Int) : List α :=
  if (xs.length : Int) ≤ n ∨ n = 0 then xs
  else if n < 0 then xs.drop n.natAbs
  else xs.drop (xs.length - n.toNat)

def recent (content : Text) (n : Int) (deck type : Option Text) : Except Fault (List Value) := do
  let events ← readLines (Markup.lines content)
  let events ← events.filterM (passes "deck_name" deck)
  let events ← events.filterM (passes "event_type" type)
  return lastOf events n

end EventLog

end DeckMerge
