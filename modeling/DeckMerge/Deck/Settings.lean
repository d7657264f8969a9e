import DeckMerge.Report
import DeckMerge.Value

/-!
Settings of a deck: as documents give them, each any value, and as rendering uses them.
-/

namespace DeckMerge.Deck

def settingNames : List Text :=
  ["page_capacity", "work_history_cap", "education_cap", "max_records", "template_parts", "workers",
   "output_filename"]

abbrev Settings := List (Key × Value)

def Settings.default : Settings :=
  [("page_capacity", .int 4), ("work_history_cap", .int 5), ("education_cap", .null),
   ("max_records", .int 20), ("template_parts", .null), ("workers", .int 1),
   ("output_filename", .text "Candidate_Summary_Generated.pptx")]

/-- Whether a value is a number below an integer; other kinds cannot be compared. -/
def isBelow (v : Value) (least : Int) : Except Fault Bool :=
  match v with
  | .int n => .ok (n < least)
  | .bool b => .ok ((if b then 1 else 0) < least)
  | .real x => .ok (x.ltInt least)
  | _ => .error .wrongKind

def lowerBounds : List (Text × Int) :=
  [("page_capacity", 1), ("work_history_cap", 0), ("education_cap", 0), ("max_records", 0),
   ("workers", 1)]

def checkBounds (s : Settings) : List (Text × Int) → Except Failure Unit
  | [] => .ok ()
  | (name, least) :: bounds => do
    let v := (Fields.get? s name).getD .null
    let below ← if v.isNull && name = "education_cap".toList then pure false
      else (isBelow v least).mapError .fault
    if below then .error (.refusal (.outOfRange name least v.display))
    else checkBounds s bounds

def elements : Value → Except Fault (List Value)
  | .list items => .ok items
  | .text s => .ok (s.map fun c => .text [c])
  | .mapping fields => .ok (fields.map fun (k, _) => match k with
    | .text s => .text s
    | .int n => .int n
    | .real x => .real x
    | .bool b => .bool b
    | .null => .null)
  | _ => .error .wrongKind

/-- Fills in what is missing and checks the rest. -/
def Settings.ofFields (fields : List (Key × Value)) : Except Failure Settings := do
  if fields.any fun (k, _) => !(settingNames.map Key.text).contains k then
    .error (.fault .wrongKind)
  let s : Settings := Settings.default.map fun (k, v) => (k, (fields.lookup k).getD v)
  checkBounds s lowerBounds
  let parts := (Fields.get? s "template_parts").getD .null
  if parts.isNull then return s
  let parts ← (elements parts).mapError .fault
  return s.map fun (k, v) => if k = .text "template_parts" then (k, .list parts) else (k, v)

structure Config where
  /-- How many slots a page has. -/
  capacity : Nat
  jobCap : Nat
  studyCap : Option Nat
  maxRecords : Nat
  /-- The parts to fill, in page order; empty when they are to be found. -/
  parts : List Text
  workers : Nat
  fileName : Text
  capacity_pos : 1 ≤ capacity
  workers_pos : 1 ≤ workers

def Config.default : Config :=
  ⟨4, 5, none, 20, [], 1, "Candidate_Summary_Generated.pptx", by decide, by decide⟩

/-- A count: a number below zero or no whole number cannot be one. -/
def count? : Value → Except Fault Nat
  | .int (.ofNat n) => .ok n
  | .bool b => .ok (if b then 1 else 0)
  | _ => .error .wrongKind

def Config.ofSettings (s : Settings) : Except Fault Config := do
  let value (name : Text) : Value := (Fields.get? s name).getD .null
  let capacity ← count? (value "page_capacity")
  let jobCap ← count? (value "work_history_cap")
  let studyCap ← match value "education_cap" with
    | .null => pure none
    | v => some <$> count? v
  let maxRecords ← count? (value "max_records")
  let parts := match value "template_parts" with
    | .list items => items.map Value.display
    | _ => []
  let workers ← count? (value "workers")
  if h : 1 ≤ capacity ∧ 1 ≤ workers then
    return ⟨capacity, jobCap, studyCap, maxRecords, parts, workers,
      (value "output_filename").display, h.1, h.2⟩
  else .error .wrongKind

def Config.ofFields (fields : List (Key × Value)) : Except Failure Config := do
  (Config.ofSettings (← Settings.ofFields fields)).mapError .fault

end DeckMerge.Deck
