import DeckMerge.Candidate.Record
import DeckMerge.Deck.Settings
import DeckMerge.Placeholder.Expansion

/-!
Pages of records. A page has a fixed number of slots, counted from 1, and binds five keys for each:
the name in capitals, the jobs and the studies as items of loops, and both as lines of text. The
slots past the last record are bound to nothing.
-/

namespace DeckMerge.Deck

-- The powers and the zero of the core library, whatever else is in scope.
attribute [local instance (high)] instPowNat Zero.ofOfNat0

open Placeholder (Binding)

inductive SlotField
  | name
  | jobs
  | jobLines
  | studies
  | studyLines
deriving DecidableEq

namespace SlotField

def all : List SlotField := [.name, .jobs, .jobLines, .studies, .studyLines]

def label : SlotField → Text
  | .name => "NAME_"
  | .jobs => "WORK_HISTORY_"
  | .jobLines => "WORK_HISTORY_TEXT_"
  | .studies => "EDUCATION_"
  | .studyLines => "EDUCATION_TEXT_"

def key (f : SlotField) (slot : Int) : Text := f.label ++ Text.ofInt slot

end SlotField

def slotKeys (slot : Int) : List Text := SlotField.all.map (·.key slot)

/-- How many pages there are, computed as the ceiling of a quotient in floating point. -/
def pageCount (records capacity : Nat) : Nat :=
  match Binary64.ofRatio false records capacity with
  | .finite _ m e =>
    if 0 ≤ e then m * 2 ^ e.toNat else (m + (2 ^ (-e).toNat - 1)) / 2 ^ (-e).toNat
  | _ => 0

/-- Pages of `capacity` entries in order; the last one may hold fewer. -/
def paginate {α : Type} (xs : List α) (capacity : Nat) : List (List α) :=
  (List.range (pageCount xs.length capacity)).map fun i => (xs.drop (i * capacity)).take capacity

/-- As `paginate`, refusing a capacity below 1. -/
def paginate? {α : Type} (xs : List α) (capacity : Int) : Except Report (List (List α)) :=
  if capacity < 1 then
    .error (.plain .binding ("Page capacity must be at least 1, got " ++ Text.ofInt capacity))
  else .ok (paginate xs capacity.toNat)

def capped {α : Type} (xs : List α) : Option Int → List α
  | none => xs
  | some n => Text.cutAt xs n

def jobText (r : Candidate.Record) (cap : Option Int) : Text :=
  Text.joinWith "\n" ((capped r.jobs cap).map Candidate.Job.line)

def studyText (r : Candidate.Record) (cap : Option Int) : Text :=
  Text.joinWith "\n" ((capped r.studies cap).flatMap Candidate.Study.lines)

def jobItem (j : Candidate.Job) : Value :=
  .mapping [("JOB_TITLE", .text j.title), ("COMPANY", .text j.company), ("DATES", .text j.dates)]

def studyItem (s : Candidate.Study) : Value :=
  .mapping [("INSTITUTION", .text s.institution), ("DEGREE", .text s.degree),
    ("DATES", .text s.dates)]

def SlotField.value (c : Config) (r : Candidate.Record) : SlotField → Value
  | .name => .text (Text.upper r.name)
  | .jobs => .list ((r.jobs.take c.jobCap).map jobItem)
  | .jobLines => .text (jobText r (some c.jobCap))
  | .studies => .list ((capped r.studies (c.studyCap.map Int.ofNat)).map studyItem)
  | .studyLines => .text (studyText r (c.studyCap.map Int.ofNat))

def SlotField.emptyValue : SlotField → Value
  | .jobs | .studies => .list []
  | _ => .text []

def filledSlot (c : Config) (slot : Int) (r : Candidate.Record) : Binding :=
  SlotField.all.map fun f => (f.key slot, f.value c r)

def emptySlot (slot : Int) : Binding :=
  SlotField.all.map fun f => (f.key slot, f.emptyValue)

/-- Binds keys; one that is bound keeps its place. -/
def bind (b : Binding) : Binding → Binding
  | [] => b
  | (k, v) :: more =>
    bind (if b.any (·.1 = k) then b.map fun (k', w) => if k' = k then (k, v) else (k', w)
      else b ++ [(k, v)]) more

/-- Every slot bound to nothing. -/
def emptyBinding (capacity : Nat) : Binding :=
  (List.range capacity).flatMap fun (i : Nat) => emptySlot ↑(i + 1)

/-- The keys of slots 1 to `capacity` that a binding lacks. -/
def missingKeys (b : Binding) (capacity : Int) : List Text :=
  ((List.range capacity.toNat).flatMap fun (i : Nat) => slotKeys ↑(i + 1)).filter fun k =>
    !b.any (·.1 = k)

def checkComplete (b : Binding) (capacity : Int) : Except Report Unit :=
  match missingKeys b capacity with
  | [] => .ok ()
  | ks => .error (.plain .binding ("Binding is missing slot keys: " ++ quotedList ks))

def bindPage (c : Config) (rs : List Candidate.Record) : Except Report Binding := do
  if c.capacity < rs.length then
    .error (.plain .binding ("Page holds " ++ Text.ofNat rs.length ++ " records but only "
      ++ Text.ofNat c.capacity ++ " slots"))
  let b := (List.range c.capacity).flatMap fun (i : Nat) => match rs[i]? with
    | some r => filledSlot c ↑(i + 1) r
    | none => emptySlot ↑(i + 1)
  checkComplete b c.capacity
  return b

def bindPages (c : Config) (rs : List Candidate.Record) : Except Report (List Binding) :=
  (paginate rs c.capacity).mapM (bindPage c)

/-- What a binding holds: slots that have a name, and entries of lists. -/
structure Census where
  filled : Nat
  entries : Nat
deriving DecidableEq

def census (b : Binding) : Census :=
  ⟨b.countP fun (k, v) => k.startsWith SlotField.name.label && !v.isNothing,
    (b.map fun (_, v) => match v with
      | .list items => items.length
      | _ => 0).sum⟩

end DeckMerge.Deck
