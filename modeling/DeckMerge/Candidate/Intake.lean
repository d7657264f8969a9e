import DeckMerge.Candidate.Summary
import DeckMerge.EventLog
import DeckMerge.Log

/-!
Collecting records from the documents of a bundle. A document that no record can be made of is noted
and passed over; any other failure ends the run.
-/

namespace DeckMerge.Candidate

/-- What an extractor made of one document. -/
inductive Extraction
  | failed (reason : Text)
  | crashed
  | record (r : Record)
  | data (v : Value)

/-- Titles with these words are dropped unless another keyword is given. -/
def excludedRole : Text := "board member"

structure Collection where
  records : List Record
  failures : List Failed
deriving DecidableEq

namespace Collection

def total (c : Collection) : Nat := c.records.length + c.failures.length

def allFailed (c : Collection) : Bool := 0 < c.total && c.records.isEmpty

def notes (c : Collection) : List Note :=
  let size := Text.ofNat c.total
  let extracted : Text := "Extracted " ++ Text.ofNat c.records.length ++ " of " ++ size ++ " CVs"
  (if c.allFailed then .intake .error ("All " ++ size ++ " CVs failed to process")
    else if c.failures.isEmpty then .intake .success extracted
    else .intake .warning extracted)
    :: c.failures.map fun f => .intake .warning ("  CV #" ++ Text.ofInt f.index ++ ": " ++ f.reason)

end Collection

def failureNote (index : Nat) (reason : Text) : Note :=
  .intake .warning ("Failed to process CV #" ++ Text.ofNat index ++ ": " ++ reason)

/-- Why a document failed; an empty reason is put in words. -/
def reasonText (reason : Text) : Text :=
  if reason = [] then "Unknown extraction error." else reason

/-- The record without the excluded roles, and notes on them and on the record. -/
def retain (role : Text) (index : Nat) (r : Record) : Record × List Note :=
  let kept := if role = [] then r else r.withoutRoles role
  let dropped := r.jobs.length - kept.jobs.length
  let start : Text := "CV #" ++ Text.ofNat index ++ ": "
  let name : Text := if r.name = [] then "(unnamed)" else r.name
  (kept,
    (if dropped = 0 then [] else
      [.intake .debug (start ++ "dropped " ++ Text.ofNat dropped ++ " '" ++ role ++ "' roles")])
    ++ [.intake .debug (start ++ "extracted " ++ name)])

/-- Goes through the documents, of which the first has this number. -/
def collectFrom (role : Text) (index : Nat) :
    List Extraction → Except Fault (Collection × List Note)
  | [] => .ok (⟨[], []⟩, [])
  | .crashed :: _ => .error .crashed
  | .failed reason :: more => do
    let (c, notes) ← collectFrom role (index + 1) more
    return (⟨c.records, ⟨index, reasonText reason⟩ :: c.failures⟩, failureNote index reason :: notes)
  | .record r :: more => do
    let (r, first) := retain role index r
    let (c, notes) ← collectFrom role (index + 1) more
    return (⟨r :: c.records, c.failures⟩, first ++ notes)
  | .data v :: more => do
    let (r, first) := retain role index (← Record.ofValue v)
    let (c, notes) ← collectFrom role (index + 1) more
    return (⟨r :: c.records, c.failures⟩, first ++ notes)

def collect (role : Text) (xs : List Extraction) : Except Fault (Collection × List Note) := do
  let (c, notes) ← collectFrom role 1 xs
  return (c, notes ++ c.notes)

def Collection.event (c : Collection) (time bundle : Text) : Event where
  time := time
  type := if c.allFailed then "intake_failed" else "intake_completed"
  deck := bundle
  source := "intake"
  extra := [("total", .int c.total), ("extracted", .int c.records.length),
    ("failed", .list (c.failures.map fun f => .int f.index))]

/-- Collects a bundle; a finished run leaves one event. -/
def intake (time bundle : Text) (xs : List Extraction) :
    Except Fault (Collection × List Note × Event) := do
  let (c, notes) ← collect excludedRole xs
  return (c, .intake .info ("Starting intake of " ++ bundle) :: notes, c.event time bundle)

end DeckMerge.Candidate
