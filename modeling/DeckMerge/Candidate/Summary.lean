import DeckMerge.Candidate.Record

/-!
The summary of candidates in Markdown, for copying by hand.
-/

namespace DeckMerge.Candidate

/-- A document that no record was made of: its number, from 1, and why. -/
structure Failed where
  index : Int
  reason : Text
deriving DecidableEq

namespace Summary

def bullets (none : Text) : List Text → Text
  | [] => "- " ++ none ++ "\n"
  | items => items.flatMap fun item => "- " ++ item ++ "\n"

def ofRecord (cap : Option Int) (number : Nat) (r : Record) : Text :=
  let jobs := match cap with
    | some n => Text.cutAt r.jobs n
    | none => r.jobs
  "## " ++ Text.ofNat number ++ ". " ++ Text.upper r.name ++ "\n\n### Work History\n"
    ++ bullets "No work history" (jobs.map Job.line)
    ++ "\n### Education\n"
    ++ bullets "No education"
        (r.studies.map fun s => Text.joinWith " | " (s.lines.filter (· ≠ [])))
    ++ "\n"

def ofFailures : List Failed → Text
  | [] => []
  | fs =>
    let line (f : Failed) : Text := "- CV #" ++ Text.ofInt f.index ++ ": " ++ f.reason ++ "\n"
    "## Processing Failures\n\nThe following CVs could not be processed and were skipped.\n\n"
      ++ fs.flatMap line

end Summary

def summaryTitle : Text := "Candidate Longlist"

/-- How many jobs are usually shown. -/
def summaryCap : Int := 5

/-- The heading, the records with at most `cap` jobs each, and the failures. -/
def summary (title : Text) (cap : Option Int) (rs : List Record) (fs : List Failed) : Text :=
  "# " ++ title ++ "\n\n"
    ++ (rs.zipIdx 1).flatMap (fun (r, n) => Summary.ofRecord cap n r)
    ++ Summary.ofFailures fs

end DeckMerge.Candidate
