import DeckMerge.Report
import DeckMerge.Text.Letter
import DeckMerge.Value

/-!
Records of candidates: a name, the jobs held and the studies made, in the order received. All fields
are texts for display and none is interpreted.
-/

namespace DeckMerge.Candidate

structure Job where
  title : Text
  company : Text
  dates : Text
deriving DecidableEq

structure Study where
  degree : Text
  institution : Text
  dates : Text
deriving DecidableEq

structure Record where
  name : Text
  jobs : List Job
  studies : List Study
deriving DecidableEq

/-- The text of the first of these fields that is neither missing nor null, or else none. -/
def textField (fields : List (Key × Value)) (names : List Text) : Text :=
  match names.findSome? fun name => (Fields.get? fields name).filter (!·.isNull) with
  | some v => v.display
  | none => []

/-- The entries of a sequence; nulls are dropped. What counts as nothing has no entries, a mapping has
its keys, and a text its characters. -/
def entries : Value → Except Fault (List Value)
  | .list items => .ok (items.filter (!·.isNull))
  | .mapping fields => .ok ((fields.filter (·.1 ≠ .null)).map fun (k, _) => .text k.shown)
  | .text s => .ok (s.map fun c => .text [c])
  | v => if v.isNothing then .ok [] else .error .wrongKind

def entryFields : Value → Except Fault (List (Key × Value))
  | .mapping fields => .ok fields
  | _ => .error .notMapping

namespace Job

def ofFields (fields : List (Key × Value)) : Job :=
  ⟨textField fields ["jobTitle", "job_title"], textField fields ["company"],
    textField fields ["dates"]⟩

def toFields (j : Job) : List (Key × Value) :=
  [("jobTitle", .text j.title), ("company", .text j.company), ("dates", .text j.dates)]

/-- Company and title, then the dates when there are any. -/
def line (j : Job) : Text :=
  j.company ++ " - " ++ j.title ++ (if j.dates = [] then [] else ' ' :: j.dates)

end Job

namespace Study

def ofFields (fields : List (Key × Value)) : Study :=
  ⟨textField fields ["degree"], textField fields ["institution"], textField fields ["dates"]⟩

def toFields (s : Study) : List (Key × Value) :=
  [("degree", .text s.degree), ("institution", .text s.institution), ("dates", .text s.dates)]

def lines (s : Study) : List Text :=
  [s.institution ++ (if s.dates = [] then [] else ' ' :: s.dates), s.degree]

end Study

namespace Record

/-- The jobs of a record's fields. The first spelling counts wherever it is present. -/
def jobsOf (fields : List (Key × Value)) : Value :=
  ((Fields.get? fields "workHistory").orElse fun _ => Fields.get? fields "work_history").getD .null

def ofFields (fields : List (Key × Value)) : Except Fault Record := do
  let jobs ← (← entries (jobsOf fields)).mapM entryFields
  let studies ← (← entries ((Fields.get? fields "education").getD .null)).mapM entryFields
  return ⟨textField fields ["name"], jobs.map Job.ofFields, studies.map Study.ofFields⟩

def ofValue (v : Value) : Except Fault Record := do ofFields (← entryFields v)

def toValue (r : Record) : Value :=
  .mapping [("name", .text r.name), ("workHistory", .list (r.jobs.map (.mapping ·.toFields))),
    ("education", .list (r.studies.map (.mapping ·.toFields)))]

/-- The record without the jobs whose title holds the keyword, whatever their case. -/
def withoutRoles (r : Record) (keyword : Text) : Record :=
  { r with jobs := r.jobs.filter fun j => !(Text.lower j.title).holds (Text.lower keyword) }

end Record

/-- The records of a document: a list, or a mapping with a list of candidates. -/
def records (v : Value) : Except Failure (List Record) :=
  let v := match v with
    | .mapping fields => (Fields.get? fields "candidates").getD .null
    | v => v
  match v with
  | .list items => (items.mapM Record.ofValue).mapError .fault
  | _ => .error (.refusal .noCandidates)

end DeckMerge.Candidate
