import DeckMerge.Log
import DeckMerge.Markup.Line
import DeckMerge.Placeholder.Expansion
import DeckMerge.Run.Site

/-!
Writing values into the places of placeholders. A value of one line goes in place. A value of several
lines is written into copies of the run around the placeholder, one for each line; where there is no
such run it goes in place too, and a warning is noted.
-/

namespace DeckMerge.Run

inductive Mode
  | plain
  | runs
  | fallback
  | missing
deriving DecidableEq

structure Outcome where
  label : Text
  mode : Mode
  occurrences : Nat
  lineCount : Nat
  breaks : Nat
  dialect : Option Dialect
deriving DecidableEq

/-- The text with every occurrence of `token` replaced, and their number. An empty token occurs at
every place. -/
def substitute (token value s : Text) : Text × Nat :=
  if token = [] then (value ++ s.flatMap (· :: value), s.length + 1)
  else
    let pieces := Text.splitOn token s
    (Text.joinWith value pieces, pieces.length - 1)

/-- The site in the first dialect that has one, or the obstacles in each. -/
def siteAt (before after : Text) : List Dialect → Except (List Site.Obstacle) Site
  | [] => .error []
  | d :: ds =>
    match Site.locate d before after with
    | .ok site => .ok site
    | .error o =>
      match siteAt before after ds with
      | .ok site => .ok site
      | .error os => .error (o :: os)

/-- What is being written: the placeholder, the value, and how they are spoken of. -/
structure Task where
  token : Text
  value : Text
  label : Text
  part : Option Text

def surroundings (before token after : Text) : Text :=
  before.drop (before.length - 120) ++ token ++ after.take 120

def Task.warning (t : Task) (before after : Text) (os : List Site.Obstacle) : Note :=
  let message := Text.joinWith "; " (os.map Site.Obstacle.message)
  let report := Report.ofInjection message (some t.label)
    (some (surroundings before t.token after)) none
  let place : Text := match t.part with
    | none | some [] => []
    | some name => " in " ++ name
  .template .warning ("Formatting not preserved for " ++ t.label ++ place ++ ": " ++ report.message)

/-- Writes the lines at each occurrence in `rest`, after the text that is finished. The search goes on
behind the occurrence, so a value that quotes its own token is left alone. -/
def Task.writeLines (t : Task) (lines : List Text) (done : Text) (rest : Text) (o : Outcome)
    (notes : List Note) : Text × Outcome × List Note :=
  match Text.breakOn? t.token rest with
  | none => (done ++ rest, o, notes)
  | some (before, after) =>
    if after.length < rest.length then
      match siteAt (done ++ before) after Dialect.all with
      | .ok site =>
        t.writeLines lines (site.preceding ++ site.fill lines) after
          { o with
            mode := if o.mode = .fallback then .fallback else .runs
            occurrences := o.occurrences + 1
            breaks := o.breaks + (lines.length - 1)
            dialect := some site.dialect }
          notes
      | .error os =>
        t.writeLines lines (done ++ before ++ Markup.escape t.value) after
          { o with mode := .fallback, occurrences := o.occurrences + 1 }
          (notes ++ [t.warning (done ++ before) after os])
    else (done ++ rest, o, notes)
termination_by rest.length

def Outcome.notes (o : Outcome) : List Note :=
  match o.mode, o.dialect with
  | .runs, some d =>
    [.template .debug ("Split value into " ++ Text.ofNat o.lineCount ++ " " ++ d.name ++ " runs ("
      ++ Text.ofNat o.breaks ++ " breaks)")]
  | _, _ => []

def Task.run (t : Task) (s : Text) : Text × Outcome × List Note :=
  if Markup.hasBreak t.value then
    let lines := Markup.lines t.value
    let (s, o, notes) := t.writeLines lines [] s ⟨t.label, .missing, 0, lines.length, 0, none⟩ []
    (s, o, notes ++ o.notes)
  else
    let (s, n) := substitute t.token (Markup.escape t.value) s
    (s, ⟨t.label, if n = 0 then .missing else .plain, n, 1, 0, none⟩, [])

def inject (s token value : Text) (part label : Option Text) : Text × Outcome × List Note :=
  let label := match label with
    | none | some [] => token
    | some l => l
  Task.run ⟨token, value, label, part⟩ s

open Placeholder in
/-- Writes the values of slots, numbered from `index` on, into their marks. -/
def fillFrom (part : Option Text) (index : Nat) (s : Text) :
    List Slot → Text × List Outcome × List Note
  | [] => (s, [], [])
  | slot :: slots =>
    let label := if slot.key = [] then none else some (scalarText slot.key)
    let (s, o, notes) := inject s (slotText index) slot.value part label
    let (s, os, more) := fillFrom part (index + 1) s slots
    (s, o :: os, notes ++ more)

def fillSlots (part : Option Text) (s : Text) (slots : List Placeholder.Slot) :
    Text × List Outcome × List Note :=
  fillFrom part 0 s slots

end DeckMerge.Run
