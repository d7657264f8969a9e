import DeckMerge.Deck.Rendering
import DeckMerge.EventLog
import DeckMerge.Package.File

/-!
Delivering a deck: the template is read from a file, rendered, and handed to a receiver or written to a
file. Each delivery logs one event. Reports become part of the result; faults are let through.
-/

namespace DeckMerge.Deck

/-- Who takes the octets of a deck: nobody but a file, or a receiver that may fail with some words. -/
inductive Receiver
  | file
  | accepting
  | failing (words : Text)
deriving DecidableEq

structure Order where
  template : Path
  records : List Candidate.Record
  config : Config
  /-- Where the deck goes if there is no receiver; a folder of decks has one by default. -/
  output : Option Path
  receiver : Receiver
  /-- How the deck is called in events; by default as its file. -/
  deckName : Option Text

def deckFolder : Path := .ofText "outs/decks"

def logFolder : Path := .ofText "outs/logs/render"

def eventFile : Path := .ofText "outs/logs/deck_pipeline_events.log"

def logEvent (files : FileTree) (e : Event) : Except Fault FileTree :=
  let content := (files.files.lookup eventFile).getD []
  files.write eventFile (content ++ Text.utf8 (EventLog.append [] e))

namespace Order

def outputPath (o : Order) : Path := o.output.getD (deckFolder.join (.ofText o.config.fileName))

def name (o : Order) : Text :=
  match o.deckName with
  | none | some [] => (o.output.getD (.ofText o.config.fileName)).stem
  | some name => name

end Order

/-- What a delivery does that others see. -/
inductive Deed
  /-- A receiver was called with the octets and took them. -/
  | taken (bytes : Bytes)
  /-- A receiver was called with the octets and failed. -/
  | refused (bytes : Bytes)
  | written (p : Path) (bytes : Bytes)
  | logged (e : Event)

structure Delivery where
  result : Except Report Rendering
  /-- The file that was written. -/
  output : Option Path
  /-- The files afterwards, with the event in the file of events. -/
  files : FileTree
  /-- What was done, in order. -/
  deeds : List Deed

/-- What the one who ordered a deck is told. -/
structure Receipt where
  success : Bool
  output : Option Path
  error : Option Text
  pages : Nat
  rendered : Nat
  truncated : Nat
  fallbacks : Nat
  residuals : Nat
  written : List Text
  size : Nat

def Receipt.failed (error : Text) : Receipt := ⟨false, none, some error, 0, 0, 0, 0, 0, [], 0⟩

namespace Delivery

def receipt (d : Delivery) : Receipt :=
  match d.result with
  | .ok r => ⟨true, d.output, none, r.pages, r.rendered, r.truncated, r.fallbacks, r.residuals, r.written,
    r.bytes.length⟩
  | .error r => .failed r.text

/-- The octets that receivers took. -/
def received (d : Delivery) : List Bytes :=
  d.deeds.filterMap fun deed => match deed with
    | .taken bytes => some bytes
    | _ => none

def events (d : Delivery) : List Event :=
  d.deeds.filterMap fun deed => match deed with
    | .logged e => some e
    | _ => none

end Delivery

namespace Order

def source : Text := "templating"

def render (o : Order) (files : FileTree) : Except Failure Rendering := do
  let package ← Package.openFile files o.template
  let template ← (Template.load o.config package).mapError .report
  (template.render o.records).result

/-- Hands over the octets: what was done for it, and the files after that with the one that was written. -/
def handOver (o : Order) (files : FileTree) (bytes : Bytes) :
    List Deed × Except Report (FileTree × Option Path) :=
  match o.receiver with
  | .accepting => ([.taken bytes], .ok (files, none))
  | .failing words => ([.refused bytes],
      .error ((Report.plain .serialization "Output sink failed").because .fileFailure words))
  | .file =>
    match Package.saveBytes files o.outputPath bytes with
    | .ok files => ([.written o.outputPath bytes], .ok (files, some o.outputPath))
    | .error r => ([], .error r)

def completed (o : Order) (time : Text) (output : Option Path) (r : Rendering) : Event :=
  ⟨time, "render_completed", o.name, source,
    [("time_s", .int 0),
     ("output_path", match output with | some p => .text p.text | none => .null),
     ("pages", .int r.pages), ("records_rendered", .int r.rendered),
     ("records_truncated", .int r.truncated), ("injection_fallbacks", .int r.fallbacks)]⟩

def failed (o : Order) (time : Text) (r : Report) : Event :=
  ⟨time, "render_failed", o.name, source, [("time_s", .int 0), ("error", .text r.text)]⟩

/-- Ends a delivery with its event. -/
def conclude (files : FileTree) (deeds : List Deed) (e : Event) (result : Except Report Rendering)
    (output : Option Path) : Except Fault Delivery := do
  return ⟨result, output, ← logEvent files e, deeds ++ [.logged e]⟩

def deliver (o : Order) (time : Text) (files : FileTree) : Except Fault Delivery := do
  let files ← files.makeFolder logFolder
  match o.render files with
  | .error (.report r) => conclude files [] (o.failed time r) (.error r) none
  | .error (.fault f) => .error f
  | .error (.refusal _) => .error .badValue
  | .ok rendering =>
    match o.handOver files rendering.bytes with
    | (deeds, .error r) => conclude files deeds (o.failed time r) (.error r) none
    | (deeds, .ok (files, output)) =>
      conclude files deeds (o.completed time output rendering) (.ok rendering) output

end Order

end DeckMerge.Deck
