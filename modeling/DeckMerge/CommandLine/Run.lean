import DeckMerge.Candidate.Summary
import DeckMerge.CommandLine.Arguments
import DeckMerge.Deck.Delivery
import DeckMerge.Deck.Presets

/-!
What commands do: the lines they print, the files they leave, and how they end.
-/

namespace DeckMerge.CommandLine

structure Line where
  isError : Bool
  text : Text

inductive Ending
  | exit (code : Nat)
  | crash (f : Fault)
deriving DecidableEq

structure Session where
  lines : List Line
  files : FileTree
  ending : Ending

inductive Outcome
  | help
  | misuse
  | ran (s : Session)

def out (s : Text) : Line := ⟨false, s⟩

def err (s : Text) : Line := ⟨true, s⟩

/-- The way from the folder one is in, with steps up taken; nothing if it leaves that folder. -/
def walk : List Text → List Text → Option (List Text)
  | done, [] => some done
  | done, name :: names =>
    if name = "..".toList then
      if done = [] then none else walk done.dropLast names
    else walk (done ++ [name]) names

/-- A path as it is shown: the shortest way to it from the folder one is in. -/
def shownPath (p : Path) : Text :=
  if p.isAbsolute then p.text
  else match walk [] p.names with
    | some names => (⟨false, names⟩ : Path).text
    | none => p.text

def usualTemplate : Text := "template_with_placeholders.pptx"

/-- Words of a failure that a command reports itself: what was refused, and faults in values. Other
failures end it. -/
def reported : Failure → Except Fault Text
  | .refusal r => .ok r.message
  | .report r => .ok r.text
  | .fault f =>
    match f with
    | .badValue | .badReference => .ok []
    | f => .error f

def Session.failed (files : FileTree) (e : Failure) : Session :=
  match reported e with
  | .ok words => ⟨[err ("Error: " ++ words ++ "\n")], files, .exit 1⟩
  | .error f => ⟨[], files, .crash f⟩

def loadRecords (files : FileTree) (p : Path) : Except Failure (List Candidate.Record) := do
  let bs ← (files.read p).mapError .fault
  match Text.utf8Flaw? bs with
  | some flaw => .error (.refusal (.notUtf8 flaw))
  | none => Candidate.records (← (Document.read ((Text.ofUtf8? bs).getD [])).mapError .fault)

/-! ### Rendering -/

def configOf (o : RenderOptions) : Except Failure Deck.Config := do
  let s ← Deck.Settings.resolve (.ok Deck.Presets.builtIn) o.presets o.settings
  (Deck.Config.ofSettings s).mapError .fault

def deliveryLines (d : Deck.Delivery) : List Line :=
  match d.result with
  | .ok r =>
    [out "\n✓ Deck generation succeeded", out ("  Pages: " ++ Text.ofNat r.pages),
      out ("  Candidates: " ++ Text.ofNat r.rendered)]
    ++ (if r.truncated = 0 then [] else
      [out ("  Not rendered (over --max-records): " ++ Text.ofNat r.truncated)])
    ++ (if r.fallbacks = 0 then [] else
      [out ("  Values without run formatting: " ++ Text.ofNat r.fallbacks)])
    ++ [out ("  Deck: " ++ (d.output.map shownPath).getD [])]
  | .error r => [err "\n✗ Deck generation failed", err ("  Error: " ++ r.text)]

def render (time : Text) (files : FileTree) (o : RenderOptions) : Session :=
  let input : Except Failure (Deck.Config × List Candidate.Record) := do
    return (← configOf o, ← loadRecords files (.ofText o.records))
  match input with
  | .error e => .failed files e
  | .ok (config, records) =>
    let template := Path.ofText (o.template.getD usualTemplate)
    let start := out ("\nRendering " ++ Text.ofNat records.length ++ " candidates into "
      ++ shownPath template ++ "\n")
    let order : Deck.Order := ⟨template, records, config, o.output.map .ofText, .file, none⟩
    match order.deliver time files with
    | .error f => ⟨[start], files, .crash f⟩
    | .ok d =>
      let code := match d.result with
        | .ok _ => 0
        | .error _ => 1
      ⟨start :: deliveryLines d ++ [out []], d.files, .exit code⟩

/-! ### Summaries -/

def summarize (files : FileTree) (records : Text) (output : Option Text) : Session :=
  match loadRecords files (.ofText records) with
  | .error e => .failed files e
  | .ok rs =>
    let s := Candidate.summary Candidate.summaryTitle (some Candidate.summaryCap) rs []
    match output.map Path.ofText with
    | none => ⟨[out s], files, .exit 0⟩
    | some p => match files.write p (Text.utf8 s) with
      | .ok files =>
        ⟨[out ("✓ Wrote " ++ Text.ofNat rs.length ++ " candidates to " ++ shownPath p)], files, .exit 0⟩
      | .error f => ⟨[], files, .crash f⟩

/-! ### Inspection -/

def slideKeys (p : Package) : Except Report (List (Text × List Text)) :=
  p.slides.mapM fun name => do return (name, Placeholder.keys (Run.joinRuns (← p.readText name)).1)

def slideLines : Text × List Text → List Line
  | (name, []) => [out ("  • " ++ name)]
  | (name, keys) => [out ("  ✓ " ++ name), out ("      " ++ Text.joinWith ", " keys)]

def inspect (files : FileTree) (template : Text) : Session :=
  let path := Path.ofText template
  let slides : Except Failure (List (Text × List Text)) := do
    (slideKeys (← Package.openFile files path)).mapError .report
  match slides with
  | .error e => .failed files e
  | .ok slides =>
    let templated := slides.countP fun s => s.2 ≠ []
    let head := out ("\nSlides in " ++ shownPath path ++ " (" ++ Text.ofNat templated ++ "/"
      ++ Text.ofNat slides.length ++ " templated):")
    ⟨head :: slides.flatMap slideLines ++ [out []], files, .exit (if templated = 0 then 1 else 0)⟩

/-! ### Commands -/

/-- Runs a command at a moment. Files of records have to be there. -/
def Command.run (time : Text) (files : FileTree) : Command → Outcome
  | .help => .help
  | .render o => if files.isFile (.ofText o.records) then .ran (CommandLine.render time files o) else .misuse
  | .summary records output =>
    if files.isFile (.ofText records) then .ran (summarize files records output) else .misuse
  | .inspect template => .ran (CommandLine.inspect files (template.getD usualTemplate))

def Command.paths : Command → List Path
  | .help => []
  | .render o =>
    [.ofText o.records, .ofText (o.template.getD usualTemplate), Deck.deckFolder, Deck.eventFile]
      ++ o.output.toList.map .ofText
  | .summary records output => .ofText records :: output.toList.map .ofText
  | .inspect template => [.ofText (template.getD usualTemplate)]

def pathsOf (args : List Text) : List Path :=
  match Command.ofArguments false args with
  | some c => c.paths
  | none => []

def run (time : Text) (files : FileTree) (args : List Text) : Outcome :=
  match Command.ofArguments false args with
  | some c => c.run time files
  | none => .misuse

end DeckMerge.CommandLine
