import DeckMerge.Deck.Settings
import DeckMerge.Text.Digit

/-!
Arguments of the command line. Options have a long name and perhaps a letter, and take the next argument
as their value unless one is attached; two dashes end them.
-/

namespace DeckMerge.CommandLine

structure OptionName where
  long : Text
  letter : Option Char

/-- Options with their values in the order they are given, other words, and whether help is wanted. -/
structure Given where
  options : List (Text × Text)
  words : List Text
  wantsHelp : Bool

namespace Given

def none : Given := ⟨[], [], false⟩

def withOption (g : Given) (name value : Text) : Given := { g with options := (name, value) :: g.options }

def withWord (g : Given) (word : Text) : Given := { g with words := word :: g.words }

def all (g : Given) (name : Text) : List Text :=
  g.options.filterMap fun (n, v) => if n = name then some v else Option.none

def last? (g : Given) (name : Text) : Option Text := (g.all name).getLast?

end Given

def isOption (arg : Text) : Bool := arg.head? = some '-' && 1 < arg.length

def helpName : Text := "--help"

/-- An option as it is written: its name and what is attached to it. Letters attach what follows. -/
def readOption (names : List OptionName) (arg : Text) : Option (Text × Option Text) := do
  let (name, attached) := match Text.breakOn? "=" arg with
    | some (name, value) => (name, some value)
    | none => (arg, none)
  match names.find? (·.long = name) with
  | some o => return (o.long, attached)
  | none =>
    if name = helpName then
      if attached.isNone then return (helpName, none) else none
    else if Text.startsWith arg "--" then none
    else match arg with
      | _ :: c :: rest => do
        let o ← names.find? (·.letter = some c)
        return (o.long, if rest = [] then none else some rest)
      | _ => none

/-- Reads arguments; nothing for an option that is not known or lacks its value. -/
def readArguments (names : List OptionName) : List Text → Option Given
  | [] => some .none
  | arg :: args =>
    if arg = "--".toList then some { Given.none with words := args }
    else if !isOption arg then (readArguments names args).map (·.withWord arg)
    else match readOption names arg, args with
      | none, _ => none
      | some (name, some value), args => (readArguments names args).map (·.withOption name value)
      | some (name, none), args =>
        if name = helpName then (readArguments names args).map ({ · with wantsHelp := true })
        else match args with
          | [] => none
          | value :: args => (readArguments names args).map (·.withOption name value)

/-! ### Commands -/

structure RenderOptions where
  records : Text
  template : Option Text
  output : Option Text
  presets : List Text
  /-- Settings that are given explicitly. -/
  settings : List (Key × Value)

inductive Command
  | help
  | render (o : RenderOptions)
  | summary (records : Text) (output : Option Text)
  | inspect (template : Option Text)

/-- Options that give a number of at least some size, and the settings they are for. -/
def numberOptions : List (OptionName × Text × Int) :=
  [(⟨"--page-capacity", some 'k'⟩, "page_capacity", 1), (⟨"--max-records", some 'm'⟩, "max_records", 0),
   (⟨"--work-history-cap", none⟩, "work_history_cap", 0), (⟨"--workers", some 'w'⟩, "workers", 1)]

def outputOption : OptionName := ⟨"--output", some 'o'⟩

def templateOption : OptionName := ⟨"--template", some 't'⟩

def presetOption : OptionName := ⟨"--preset", some 'p'⟩

def numberSettings (g : Given) : List (OptionName × Text × Int) → Option (List (Key × Value))
  | [] => some []
  | (o, setting, least) :: more => do
    let rest ← numberSettings g more
    match g.last? o.long with
    | none => return rest
    | some s =>
      let n ← Text.readInt? s
      if n < least then none else return (.text setting, .int n) :: rest

def Command.ofRender (args : List Text) : Option Command := do
  let g ← readArguments ([templateOption, outputOption, presetOption] ++ numberOptions.map (·.1)) args
  if g.wantsHelp then return .help
  match g.words with
  | [records] =>
    return .render ⟨records, g.last? templateOption.long, g.last? outputOption.long,
      g.all presetOption.long, ← numberSettings g numberOptions⟩
  | _ => none

def Command.ofSummary (args : List Text) : Option Command := do
  let g ← readArguments [outputOption] args
  if g.wantsHelp then return .help
  match g.words with
  | [records] => return .summary records (g.last? outputOption.long)
  | _ => none

def Command.ofInspect (args : List Text) : Option Command := do
  let g ← readArguments [] args
  if g.wantsHelp then return .help
  match g.words with
  | [] => return .inspect none
  | [template] => return .inspect (some template)
  | _ => none

def Command.named (name : Text) (args : List Text) : Option Command :=
  if name = "render".toList then ofRender args
  else if name = "summary".toList then ofSummary args
  else if name = "inspect".toList then ofInspect args
  else none

def Command.ofArguments (wantsHelp : Bool) : List Text → Option Command
  | [] => some .help
  | arg :: args =>
    if arg = "--".toList then
      match args with
      | [] => some .help
      | name :: args => if wantsHelp then some .help else named name args
    else if arg = helpName then ofArguments true args
    else if isOption arg then none
    else if wantsHelp then some .help
    else named arg args

def usage : Text :=
  "Commands:\n"
    ++ "  render RECORDS [-t TEMPLATE] [-o OUTPUT] [-p PRESET]... [-k CAPACITY] [-m MAX]\n"
    ++ "    [--work-history-cap CAP] [-w WORKERS]   fill a template with candidates\n"
    ++ "  summary RECORDS [-o OUTPUT]               candidates in Markdown\n"
    ++ "  inspect [TEMPLATE]                        slides and their placeholders\n"

end DeckMerge.CommandLine
