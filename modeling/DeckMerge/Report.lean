import DeckMerge.Text.Utf8
import DeckMerge.Value

/-!
Failures. A report tells what went wrong with a deck, in which part, and why. A refusal names the
value that was not accepted. A fault has no words of its own.
-/

namespace DeckMerge

inductive Fault
  | notMapping
  | wrongKind
  | badValue
  | badContainer
  | corruptData
  | encrypted
  | unsupported
  | endOfData
  | notUtf8
  | malformedMarkup
  | malformedDocument
  | badReference
  | badAssertion
  | crashed
  | fileFailure
  | fileMissing
  | fileExists
  | isFolder
  | notFolder
deriving DecidableEq

inductive Report.Kind
  | deck
  | templateLoad
  | binding
  | injection
  | partValidation
  | noContent
  | serialization
deriving DecidableEq

structure Report where
  kind : Report.Kind
  message : Text
  part : Option Text
  /-- What was caught underneath, and its own words. -/
  cause : Option (Fault × Text)
  token : Option Text
deriving DecidableEq

namespace Report

def plain (kind : Kind) (message : Text) : Report := ⟨kind, message, none, none, none⟩

def inPart (r : Report) (name : Text) : Report := { r with part := some name }

def because (r : Report) (fault : Fault) (words : Text) : Report :=
  { r with cause := some (fault, words) }

/-- The message, the part unless it is empty, and the words of the cause, a line each. -/
def text (r : Report) : Text :=
  r.message
    ++ (match r.part with
      | none | some [] => []
      | some name => "\nPart: " ++ name)
    ++ (match r.cause with
      | none => []
      | some (_, words) => "\nOriginal error: " ++ words)

/-- A stretch of markup, cut off after 200 characters. -/
def snippetText (s : Text) : Text := if 200 < s.length then s.take 200 ++ "..." else s

/-- A value that could not be placed with its formatting: the placeholder and the markup around it
are part of the message, unless they are empty. -/
def ofInjection (message : Text) (token snippet part : Option Text) : Report :=
  let message := match token with
    | none | some [] => message
    | some t => message ++ " (placeholder: " ++ t ++ ")"
  let message := match snippet with
    | none | some [] => message
    | some s => message ++ "\nMarkup:\n" ++ snippetText s
  ⟨.injection, message, part, none, token⟩

end Report

/-- A value that was not accepted. -/
inductive Refusal
  | notASlide (name : Text)
  | noCandidates
  | unknownPreset (name : Text) (known : List Text)
  | unknownFields (names : List Key)
  | outOfRange (field : Text) (least : Int) (value : Text)
  | notUtf8 (flaw : Text.Utf8Flaw)
deriving DecidableEq

def quotedList (ts : List Text) : Text :=
  "[" ++ Text.joinWith ", " (ts.map Text.quoted) ++ "]"

def flawText (f : Text.Utf8Flaw) : Text :=
  let place : Text := match f.octets with
    | [b] => " byte 0x" ++ Text.hex 2 b.toNat ++ " in position " ++ Text.ofNat f.position
    | bs => " bytes in position " ++ Text.ofNat f.position ++ "-"
      ++ Text.ofNat (f.position + bs.length - 1)
  let cause : Text := match f.cause with
    | .start => "invalid start byte"
    | .continuation => "invalid continuation byte"
    | .ending => "unexpected end of data"
  "'utf-8' codec can't decode" ++ place ++ ": " ++ cause

def Refusal.message : Refusal → Text
  | .notASlide name => "Not a slide part: " ++ name
  | .noCandidates => "Records file must contain a list of candidates or a 'candidates' list"
  | .unknownPreset name known =>
    "Preset '" ++ name ++ "' not found. Available presets: " ++ quotedList known
  | .unknownFields names =>
    "Unknown deck config keys: [" ++ Text.joinWith ", " (names.map Key.shown) ++ "]"
  | .outOfRange field least value =>
    let bound : Text := if least = 0 then "non-negative" else "at least " ++ Text.ofInt least
    field ++ " must be " ++ bound ++ ", got " ++ value
  | .notUtf8 flaw => flawText flaw

inductive Failure
  | report (r : Report)
  | refusal (r : Refusal)
  | fault (f : Fault)
deriving DecidableEq

end DeckMerge
