import DeckMerge.Document.Reference
import DeckMerge.Yaml.Node

/-!
Documents of settings and records. A document is a mapping or a list; one that is a single text is read
once more, and a single word becomes a key without a value.
-/

namespace DeckMerge.Document

def ofText (s : Text) : Except Fault Value := do
  match ← Yaml.read s with
  | .null => return .mapping []
  | .text t => return .mapping [(.text t, .null)]
  | .list items => return .list items
  | .mapping fields => return .mapping fields
  | _ => .error .badAssertion

/-- A document as it stands, before references are followed. -/
def readRaw (s : Text) : Except Fault Value := do
  match ← Yaml.read (Text.withLineFeeds s) with
  | .null => return .mapping []
  | .text t => ofText t
  | .list items => return .list items
  | .mapping fields => return .mapping fields
  | _ => .error .fileFailure

def read (s : Text) : Except Fault Value := do resolve (← readRaw s)

/-! ### Layers -/

def isMissing : Value → Bool
  | .text s => s = missing
  | _ => false

mutual

/-- Fields with those of a later layer put over them: mappings go over mappings field by field, and
what is yet to be given changes nothing. -/
def mergeFields (fields : List (Key × Value)) : List (Key × Value) → Except Fault (List (Key × Value))
  | [] => .ok fields
  | (k, v) :: more => do
    let v ← match Fields.find? fields k with
      | none => pure v
      | some w => mergeValue w v
    mergeFields (Fields.set fields k v) more

def mergeValue (w : Value) : Value → Except Fault Value
  | .mapping more => match w with
    | .mapping fields => do return .mapping (← mergeFields fields more)
    | .list _ => .error .wrongKind
    | _ => .ok (.mapping more)
  | .list items => match w with
    | .mapping _ => .error .wrongKind
    | _ => .ok (.list items)
  | v => .ok (if isMissing v then w else v)

end

end DeckMerge.Document
