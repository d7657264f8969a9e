import DeckMerge.Placeholder.Tree
import DeckMerge.Report
import DeckMerge.Value

/-!
Expanding a text against a binding. Blocks are kept, repeated or dropped; a scalar that is bound to a
text becomes a numbered slot and its value is set aside, so no value is ever read as a placeholder.
Tokens that are left over are deleted.
-/

namespace DeckMerge.Placeholder

/-- What the keys of a page stand for. -/
abbrev Binding := List (Text × Value)

/-- Where keys are looked up: in the binding, or in an item of a loop alone. -/
inductive Scope
  | page
  | item (v : Value)

/-- An item that is null leaves the keys to the binding. -/
def Scope.ofItem : Value → Scope
  | .null => .page
  | v => .item v

def Scope.lookup (binding : Binding) (key : Text) : Scope → Except Fault (Option Value)
  | .page => .ok (binding.lookup key)
  | .item (.mapping fields) => .ok (Fields.get? fields key)
  | .item _ => .error .notMapping

/-- Whether a conditional on this value keeps its body. -/
def isSet : Option Value → Except Fault Bool
  | none | some .null => .ok false
  | some (.text s) => .ok !s.isEmpty
  | some (.list items) => .ok !items.isEmpty
  | some (.mapping fields) => .ok !fields.isEmpty
  | some _ => .error .wrongKind

/-- The scopes in which a loop on this value repeats its body, in order. -/
def repetitions (scope : Scope) : Option Value → Except Fault (List Scope)
  | none => .ok []
  | some (.text s) => .ok (if s.isEmpty then [] else [scope])
  | some (.list items) => .ok (items.map .ofItem)
  | some (.mapping fields) => .ok (fields.map fun (k, _) => match k with
    | .text s => .item (.text s)
    | .int n => .item (.int n)
    | .real x => .item (.real x)
    | .bool b => .item (.bool b)
    | .null => .page)
  | some v => if v.isNothing then .ok [] else .error .wrongKind

inductive Piece
  | text (s : Text)
  | value (key : Text) (v : Text)
deriving DecidableEq

mutual

def expandNode (binding : Binding) (scope : Scope) : Node → Except Fault (List Piece)
  | .literal s => .ok [.text s]
  | .stray m => .ok [.text m.token.text]
  | .scalar key => do
    match ← scope.lookup binding key with
    | some (.text v) => return [.value key v]
    | _ => return [.text (scalarText key)]
  | .block opener children _ => do
    let v ← scope.lookup binding opener.token.key
    if opener.token.kind = .loopOpen then
      let scopes ← repetitions scope v
      return (← scopes.mapM fun scope => expandNodes binding scope children).flatten
    else if ← isSet v then expandNodes binding scope children
    else return []

def expandNodes (binding : Binding) (scope : Scope) : List Node → Except Fault (List Piece)
  | [] => .ok []
  | n :: ns => do
    let pieces ← expandNode binding scope n
    return pieces ++ (← expandNodes binding scope ns)

end

/-- The mark of a slot. A document cannot hold NUL, so it meets no other text. -/
def slotText (index : Nat) : Text := '\x00' :: Text.ofNat index ++ ['\x00']

def slotted (index : Nat) : List Piece → Text
  | [] => []
  | .text s :: pieces => s ++ slotted index pieces
  | .value _ _ :: pieces => slotText index ++ slotted (index + 1) pieces

structure Slot where
  key : Text
  value : Text
deriving DecidableEq

def Piece.slot? : Piece → Option Slot
  | .text _ => none
  | .value key v => some ⟨key, v⟩

structure Expansion where
  text : Text
  slots : List Slot
  /-- How many tokens were left over and deleted. -/
  residuals : Nat
deriving DecidableEq

def expand (s : Text) (binding : Binding) : Except Fault Expansion := do
  let pieces ← expandNodes binding .page (parse s)
  let (text, residuals) := strip (slotted 0 pieces)
  return ⟨text, pieces.filterMap Piece.slot?, residuals⟩

end DeckMerge.Placeholder
