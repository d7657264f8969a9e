import DeckMerge.Text.Quoted
import DeckMerge.Number.Shortest

/-!
Values of documents: what records, settings and events are read from and written as.
-/

namespace DeckMerge

/-- What names a field of a mapping. -/
inductive Key
  | text (s : Text)
  | int (n : Int)
  | real (x : Binary64)
  | bool (b : Bool)
  | null
deriving DecidableEq

inductive Value
  | null
  | bool (b : Bool)
  | int (n : Int)
  | real (x : Binary64)
  | text (s : Text)
  | list (items : List Value)
  | mapping (fields : List (Key × Value))

instance : Inhabited Value := ⟨.null⟩

instance : Coe String Key := ⟨fun s => .text s.toList⟩

def Key.shown : Key → Text
  | .text s => s.quoted
  | .int n => Text.ofInt n
  | .real x => x.toText
  | .bool true => "True"
  | .bool false => "False"
  | .null => "None"

/-- What counts in a key: numbers that are equal are one key. -/
def Key.identity : Key → Option Text ⊕ (Int × Rat)
  | .text s => .inl (some s)
  | .int n => .inr (0, mkRat n 1)
  | .real x => .inr x.rank
  | .bool b => .inr (0, mkRat (if b then 1 else 0) 1)
  | .null => .inl none

def Fields.get? (fields : List (Key × Value)) (name : Text) : Option Value :=
  fields.lookup (.text name)

/-- The fields with one set: a name that is there keeps its place. -/
def Fields.put (fields : List (Key × Value)) (name : Key) (v : Value) : List (Key × Value) :=
  match fields with
  | [] => [(name, v)]
  | (k, w) :: fields => if k = name then (k, v) :: fields else (k, w) :: Fields.put fields name v

/-- The value of the field that a key names. -/
def Fields.find? (fields : List (Key × Value)) (k : Key) : Option Value :=
  (List.find? (fun f => f.1.identity = k.identity) fields).map (·.2)

/-- Sets the field that a key names; a key that is there keeps its place and its form. -/
def Fields.set (fields : List (Key × Value)) (k : Key) (v : Value) : List (Key × Value) :=
  match fields with
  | [] => [(k, v)]
  | (k', w) :: fields =>
    if k'.identity = k.identity then (k', v) :: fields else (k', w) :: Fields.set fields k v

namespace Value

mutual

/-- The written form of a value inside a list or mapping, and of all values but texts elsewhere. -/
def shown : Value → Text
  | .null => "None"
  | .bool true => "True"
  | .bool false => "False"
  | .int n => Text.ofInt n
  | .real x => x.toText
  | .text s => s.quoted
  | .list items => "[" ++ shownItems items ++ "]"
  | .mapping fields => "\x7b" ++ shownFields fields ++ "\x7d"

def shownItems : List Value → Text
  | [] => []
  | [v] => v.shown
  | v :: vs => v.shown ++ ", " ++ shownItems vs

def shownFields : List (Key × Value) → Text
  | [] => []
  | [(k, v)] => k.shown ++ ": " ++ v.shown
  | (k, v) :: fields => k.shown ++ ": " ++ v.shown ++ ", " ++ shownFields fields

end

/-- The text of a value: a text is its own. -/
def display : Value → Text
  | .text s => s
  | v => v.shown

/-- Null, false, zero and what is empty. -/
def isNothing : Value → Bool
  | .null => true
  | .bool b => !b
  | .int n => n == 0
  | .real x => x.isZero
  | .text s => s.isEmpty
  | .list items => items.isEmpty
  | .mapping fields => fields.isEmpty

def isNull : Value → Bool
  | .null => true
  | _ => false

end Value

end DeckMerge
