import DeckMerge.Deck.Settings
import DeckMerge.Document.Reading

/-!
Presets: named settings, in categories. Settings are layered: defaults, then presets in order, then
what is given explicitly.
-/

namespace DeckMerge.Deck

-- The orders of the core library, whatever else is in scope.
attribute [local instance (high)] List.instLE List.decidableLE Rat.instLE

/-- Presets under their full names, which hold the category. -/
abbrev Presets := List (Text × Value)

namespace Presets

/-- Sets a preset; a name that is there keeps its place. -/
def put (ps : Presets) (name : Text) (v : Value) : Presets :=
  match ps with
  | [] => [(name, v)]
  | (n, w) :: ps => if n = name then (n, v) :: ps else (n, w) :: Presets.put ps name v

def keyText : Key → Text
  | .text s => s
  | k => k.shown

def ofDocument : Value → Except Fault Presets
  | .mapping categories => do
    let named ← categories.mapM fun (category, v) => match v with
      | .mapping presets => .ok (presets.map fun (name, v) => (keyText category ++ '_' :: keyText name, v))
      | _ => .error .notMapping
    return named.flatten.foldl (fun ps (name, v) => put ps name v) []
  | _ => .error .notMapping

def ofText (s : Text) : Except Fault Presets := do ofDocument (← Document.read s)

def builtIn : Presets :=
  [("layout_standard", .mapping [("page_capacity", .int 4), ("max_records", .int 20)]),
   ("layout_compact", .mapping [("page_capacity", .int 6), ("max_records", .int 60)]),
   ("layout_single", .mapping [("page_capacity", .int 1), ("max_records", .int 20)]),
   ("history_short", .mapping [("work_history_cap", .int 3), ("education_cap", .int 2)]),
   ("history_full", .mapping [("work_history_cap", .int 5), ("education_cap", .null)])]

/-- A preset as a layer: a text is a document of its own, and nothing stays nothing. -/
def layerOf : Value → Except Fault Value
  | .text s => Document.ofText s
  | .null => .ok .null
  | .list items => .ok (.list items)
  | .mapping fields => .ok (.mapping fields)
  | _ => .error .badReference

def layers (ps : Presets) (names : List Text) : Except Failure (List Value) :=
  names.mapM fun name => match ps.lookup name with
    | some v => (layerOf v).mapError .fault
    | none => .error (.refusal (.unknownPreset name (ps.map (·.1))))

end Presets

/-- Puts layers over settings; each has to be a mapping. -/
def overlay (fields : List (Key × Value)) : List Value → Except Fault (List (Key × Value))
  | [] => .ok fields
  | .mapping more :: layers => do overlay (← Document.mergeFields fields more) layers
  | .null :: _ => .error .badValue
  | _ :: _ => .error .wrongKind

/-- Whether a key is one of the numbers, truth values included. -/
def isNumeric (k : Key) : Bool := k.identity.isRight

/-- Whether a key comes before another or is the same: numbers by their size, and texts by their
characters. -/
def keyLe (a b : Key) : Bool :=
  match a.identity, b.identity with
  | .inr (i, p), .inr (j, q) => i < j || (i = j && decide (p ≤ q))
  | .inl (some s), .inl (some t) => decide (s ≤ t)
  | .inl none, _ => true
  | .inl _, .inr _ => true
  | _, _ => false

/-- Numbers and texts have no order among each other. -/
def sortKeys (ks : List Key) : Except Fault (List Key) :=
  if ks.all isNumeric || ks.all (!isNumeric ·) then .ok (ks.mergeSort keyLe) else .error .wrongKind

/-- Settings of fields that have been merged; there may be none but settings among them. -/
def Settings.ofMerged (fields : List (Key × Value)) : Except Failure Settings :=
  match fields.filter fun (k, _) => !(settingNames.map Key.text).contains k with
  | [] => Settings.ofFields fields
  | unknown => do .error (.refusal (.unknownFields (← (sortKeys (unknown.map (·.1))).mapError .fault)))

/-- The settings of presets and explicit values; explicit values of nothing are left out. -/
def Settings.resolve (ps : Except Fault Presets) (names : List Text) (given : List (Key × Value)) :
    Except Failure Settings := do
  let layers ← if names = [] then pure [] else do
    Presets.layers (← ps.mapError .fault) names
  let given := given.filter fun (_, v) => !v.isNull
  let layers := layers ++ if given = [] then [] else [.mapping given]
  let resolved : Except Fault Value := do
    Document.resolve (.mapping (← overlay Settings.default layers))
  match ← resolved.mapError .fault with
  | .mapping fields => Settings.ofMerged fields
  | _ => .error (.fault .wrongKind)

end DeckMerge.Deck
