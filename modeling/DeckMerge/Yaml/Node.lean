import DeckMerge.Yaml.Layout
import DeckMerge.Yaml.Schema

/-!
The trees of documents, and their values. A mapping may not name a text twice; what is merged into it
comes first and gives way to its own fields.
-/

namespace DeckMerge.Yaml

inductive Node
  | scalar (tag : Tag) (s : Text)
  | sequence (tag : Tag) (items : List Node)
  | mapping (tag : Tag) (fields : List (Node × Node))

instance : Inhabited Node := ⟨.scalar .null []⟩

namespace Node

/-- A text that is not there. -/
def absent : Node := .scalar .null []

/-! ### Trees of words -/

/-- What is left to read, and the nodes that names were given to. -/
structure State where
  tokens : List Token
  anchors : List (Text × Node)
  handles : List (Text × Text)

abbrev Parse (α : Type) := StateT State (Except Fault) α

def malformed {α : Type} : Parse α := throw .malformedDocument

def peek : Parse (Option Token) := return (← get).tokens.head?

def skip : Parse Unit := modify fun s => { s with tokens := s.tokens.tail }

def sees (ts : List Token) : Parse Bool := return (← peek).any ts.contains

def expect (t : Token) : Parse Unit := do
  if (← peek) = some t then skip else malformed

/-- The name of a tag; one that leaves the kind open has none. -/
def tagName (handle : Option Text) (suffix : Text) : Parse Text := do
  match handle with
  | none => return suffix
  | some h => match (← get).handles.lookup h with
    | some front => return front ++ suffix
    | none => malformed

/-- The anchor and the tag in front of a node, in either order. -/
def readProperties : Parse (Option Text × Option Text) := do
  match ← peek with
  | some (.anchor name) =>
    skip
    match ← peek with
    | some (.tag h s) => do
      skip
      return (some name, some (← tagName h s))
    | _ => return (some name, none)
  | some (.tag h s) =>
    skip
    let tag ← tagName h s
    match ← peek with
    | some (.anchor name) => do
      skip
      return (some name, some tag)
    | _ => return (none, some tag)
  | _ => return (none, none)

/-- Whether a tag says nothing about the kind. -/
def isOpen (tag : Option Text) : Bool := tag.all (· = ['!'])

/-- The kind of a scalar: a tag counts first, and quoted texts are texts. -/
def scalarTag (tag : Option Text) (s : Text) (isPlain : Bool) : Tag :=
  match tag with
  | none => if isPlain then .ofPlain s else .text
  | some name => if name = ['!'] then .ofPlain s else .ofName name

def collectionTag (tag : Option Text) (usual : Tag) : Tag :=
  if isOpen tag then usual else .ofName (tag.getD [])

/-- Gives a node its name; no name is given twice. -/
def bind (anchor : Option Text) (n : Node) : Parse Node := do
  match anchor with
  | none => return n
  | some name =>
    if (← get).anchors.any (·.1 = name) then malformed
    modify fun s => { s with anchors := (name, n) :: s.anchors }
    return n

mutual

/-- A node; blocks may stand where no flow is around, and a sequence of entries that is not indented
where a field of a block is. -/
def read (inBlock mayBeBare : Bool) : Nat → Parse Node
  | 0 => malformed
  | fuel + 1 => do
    if let some (.alias name) ← peek then
      skip
      match (← get).anchors.lookup name with
      | some n => return n
      | none => malformed
    else
      let (anchor, tag) ← readProperties
      match ← peek with
      | some .entry =>
        if mayBeBare then
          bind anchor (.sequence (collectionTag tag .sequence) (← readBareEntries fuel))
        else if anchor.isSome || tag.isSome then bind anchor (.scalar (scalarTag tag [] true) [])
        else malformed
      | some (.scalar s isPlain) =>
        skip
        bind anchor (.scalar (scalarTag tag s isPlain) s)
      | some .flowSequence =>
        skip
        bind anchor (.sequence (collectionTag tag .sequence) (← readFlowItems true fuel))
      | some .flowMapping =>
        skip
        bind anchor (.mapping (collectionTag tag .mapping) (← readFlowFields true fuel))
      | t =>
        if inBlock ∧ t = some .blockSequence then
          skip
          bind anchor (.sequence (collectionTag tag .sequence) (← readEntries fuel))
        else if inBlock ∧ t = some .blockMapping then
          skip
          bind anchor (.mapping (collectionTag tag .mapping) (← readFields fuel))
        else if anchor.isSome || tag.isSome then bind anchor (.scalar (scalarTag tag [] true) [])
        else malformed

/-- A node, or nothing if one of some words comes. -/
def readUnless (stops : List Token) (inBlock mayBeBare : Bool) : Nat → Parse Node
  | 0 => malformed
  | fuel + 1 => do
    if ← sees stops then return absent else read inBlock mayBeBare fuel

def readEntries : Nat → Parse (List Node)
  | 0 => malformed
  | fuel + 1 => do
    if ← sees [.entry] then
      skip
      let n ← readUnless [.entry, .blockEnd] true false fuel
      return n :: (← readEntries fuel)
    else
      expect .blockEnd
      return []

/-- The entries of a sequence that is not indented. -/
def readBareEntries : Nat → Parse (List Node)
  | 0 => malformed
  | fuel + 1 => do
    if ← sees [.entry] then
      skip
      let n ← readUnless [.entry, .key, .value, .blockEnd] true false fuel
      return n :: (← readBareEntries fuel)
    else return []

def readFields : Nat → Parse (List (Node × Node))
  | 0 => malformed
  | fuel + 1 => do
    if ← sees [.key] then
      skip
      let stops := [.key, .value, .blockEnd]
      let k ← readUnless stops true true fuel
      let v ← if ← sees [.value] then do
          skip
          readUnless stops true true fuel
        else pure absent
      return (k, v) :: (← readFields fuel)
    else
      expect .blockEnd
      return []

/-- A value in a flow, if a colon comes. -/
def readFlowValue (stops : List Token) : Nat → Parse Node
  | 0 => malformed
  | fuel + 1 => do
    if ← sees [.value] then
      skip
      readUnless stops false false fuel
    else return absent

/-- The items of a flow; an item may be a field, which makes a mapping of its own. -/
def readFlowItems (isFirst : Bool) : Nat → Parse (List Node)
  | 0 => malformed
  | fuel + 1 => do
    if ← sees [.flowSequenceEnd] then
      skip
      return []
    if !isFirst then expect .flowEntry
    if ← sees [.flowSequenceEnd] then
      skip
      return []
    let n ← if ← sees [.key] then do
        skip
        let k ← readUnless [.value, .flowEntry, .flowSequenceEnd] false false fuel
        let v ← readFlowValue [.flowEntry, .flowSequenceEnd] fuel
        pure (.mapping .mapping [(k, v)])
      else read false false fuel
    return n :: (← readFlowItems false fuel)

/-- The fields of a flow; a key without a colon has no value. -/
def readFlowFields (isFirst : Bool) : Nat → Parse (List (Node × Node))
  | 0 => malformed
  | fuel + 1 => do
    if ← sees [.flowMappingEnd] then
      skip
      return []
    if !isFirst then expect .flowEntry
    if ← sees [.flowMappingEnd] then
      skip
      return []
    let field ← if ← sees [.key] then do
        skip
        let k ← readUnless [.value, .flowEntry, .flowMappingEnd] false false fuel
        let v ← readFlowValue [.flowEntry, .flowMappingEnd] fuel
        pure (k, v)
      else do pure (← read false false fuel, absent)
    return field :: (← readFlowFields false fuel)

end

/-! ### Documents -/

def usualHandles : List (Text × Text) := [(['!'], ['!']), ("!!", Tag.schema)]

/-- Whether a text is a version that can be read. -/
def isVersion (s : Text) : Bool :=
  match Text.splitAt '.' s with
  | [major, minor] => major ≠ [] && major.all Char.isDigit && minor ≠ [] && minor.all Char.isDigit
      && Text.ofDigits major == 1
  | _ => false

/-- Skips directives; a version is given once, and each handle once. -/
def readDirectives (isVersioned : Bool) (given : List (Text × Text)) : Nat → Parse Unit
  | 0 => malformed
  | fuel + 1 => do
    match ← peek with
    | some (.directive name value) =>
      skip
      if name = "YAML".toList then
        if isVersioned || !isVersion value then malformed
        readDirectives true given fuel
      else if name = "TAG".toList then
        match Text.splitAt ' ' value with
        | [handle, front] =>
          if given.any (·.1 = handle) then malformed
          readDirectives isVersioned (given ++ [(handle, front)]) fuel
        | _ => malformed
      else readDirectives isVersioned given fuel
    | _ => modify fun s => { s with handles := given ++ usualHandles }

def skipEnds : Nat → Parse Unit
  | 0 => return ()
  | fuel + 1 => do
    if ← sees [.documentEnd] then
      skip
      skipEnds fuel

/-- The node of a text that has at most one document. -/
def readDocument (fuel : Nat) : Parse (Option Node) := do
  if (← peek).isNone then return none
  let isExplicit := match ← peek with
    | some (.directive _ _) | some .documentStart => true
    | _ => false
  let n ← if isExplicit then do
      readDirectives false [] fuel
      expect .documentStart
      match ← peek with
      | none | some .documentEnd | some .documentStart | some (.directive _ _) => pure absent
      | _ => read true false fuel
    else read true false fuel
  skipEnds fuel
  if (← peek).isSome then malformed
  return some n

def ofText (s : Text) : Except Fault (Option Node) := do
  let ts ← tokens s
  let (n, _) ← (readDocument (3 * ts.length + 3)).run ⟨ts, [], usualHandles⟩
  return n

/-! ### Values -/

/-- The fields of a node with those that are merged into it in front. -/
def mergedFields : Nat → List (Node × Node) → Except Fault (List (Node × Node))
  | 0, _ => .error .malformedDocument
  | fuel + 1, fields => do
    let merged ← (fields.filter fun (k, _) => isMerge k).mapM fun (_, v) => match v with
      | .mapping _ more => mergedFields fuel more
      | .sequence _ items => do
        let parts ← items.reverse.mapM fun n => match n with
          | .mapping _ more => mergedFields fuel more
          | _ => .error .malformedDocument
        return parts.flatten
      | _ => .error .malformedDocument
    return merged.flatten ++ fields.filter fun (k, _) => !isMerge k
where
  isMerge : Node → Bool
    | .scalar .merge _ => true
    | _ => false

def textKeys (fields : List (Node × Node)) : List Text :=
  fields.filterMap fun (k, _) => match k with
    | .scalar .text s => some s
    | _ => none

/-- The key that a node makes; what holds other nodes cannot be one. -/
def keyOf : Node → Except Fault Key
  | .scalar .value s => .ok (.text s)
  | .scalar t s => do
    match ← t.valueOf s with
    | .null => return .null
    | .bool b => return .bool b
    | .int n => return .int n
    | .real x => return .real x
    | .text s => return .text s
    | _ => .error .malformedDocument
  | _ => .error .malformedDocument

def value : Nat → Node → Except Fault Value
  | 0, _ => .error .malformedDocument
  | _ + 1, .scalar t s => t.valueOf s
  | fuel + 1, .sequence t items =>
    if t = .sequence then return .list (← items.mapM (value fuel)) else .error .malformedDocument
  | fuel + 1, .mapping t fields => do
    if t ≠ .mapping ∨ ¬ (textKeys fields).Nodup then .error .malformedDocument
    let fields ← mergedFields fuel fields
    let fields ← fields.mapM fun (k, v) => do return (← keyOf k, ← value fuel v)
    return .mapping (fields.foldl (fun fs (k, v) => Fields.set fs k v) [])

end Node

/-- The value of a text; a text without a document has none. -/
def read (s : Text) : Except Fault Value := do
  match ← Node.ofText s with
  | some n => n.value (s.length + 2)
  | none => return .null

end DeckMerge.Yaml
