import DeckMerge.Log
import DeckMerge.Package.Slides
import DeckMerge.Xml.Edit
import DeckMerge.Xml.Encoding
import DeckMerge.Xml.Writer

/-!
Adding slides to a package. A slide is registered in three parts: the content types, the relationships
of the presentation, and the list of slides that are shown.
-/

namespace DeckMerge.Package

def contentTypes : Text := "[Content_Types].xml"

def presentation : Text := "ppt/presentation.xml"

def presentationRelationships : Text := "ppt/_rels/presentation.xml.rels"

namespace Uri

def contentTypes : Text := "http://schemas.openxmlformats.org/package/2006/content-types"

def relationships : Text := "http://schemas.openxmlformats.org/package/2006/relationships"

def presentation : Text := "http://schemas.openxmlformats.org/presentationml/2006/main"

def references : Text := "http://schemas.openxmlformats.org/officeDocument/2006/relationships"

end Uri

def slideContentType : Text :=
  "application/vnd.openxmlformats-officedocument.presentationml.slide+xml"

def slideRelationship : Text := Uri.references ++ "/slide"

def notesRelationship : Text := Uri.references ++ "/notesSlide"

/-- Steps that read and write parts. What was written before a failure stays. -/
abbrev Edit (α : Type) := ExceptT Failure (StateM Package) α

def Edit.failWith {α : Type} (r : Report) : Edit α := throw (.report r)

def readDocument (name : Text) : Edit Xml.Document := do
  match (← get).read name with
  | .error r => Edit.failWith r
  | .ok bs => match Xml.Document.ofBytes? bs with
    | some d => return d
    | none => Edit.failWith (((Report.plain .templateLoad
        "Package part is not well-formed XML").inPart name).because .malformedMarkup [])

def writeDocument (name : Text) (d : Xml.Document) : Edit Unit :=
  modify fun p => p.writeText name d.write

def withRoot (d : Xml.Document) (root : Xml.Element) : Xml.Document := { d with root := root }

/-! ### Content types -/

/-- The parts whose content types are given one by one. -/
def overrides (root : Xml.Element) : List Text :=
  (root.tagsOf Uri.contentTypes "Override").filterMap (·.get? [] "PartName")

def registerContentType (name : Text) : Edit Unit := do
  let d ← readDocument contentTypes
  let path := '/' :: name
  if (overrides d.root).contains path then return
  writeDocument contentTypes (withRoot d (d.root.append Uri.contentTypes "Override"
    [("PartName", path), ("ContentType", slideContentType)]))

/-! ### Relationships -/

structure Relationship where
  id : Text
  type : Text
  target : Text
deriving DecidableEq

def Relationship.ofTag (t : Xml.Tag) : Relationship :=
  let value (label : Text) : Text := (t.get? [] label).getD []
  ⟨value "Id", value "Type", value "Target"⟩

def relationships (root : Xml.Element) : List Relationship :=
  (root.tagsOf Uri.relationships "Relationship").map .ofTag

def targetOf (name : Text) : Text := name.drop "ppt/".length

/-- Whether a relationship leads to a slide, which it may name from the root on. -/
def Relationship.leadsTo (r : Relationship) (name : Text) : Bool :=
  let t := r.target.dropWhile (· == '/')
  t == targetOf name || t == name

/-- The number of an identifier that is made of one. -/
def relationshipNumber? (id : Text) : Option Nat := do
  let digits ← ("rId".toList).isPrefixOf? id
  if digits ≠ [] ∧ digits.all Text.isDigit then some (Text.ofDigits digits) else none

def nextRelationship (rs : List Relationship) : Text :=
  "rId" ++ Text.ofNat ((rs.filterMap fun r => relationshipNumber? r.id).foldl max 0 + 1)

/-- The identifier of the first relationship that leads to a slide; empty if there is none. -/
def relationshipTo (name : Text) : Edit Text := do
  let d ← readDocument presentationRelationships
  return (((relationships d.root).find? (·.leadsTo name)).map (·.id)).getD []

def addRelationship (name : Text) : Edit Text := do
  let d ← readDocument presentationRelationships
  let id := nextRelationship (relationships d.root)
  writeDocument presentationRelationships (withRoot d (d.root.append Uri.relationships
    "Relationship" [("Id", id), ("Type", slideRelationship), ("Target", targetOf name)]))
  return id

/-- Copies the relationships of a slide but for its notes, which belong to one slide only. -/
def copyRelationships (source name : Text) : Edit Unit := do
  if !(← get).has (relationshipsName source) then return
  let d ← readDocument (relationshipsName source)
  let isNotes (t : Xml.Tag) : Bool :=
    t.is Uri.relationships "Relationship" ∧ (Relationship.ofTag t).type = notesRelationship
  writeDocument (relationshipsName name)
    (withRoot d { d.root with children := Xml.dropElements isNotes false d.root.children })

/-! ### Slides that are shown -/

/-- Elements that come before the list of slides. -/
def lists : List Text := ["sldMasterIdLst", "notesMasterIdLst", "handoutMasterIdLst"]

/-- The place after the last of the elements that come before the list of slides. All nodes but texts
count, and each has to be an element. -/
def listPlace (nodes : List Xml.Node) : Except Fault Nat :=
  go 0 0 nodes
where
  go (position place : Nat) : List Xml.Node → Except Fault Nat
    | [] => .ok place
    | .text _ :: ns => go position place ns
    | .element t _ :: ns =>
      go (position + 1) (if lists.contains t.name.label then position + 1 else place) ns
    | _ :: _ => .error .badValue

def isSlideList (t : Xml.Tag) : Bool := t.is Uri.presentation "sldIdLst"

/-- The root with an empty list of slides if it has none. -/
def withSlideList (root : Xml.Element) : Except Fault Xml.Element :=
  if root.tagsOf Uri.presentation "sldIdLst" = [] then do
    let tag := Xml.Tag.settled root.tag.declarations Uri.presentation "sldIdLst" []
    return { root with children := Xml.insertAt (.element tag []) (← listPlace root.children) root.children }
  else .ok root

/-- The numbers that slides are listed under. -/
def slideNumbers (list : Xml.Element) : Except Fault (List Int) :=
  (list.tagsOf Uri.presentation "sldId").mapM fun t =>
    match t.get? [] "id" with
    | none => .error .wrongKind
    | some s => match Text.readInt? s with
      | some n => .ok n
      | none => .error .badValue

def leastSlideNumber : Int := 256

/-- The place after the last child that refers to a relationship; past all children if none does. -/
def placeAfter (id : Text) (nodes : List Xml.Node) : Nat :=
  let children := nodes.filter fun n => match n with
    | .text _ => false
    | _ => true
  let places := children.zipIdx.filterMap fun (n, i) => match n with
    | .element t _ => if id ≠ [] ∧ t.get? Uri.references "id" = some id then some (i + 1) else none
    | _ => none
  places.getLast?.getD children.length

/-- The list with a slide shown after another. -/
def listSlide (scope : Xml.Declarations) (id after : Text) (list : Xml.Element) :
    Except Fault Xml.Element := do
  let number := (← slideNumbers list).foldl max (leastSlideNumber - 1) + 1
  let scope := list.tag.declarations ++ scope
  let tag := (Xml.Tag.settled scope Uri.presentation "sldId"
    [Xml.plainAttribute "id" (Text.ofInt number)]).settleAttribute scope Uri.references "id" id
  return { list with
    children := Xml.insertAt (.element tag []) (placeAfter after list.children) list.children }

/-- Nodes with the first list of slides changed. -/
def changeSlideList (f : Xml.Element → Except Fault Xml.Element) :
    List Xml.Node → Except Fault (List Xml.Node)
  | [] => .ok []
  | .element t children :: ns =>
    if isSlideList t then do return (← f ⟨t, children⟩) :: ns
    else do return .element t children :: (← changeSlideList f ns)
  | n :: ns => do return n :: (← changeSlideList f ns)

def addToShow (id after : Text) : Edit Unit := do
  let d ← readDocument presentation
  let changed : Except Fault Xml.Element := do
    let root ← withSlideList d.root
    let children ← changeSlideList (listSlide root.tag.declarations id after) root.children
    return { root with children := children }
  match changed with
  | .ok root => writeDocument presentation (withRoot d root)
  | .error f => throw (.fault f)

/-! ### Copies -/

/-- Adds a copy of a slide, or a slide of a given text, shown after another one or after its source;
gives its name. -/
def duplicate (source : Text) (after s : Option Text) : Edit Text := do
  let p ← get
  let some content := p.content? source
    | Edit.failWith ((Report.plain .templateLoad "Cannot duplicate missing slide").inPart source)
  let name := slideName p.nextNumber
  set (p.write name ((s.map Text.utf8).getD content))
  copyRelationships source name
  registerContentType name
  let before := match after with
    | none | some [] => source
    | some name => name
  let shownAfter ← relationshipTo before
  let id ← addRelationship name
  addToShow id shownAfter
  return name

def Edit.on {α : Type} (e : Edit α) (p : Package) : Except Failure α × Package := Id.run (e.run.run p)

end DeckMerge.Package
