import DeckMerge.Xml.Reader
import DeckMerge.Xml.Uri

/-!
Documents with namespaces. Declarations give prefixes a meaning inside their element; a document whose
names do not resolve is refused, by the last complaint there is about it.
-/

namespace DeckMerge.Xml

/-- A prefix, empty for none, and the namespace that it is declared for, empty for none. -/
abbrev Declarations := List (Text × Text)

structure Name where
  pfx : Text
  label : Text
  uri : Text
deriving DecidableEq

def Name.written (n : Name) : Text := if n.pfx = [] then n.label else n.pfx ++ ':' :: n.label

structure Attribute where
  name : Name
  value : Text
deriving DecidableEq

structure Tag where
  declarations : Declarations
  name : Name
  attributes : List Attribute
deriving DecidableEq

inductive Node
  | element (tag : Tag) (children : List Node)
  | text (s : Text)
  | comment (s : Text)
  | instruction (target data : Text)

instance : Inhabited Node := ⟨.text []⟩

structure Element where
  tag : Tag
  children : List Node

instance : Coe Element Node := ⟨fun e => .element e.tag e.children⟩

/-- The value of an attribute in a namespace, or in none. -/
def Tag.get? (t : Tag) (uri label : Text) : Option Text :=
  (t.attributes.find? fun a => a.name.uri = uri ∧ a.name.label = label).map (·.value)

def Tag.is (t : Tag) (uri label : Text) : Prop := t.name.uri = uri ∧ t.name.label = label

instance (t : Tag) (uri label : Text) : Decidable (t.is uri label) :=
  inferInstanceAs (Decidable (_ ∧ _))

def Element.tagsOf (e : Element) (uri label : Text) : List Tag :=
  e.children.filterMap fun n => match n with
    | .element t _ => if t.is uri label then some t else none
    | _ => none

/-- A fact about a document that is not as it should be. -/
inductive Complaint
  | warning
  | error
deriving DecidableEq

abbrev Checked (α : Type) := α × List Complaint

def xmlNamespace : Text := "http://www.w3.org/XML/1998/namespace"

def declarationNamespace : Text := "http://www.w3.org/2000/xmlns/"

/-- What an attribute declares, if it is a declaration: the prefix, which stays empty for the
default namespace. -/
def declaredPrefix? (name : Text) : Option Text :=
  if name = "xmlns".toList then some []
  else match ("xmlns:".toList).isPrefixOf? name with
    | none | some [] => none
    | some pfx => some pfx

/-- Checks one declaration, and says whether it is to be kept. -/
def checkDeclaration (pfx uri : Text) : Checked Bool :=
  let bad := if uri = [] ∨ Uri.isReference uri then [] else [Complaint.error]
  if pfx = [] then
    let relative := if uri = [] ∨ bad ≠ [] ∨ (Uri.afterScheme? uri).isSome then []
      else [Complaint.warning]
    if uri = xmlNamespace ∨ uri = declarationNamespace then (false, [.error])
    else (true, bad ++ relative)
  else if pfx = "xml".toList then (false, if uri = xmlNamespace then [] else [.error])
  else if pfx = "xmlns".toList ∨ uri = xmlNamespace ∨ uri = declarationNamespace ∨ uri = [] then
    (false, [.error])
  else (true, bad ++ if isPlainName pfx then [] else [.error])

def declarations : List (Text × Text) → Checked Declarations
  | [] => ([], [])
  | (name, value) :: attributes =>
    let (ds, later) := declarations attributes
    match declaredPrefix? name with
    | none =>
      let spaced := name = "xml:space".toList ∧ ¬ [("default" : Text), "preserve"].contains value
      (ds, (if spaced then [.warning] else []) ++ later)
    | some pfx =>
      let (keep, complaints) := checkDeclaration pfx value
      (if keep then (pfx, value) :: ds else ds, complaints ++ later)

/-- A name with its prefix resolved. Attributes without a prefix are in no namespace. -/
def resolveName (scope : Declarations) (isAttribute : Bool) (name : Text) : Checked Name :=
  match splitName name with
  | none => (⟨[], name, []⟩, [.error])
  | some ([], label) =>
    (⟨[], label, if isAttribute then [] else (scope.lookup []).getD []⟩, [])
  | some (pfx, label) =>
    if pfx = "xml".toList then (⟨pfx, label, xmlNamespace⟩, []) else
    match scope.lookup pfx with
    | some uri => (⟨pfx, label, uri⟩, [])
    | none => (⟨pfx, label, []⟩, [.error])

/-- The attributes that declare nothing. Two of one name in one namespace are an error. -/
def resolveAttributes (scope : Declarations) :
    List Attribute → List (Text × Text) → Checked (List Attribute)
  | earlier, [] => (earlier, [])
  | earlier, (name, value) :: attributes =>
    if (declaredPrefix? name).isSome then resolveAttributes scope earlier attributes else
    let (n, complaints) := resolveName scope true name
    let twice := earlier.any fun a => n.uri ≠ [] ∧ a.name.uri = n.uri ∧ a.name.label = n.label
    let (as, later) := resolveAttributes scope (earlier ++ [⟨n, value⟩]) attributes
    (as, complaints ++ (if twice then [.error] else []) ++ later)

/-- Identifiers are names without a colon. -/
def checkIdentifiers (as : List Attribute) : List Complaint :=
  as.filterMap fun a =>
    if a.name.uri = xmlNamespace ∧ a.name.label = "id".toList ∧ ¬ isPlainName a.value then
      some .error
    else none

def resolveTag (scope : Declarations) (name : Text) (attributes : List (Text × Text)) :
    Checked Tag :=
  let (ds, first) := declarations attributes
  let (as, second) := resolveAttributes (ds ++ scope) [] attributes
  let (n, third) := resolveName (ds ++ scope) false name
  (⟨ds, n, as⟩, first ++ second ++ third ++ checkIdentifiers as)

/-- Targets of instructions that begin as the format's own name are kept for it, and may hold no
colon. -/
def checkTarget (target : Text) : List Complaint :=
  let front := (target.take 3).map Char.toLower
  if front = "xml".toList then
    if target.length = 3 then [.error]
    else if [("xml-stylesheet" : Text), "xml-model"].contains target then []
    else .warning :: if target.contains ':' then [.error] else []
  else if target.contains ':' then [.error] else []

mutual

def resolve (scope : Declarations) : Tree → Checked Node
  | .element name attributes children =>
    let (tag, first) := resolveTag scope name attributes
    let (nodes, later) := resolveAll (tag.declarations ++ scope) children
    (.element tag nodes, first ++ later)
  | .text s => (.text s, [])
  | .comment s => (.comment s, [])
  | .instruction target data => (.instruction target data, checkTarget target)

def resolveAll (scope : Declarations) : List Tree → Checked (List Node)
  | [] => ([], [])
  | t :: ts =>
    let (n, first) := resolve scope t
    let (ns, later) := resolveAll scope ts
    (n :: ns, first ++ later)

end

structure Document where
  declaration : Declaration
  root : Element

/-- A document and the complaints about it, in the order of what they are about. -/
def Document.check (s : Text) : Option (Checked Document) := do
  let source ← readSource s
  let declaration := source.prolog.declaration
  let version := if declaration.version = "1.0".toList then [] else [Complaint.warning]
  let (_, before) := resolveAll [] source.prolog.nodes
  let (root, complaints) := resolve [] source.root
  let (_, after) := resolveAll [] source.after
  match root with
  | .element tag children =>
    return (⟨declaration, ⟨tag, children⟩⟩, version ++ before ++ complaints ++ after)
  | _ => none

def Document.ofText? (s : Text) : Option Document := do
  let (d, complaints) ← check s
  if complaints.getLast? = some .error then none else some d

end DeckMerge.Xml
