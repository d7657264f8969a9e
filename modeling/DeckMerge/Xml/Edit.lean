import DeckMerge.Xml.Document

/-!
Changing documents: new children, and the prefixes they are written with. A declaration that is in
scope is used; otherwise the new element declares its namespace itself.
-/

namespace DeckMerge.Xml

/-- Declarations in scope, the innermost first: whether this one is not hidden by another. -/
def Declarations.isVisible (scope : Declarations) (d : Text × Text) : Bool :=
  scope.lookup d.1 = some d.2

/-- The prefix that a namespace has in a scope. -/
def Declarations.prefixFor? (scope : Declarations) (uri : Text) : Option Text :=
  (scope.find? fun d => d.2 = uri ∧ scope.isVisible d).map (·.1)

/-- As `prefixFor?`, for attributes, which are in no namespace without a prefix. -/
def Declarations.namedFor? (scope : Declarations) (uri : Text) : Option Text :=
  (scope.find? fun d => d.1 ≠ [] ∧ d.2 = uri ∧ scope.isVisible d).map (·.1)

def numberedPrefix (n : Nat) : Text := "ns" ++ Text.ofNat n

/-- The first numbered prefix that a scope does not declare. -/
def Declarations.fresh (scope : Declarations) : Text :=
  (((List.range (scope.length + 1)).map numberedPrefix).find? fun p => (scope.lookup p).isNone).getD []

def plainAttribute (label value : Text) : Attribute := ⟨⟨[], label, []⟩, value⟩

def Element.append (e : Element) (uri label : Text) (attributes : List (Text × Text)) : Element :=
  let scope := e.tag.declarations
  let (declared, pfx) := match scope.prefixFor? uri with
    | some pfx => ([], pfx)
    | none => ([(scope.fresh, uri)], scope.fresh)
  let tag := ⟨declared, ⟨pfx, label, uri⟩, attributes.map fun (k, v) => plainAttribute k v⟩
  { e with children := e.children ++ [.element tag []] }

/-- The prefix of a namespace in a scope, or a declaration of it under a given one. -/
def Declarations.settle (scope : Declarations) (pfx uri : Text) : Declarations × Text :=
  match scope.prefixFor? uri with
  | some pfx => ([], pfx)
  | none => ([(pfx, uri)], pfx)

def Tag.settled (scope : Declarations) (uri label : Text) (attributes : List Attribute) : Tag :=
  let (declared, pfx) := scope.settle (numberedPrefix 0) uri
  ⟨declared, ⟨pfx, label, uri⟩, attributes⟩

def Tag.settleAttribute (t : Tag) (scope : Declarations) (uri label value : Text) : Tag :=
  let (declared, pfx) := scope.settle (numberedPrefix 1) uri
  let (declared, pfx) : Declarations × Text :=
    if pfx = [] then
      let scope := t.declarations ++ scope
      match scope.namedFor? uri with
      | some pfx => ([], pfx)
      | none =>
        let pfx := if (scope.lookup (numberedPrefix 1)).isNone then numberedPrefix 1 else scope.fresh
        ([(pfx, uri)], pfx)
    else (declared, pfx)
  { t with
    declarations := t.declarations ++ declared
    attributes := t.attributes ++ [⟨⟨pfx, label, uri⟩, value⟩] }

/-- Puts a node before the child at an index, where texts do not count; past all children it comes
last. -/
def insertAt (n : Node) : Nat → List Node → List Node
  | _, [] => [n]
  | i, .text s :: ns => .text s :: insertAt n i ns
  | 0, m :: ns => n :: m :: ns
  | i + 1, m :: ns => m :: insertAt n i ns

/-- Takes out the elements that a test holds for, each with the text after it; `dropped` says that one
has just been taken out. -/
def dropElements (p : Tag → Bool) (dropped : Bool) : List Node → List Node
  | [] => []
  | .element t children :: ns =>
    if p t then dropElements p true ns else .element t children :: dropElements p false ns
  | .text s :: ns =>
    if dropped then dropElements p true ns else .text s :: dropElements p false ns
  | n :: ns => n :: dropElements p false ns

end DeckMerge.Xml
