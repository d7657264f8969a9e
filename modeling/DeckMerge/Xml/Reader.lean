import DeckMerge.Markup.Escape
import DeckMerge.Xml.Name

/-!
Reading XML: the declaration, the document type with its entities, and the elements with names as they
are written. A text that is not well-formed has no reading.
-/

namespace DeckMerge.Xml

-- The zero of the core library, whatever else is in scope.
attribute [local instance (high)] Zero.ofOfNat0

/-- A tree with names as they are written. -/
inductive Tree
  | element (name : Text) (attributes : List (Text × Text)) (children : List Tree)
  | text (s : Text)
  | comment (s : Text)
  | instruction (target data : Text)

instance : Inhabited Tree := ⟨.text []⟩

/-- Puts a text before siblings, as one with a text that comes first. -/
def Tree.consText (s : Text) : List Tree → List Tree
  | .text t :: ts => .text (s ++ t) :: ts
  | ts => if s = [] then ts else .text s :: ts

/-- Puts siblings before others, texts that meet as one. -/
def Tree.join : List Tree → List Tree → List Tree
  | [], more => more
  | .text s :: ts, more => consText s (join ts more)
  | t :: ts, more => t :: join ts more

/-- Elements may not be nested deeper than this. -/
def maxDepth : Nat := 256

def isLegal (c : Char) : Bool := Markup.isLegal c.toNat

/-- A reference to a character or to an entity. -/
inductive Reference
  | char (c : Char)
  | entity (name : Text)

def predefined : List (Text × Char) :=
  [("lt", '<'), ("gt", '>'), ("amp", '&'), ("quot", '"'), ("apos", '\'')]

def charOfDigits? (base : Nat) (digits : List Nat) : Option Char :=
  let n := digits.foldl (fun n d => base * n + d) 0
  if digits ≠ [] ∧ Markup.isLegal n then some (Char.ofNat n) else none

/-- A reference whose ampersand is behind. -/
def readReference : Recogniser Reference
  | '#' :: 'x' :: s => do
    let (ds, rest) := s.span fun c => (Text.hexDigit? c).isSome
    let c ← charOfDigits? 16 (ds.filterMap Text.hexDigit?)
    match rest with
    | ';' :: rest => return (.char c, rest)
    | _ => none
  | '#' :: s => do
    let (ds, rest) := s.span Char.isDigit
    let c ← charOfDigits? 10 (ds.map fun c => c.toNat - 48)
    match rest with
    | ';' :: rest => return (.char c, rest)
    | _ => none
  | s => do
    match ← readName s with
    | (name, ';' :: rest) => match predefined.lookup name with
      | some c => return (.char c, rest)
      | none => return (.entity name, rest)
    | _ => none

abbrev Entities := List (Text × Text)

def Entities.without (es : Entities) (name : Text) : Entities := es.filter (·.1 ≠ name)

/-- An attribute's value up to its quote, or to the end in the text of an entity. Blanks become
spaces, references are resolved, and no entity may refer to itself. -/
def readAttributeValue (quote : Option Char) : Nat → Entities → Text → Option (Text × Text)
  | 0, _, _ => none
  | _ + 1, _, [] => if quote.isNone then some ([], []) else none
  | fuel + 1, es, c :: s =>
    if quote = some c then some ([], s)
    else if c = '<' then none
    else if c = '&' then do
      match ← readReference s with
      | (.char x, rest) =>
        let (v, rest) ← readAttributeValue quote fuel es rest
        return (x :: v, rest)
      | (.entity name, rest) =>
        let (w, _) ← readAttributeValue none fuel (es.without name) (← es.lookup name)
        let (v, rest) ← readAttributeValue quote fuel es rest
        return (w ++ v, rest)
    else if isLegal c then do
      let (v, rest) ← readAttributeValue quote fuel es s
      return ((if isSpace c then ' ' else c) :: v, rest)
    else none

/-- An attribute whose blank is behind. -/
def readAttribute (fuel : Nat) (es : Entities) : Recogniser (Text × Text) := fun s => do
  let (name, t) ← readName s
  match skipSpace t with
  | '=' :: t => match skipSpace t with
    | q :: t =>
      if q = '"' ∨ q = '\'' then do
        let (v, rest) ← readAttributeValue (some q) fuel es t
        return ((name, v), rest)
      else none
    | [] => none
  | _ => none

/-- Attributes, each after a blank, and whether the tag closes itself. -/
def readAttributes : Nat → Entities → Text → Option ((List (Text × Text) × Bool) × Text)
  | 0, _, _ => none
  | fuel + 1, es, s =>
    match skipSpace s with
    | '>' :: rest => some (([], false), rest)
    | '/' :: '>' :: rest => some (([], true), rest)
    | t =>
      if t.length = s.length then none
      else do
        let (a, t) ← readAttribute fuel es t
        let ((as, isEmpty), rest) ← readAttributes fuel es t
        if as.any (·.1 = a.1) then none else return ((a :: as, isEmpty), rest)

/-- A comment whose opening is behind. -/
def readComment (s : Text) : Option (Text × Text) := do
  match ← Text.breakOn? "--" s with
  | (content, '>' :: rest) => if content.all isLegal then return (content, rest) else none
  | _ => none

/-- A processing instruction whose opening is behind. -/
def readInstruction (s : Text) : Option (Tree × Text) := do
  let (target, t) ← readName s
  let (data, rest) ← Text.breakOn? "?>" t
  if target ≠ "xml".toList ∧ data.all isLegal ∧ (data = [] ∨ data.head?.any isSpace) then
    return (.instruction target (skipSpace data), rest)
  else none

/-- A section whose opening is behind. -/
def readSection (s : Text) : Option (Text × Text) := do
  let (content, rest) ← Text.breakOn? "]]>" s
  if content.all isLegal then return (content, rest) else none

/-- Plain text, which may not hold the mark that ends a section. -/
def readCharacters (s : Text) : Option (Text × Text) :=
  let (t, rest) := s.span fun c => c != '<' && c != '&'
  if t.all isLegal && !Text.holds t "]]>" then some (t, rest) else none

def readClosing? (name s : Text) : Option Text := do
  let rest ← ("</".toList ++ name).isPrefixOf? s
  match skipSpace rest with
  | '>' :: rest => return rest
  | _ => none

/-- An element whose opening bracket is behind, its content read in a given way. -/
def readElement (fuel : Nat) (es : Entities) (content : Recogniser (List Tree)) : Recogniser Tree :=
  fun s => do
    let (name, t) ← readName s
    match ← readAttributes fuel es t with
    | ((attributes, true), t) => return (.element name attributes [], t)
    | ((attributes, false), t) =>
      let (children, t) ← content t
      return (.element name attributes children, ← readClosing? name t)

/-- The content of an element up to a closing tag or to the end. Elements, sections, comments,
instructions and references are read in place; `depth` counts the elements around. -/
def readContent : Nat → Nat → Entities → Text → Option (List Tree × Text)
  | 0, _, _, _ => none
  | fuel + 1, depth, es, s =>
    match s with
    | [] => some ([], [])
    | '<' :: '/' :: _ => some ([], s)
    | '<' :: '!' :: '-' :: '-' :: t => do
      let (content, rest) ← readComment t
      let (more, rest) ← readContent fuel depth es rest
      return (.comment content :: more, rest)
    | '<' :: '!' :: '[' :: 'C' :: 'D' :: 'A' :: 'T' :: 'A' :: '[' :: t => do
      let (content, rest) ← readSection t
      let (more, rest) ← readContent fuel depth es rest
      return (Tree.consText content more, rest)
    | '<' :: '?' :: t => do
      let (node, rest) ← readInstruction t
      let (more, rest) ← readContent fuel depth es rest
      return (node :: more, rest)
    | '<' :: t =>
      if maxDepth < depth then none
      else do
        let (node, rest) ← readElement fuel es (readContent fuel (depth + 1) es) t
        let (more, rest) ← readContent fuel depth es rest
        return (node :: more, rest)
    | '&' :: t => do
      match ← readReference t with
      | (.char c, rest) =>
        let (more, rest) ← readContent fuel depth es rest
        return (Tree.consText [c] more, rest)
      | (.entity name, rest) =>
        match ← readContent fuel depth (es.without name) (← es.lookup name) with
        | (nodes, []) =>
          let (more, rest) ← readContent fuel depth es rest
          return (Tree.join nodes more, rest)
        | _ => none
    | _ => do
      let (t, rest) ← readCharacters s
      let (more, rest) ← readContent fuel depth es rest
      return (Tree.consText t more, rest)

/-- The comments and instructions outside the root, with blanks between them. -/
def readMisc : Nat → Text → Option (List Tree × Text)
  | 0, _ => none
  | fuel + 1, s =>
    match skipSpace s with
    | '<' :: '!' :: '-' :: '-' :: t => do
      let (content, rest) ← readComment t
      let (more, rest) ← readMisc fuel rest
      return (.comment content :: more, rest)
    | '<' :: '?' :: t => do
      let (node, rest) ← readInstruction t
      let (more, rest) ← readMisc fuel rest
      return (node :: more, rest)
    | t => some ([], t)

def readQuoted : Recogniser Text
  | q :: s =>
    if q = '"' ∨ q = '\'' then
      match s.span (· != q) with
      | (t, _ :: rest) => some (t, rest)
      | (_, []) => none
    else none
  | [] => none

/-- A pseudo-attribute of the declaration, after its blank. -/
def readPseudo (name : Text) : Recogniser Text := fun s => do
  let rest ← name.isPrefixOf? s
  match skipSpace rest with
  | '=' :: rest => readQuoted (skipSpace rest)
  | _ => none

structure Declaration where
  version : Text
  encoding : Option Text
deriving DecidableEq

def isVersion : Text → Bool
  | '1' :: '.' :: s => s.all Char.isDigit
  | _ => false

def isEncodingName : Text → Bool
  | [] => false
  | c :: s => c.isAlpha && s.all fun c => c.isAlphanum || c == '.' || c == '_' || c == '-'

def isAnswer (s : Text) : Bool := s = "yes".toList || s = "no".toList

/-- A pseudo-attribute that may be missing; one that is there follows a blank. -/
def readOptional (name : Text) (s : Text) : Option (Option Text × Text) :=
  let t := skipSpace s
  if name.isPrefixOf t then
    if t.length = s.length then none else (readPseudo name t).map fun (v, rest) => (some v, rest)
  else some (none, s)

/-- The declaration at the front of a text, with what follows it; a text without one is of version
1.0. -/
def readDeclaration (s : Text) : Option (Declaration × Text) :=
  match ("<?xml".toList).isPrefixOf? s with
  | some (c :: t) =>
    if isSpace c then do
      let (version, t) ← readPseudo "version" (skipSpace t)
      let (encoding, t) ← readOptional "encoding" t
      let (standalone, t) ← readOptional "standalone" t
      match skipSpace t with
      | '?' :: '>' :: rest =>
        if isVersion version ∧ encoding.all isEncodingName ∧ standalone.all isAnswer then
          return (⟨version, encoding⟩, rest)
        else none
      | _ => none
    else some (⟨"1.0", none⟩, s)
  | _ => some (⟨"1.0", none⟩, s)

/-- Skips a declaration of the document type that says nothing about entities. -/
def skipMarkup : Nat → Text → Option Text
  | 0, _ => none
  | fuel + 1, s =>
    match s with
    | '>' :: rest => some rest
    | '<' :: _ => none
    | '"' :: _ | '\'' :: _ => do skipMarkup fuel (← readQuoted s).2
    | _ :: rest => skipMarkup fuel rest
    | [] => none

/-- The text of an entity's value with its references to characters resolved. -/
def entityText : Nat → Text → Option Text
  | 0, _ => none
  | _ + 1, [] => some []
  | fuel + 1, '&' :: s => do
    match ← readReference s with
    | (.char c, rest) =>
      if s.head? = some '#' then return c :: (← entityText fuel rest)
      else return '&' :: s.take (s.length - rest.length) ++ (← entityText fuel rest)
    | (.entity _, rest) => return '&' :: s.take (s.length - rest.length) ++ (← entityText fuel rest)
  | fuel + 1, c :: s => do
    if c = '%' ∨ !isLegal c then none
    return c :: (← entityText fuel s)

/-- The text of an entity whose name is behind; one in another file has none here. -/
def readEntityText : Recogniser (Option Text) := fun s =>
  match readQuoted (skipSpace s) with
  | some (v, rest) => do
    let v ← entityText (v.length + 1) v
    match skipSpace rest with
    | '>' :: rest => return (some v, rest)
    | _ => none
  | none => (skipMarkup s.length s).map (none, ·)

/-- The first declaration of a name counts. -/
def Entities.declare (es : Entities) (name : Text) : Option Text → Entities
  | none => es
  | some v => if es.any (·.1 = name) then es else es ++ [(name, v)]

/-- An entity whose keyword is behind. Parameter entities are not for content. -/
def readEntity (es : Entities) : Recogniser Entities := fun s =>
  if s.head?.any isSpace then
    match skipSpace s with
    | '%' :: _ => (skipMarkup s.length s).map (es, ·)
    | t => do
      let (name, t) ← readName t
      if t.head?.any isSpace then do
        let (x, rest) ← readEntityText t
        return (es.declare name x, rest)
      else none
  else none

/-- The entities that a document type declares in place. -/
def readSubset : Nat → Entities → Text → Option (Entities × Text)
  | 0, _, _ => none
  | fuel + 1, es, s =>
    match skipSpace s with
    | ']' :: rest => some (es, rest)
    | '<' :: '!' :: '-' :: '-' :: t => do readSubset fuel es (← readComment t).2
    | '<' :: '?' :: t => do readSubset fuel es (← readInstruction t).2
    | '%' :: t => do
      match ← readName t with
      | (_, ';' :: rest) => readSubset fuel es rest
      | _ => none
    | t =>
      match ("<!ENTITY".toList).isPrefixOf? t with
      | some t => do
        let (es, rest) ← readEntity es t
        readSubset fuel es rest
      | none => do
        let t ← ["<!ELEMENT", "<!ATTLIST", "<!NOTATION"].findSome? fun w => w.toList.isPrefixOf? t
        readSubset fuel es (← skipMarkup t.length t)

/-- Where a document type may say its external part is. -/
def skipExternal (s : Text) : Option Text :=
  let t := skipSpace s
  match ("SYSTEM".toList).isPrefixOf? t with
  | some t => (readQuoted (skipSpace t)).map (·.2)
  | none => match ("PUBLIC".toList).isPrefixOf? t with
    | some t => do (readQuoted (skipSpace (← readQuoted (skipSpace t)).2)).map (·.2)
    | none => some s

/-- The declarations in brackets, if there are any. -/
def readDeclared (s : Text) : Option (Entities × Text) :=
  match skipSpace s with
  | '[' :: t => readSubset (t.length + 1) [] t
  | _ => some ([], s)

def readDocumentType (s : Text) : Option (Entities × Text) :=
  match ("<!DOCTYPE".toList).isPrefixOf? s with
  | none => some ([], s)
  | some t =>
    if t.head?.any isSpace then do
      let (_, t) ← readName (skipSpace t)
      let (es, t) ← readDeclared (← skipExternal t)
      match skipSpace t with
      | '>' :: rest => return (es, rest)
      | _ => none
    else none

/-- What comes before the root. -/
structure Prolog where
  declaration : Declaration
  nodes : List Tree
  entities : Entities

def readProlog : Recogniser Prolog := fun s => do
  let (declaration, s) ← readDeclaration s
  let (before, s) ← readMisc (s.length + 1) s
  let (es, s) ← readDocumentType s
  let (between, s) ← readMisc (s.length + 1) s
  return (⟨declaration, before ++ between, es⟩, s)

/-- A whole document: its root, and what stands before and after it. -/
structure Source where
  prolog : Prolog
  root : Tree
  after : List Tree

/-- The length of what entities stand for. -/
def Entities.size (es : Entities) : Nat := (es.map (·.2.length)).sum

def readSource (s : Text) : Option Source := do
  match ← readProlog s with
  | (prolog, '<' :: s) =>
    let fuel := s.length + prolog.entities.size + 1
    let (root, rest) ← readElement fuel prolog.entities (readContent fuel 1 prolog.entities) s
    match ← readMisc (rest.length + 1) rest with
    | (after, []) => return ⟨prolog, root, after⟩
    | _ => none
  | _ => none

end DeckMerge.Xml
