import DeckMerge.Report
import DeckMerge.Text.Utf8

/-!
Files and folders under one folder, found by paths.
-/

namespace DeckMerge

/-- The names on the way from the top, or from the folder one is in. -/
structure Path where
  isAbsolute : Bool
  names : List Text
deriving DecidableEq

namespace Path

/-- Slashes that follow each other count as one, and so does a dot between them. -/
def ofText (s : Text) : Path :=
  ⟨s.head? = some '/', (Text.splitAt '/' s).filter fun name => name ≠ [] ∧ name ≠ ['.']⟩

def text (p : Path) : Text :=
  if p.isAbsolute then '/' :: Text.joinWith "/" p.names
  else if p.names = [] then "." else Text.joinWith "/" p.names

def parent (p : Path) : Path := { p with names := p.names.dropLast }

def name (p : Path) : Text := p.names.getLast?.getD []

/-- A name without what follows its last dot; a dot at its start or end does not count. -/
def stem (p : Path) : Text :=
  match Text.breakAtLast? '.' p.name with
  | some (front, suffix) => if front ≠ [] ∧ suffix ≠ [] then front else p.name
  | none => p.name

def join (folder p : Path) : Path :=
  if p.isAbsolute then p else { folder with names := folder.names ++ p.names }

/-- The folders above a path, the nearest last. -/
def ancestors (p : Path) : List Path :=
  (List.range p.names.length).map fun n => { p with names := p.names.take n }

end Path

structure FileTree where
  files : List (Path × Bytes)
  folders : List Path

namespace FileTree

def empty : FileTree := ⟨[], []⟩

def isFile (t : FileTree) (p : Path) : Bool := t.files.any (·.1 = p)

/-- Whether a path is a folder: one that was made, or one above something. -/
def isFolder (t : FileTree) (p : Path) : Bool :=
  p.names = [] || t.folders.any (fun q => q = p || q.ancestors.contains p)
    || t.files.any fun (q, _) => q.ancestors.contains p

def read (t : FileTree) (p : Path) : Except Fault Bytes :=
  match t.files.lookup p with
  | some bs => .ok bs
  | none =>
    if t.isFolder p then .error .isFolder
    else if p.ancestors.any t.isFile then .error .notFolder
    else .error .fileMissing

def makeFolder (t : FileTree) (p : Path) : Except Fault FileTree :=
  if t.isFile p then .error .fileExists
  else if p.ancestors.any t.isFile then .error .notFolder
  else .ok { t with folders := p :: t.folders }

def put (t : FileTree) (p : Path) (bs : Bytes) : FileTree :=
  { t with files := (p, bs) :: t.files.filter (·.1 ≠ p) }

/-- Writes a file; the folder it is in is made first. -/
def write (t : FileTree) (p : Path) (bs : Bytes) : Except Fault FileTree := do
  let t ← t.makeFolder p.parent
  if t.isFolder p then .error .isFolder else return t.put p bs

end FileTree

end DeckMerge
