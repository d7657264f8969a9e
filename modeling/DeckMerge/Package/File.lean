import DeckMerge.FileTree
import DeckMerge.Package.Store

/-!
Packages in files.
-/

namespace DeckMerge.Package

def openFile (t : FileTree) (p : Path) : Except Failure Package :=
  match t.read p with
  | .ok bs => ofBytes p.text bs
  | .error f =>
    .error (.report ((Report.plain .templateLoad ("Cannot read template: " ++ p.text)).because f []))

def saveBytes (t : FileTree) (p : Path) (bs : Bytes) : Except Report FileTree :=
  match t.write p bs with
  | .ok t => .ok t
  | .error f =>
    .error ((Report.plain .serialization ("Cannot write output: " ++ p.text)).because f [])

def save (package : Package) (t : FileTree) (p : Path) : Except Report FileTree :=
  saveBytes t p package.toBytes

end DeckMerge.Package
