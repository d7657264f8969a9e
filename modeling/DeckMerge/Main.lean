import DeckMerge.CommandLine.Run
import Std.Time.Format
import Std.Time.Zoned

/-!
The program: it reads the files that its arguments are about, runs their command, writes the files that
are new or changed, and prints the lines.
-/

namespace DeckMerge

/-- A tree with what is found at a path. -/
def loadPath (files : FileTree) (p : Path) : IO FileTree := do
  let name := String.ofList p.text
  try return files.put p (← IO.FS.readBinFile name).toList
  catch _ =>
    try
      if ← (← IO.FS.realPath name).isDir then return { files with folders := p :: files.folders }
      else return files
    catch _ => return files

def loadPaths (ps : List Path) : IO FileTree :=
  (ps.flatMap fun p => p.ancestors ++ [p]).foldlM loadPath .empty

/-- Makes the folders and writes the files that a tree has and another lacks. -/
def storeChanges (before after : FileTree) : IO Unit := do
  for p in after.folders.filter fun p => !before.isFolder p do
    IO.FS.createDirAll (String.ofList p.text)
  for (p, bs) in after.files.filter fun (p, bs) => before.files.lookup p ≠ some bs do
    IO.FS.createDirAll (String.ofList p.parent.text)
    IO.FS.writeBinFile (String.ofList p.text) ⟨bs.toArray⟩

def printLine (l : CommandLine.Line) : IO Unit :=
  if l.isError then IO.eprintln (String.ofList l.text) else IO.println (String.ofList l.text)

/-- The moment with microseconds, as events note it. -/
def moment : IO Text := do
  return ((← Std.Time.PlainDateTime.now).format "uuuu-MM-dd'T'HH:mm:ss.SSSSSS").toList

end DeckMerge

open DeckMerge in
def main (args : List String) : IO UInt32 := do
  let args := args.map String.toList
  let files ← loadPaths (CommandLine.pathsOf args)
  match CommandLine.run (← moment) files args with
  | .help =>
    IO.print (String.ofList CommandLine.usage)
    return 0
  | .misuse =>
    IO.eprint (String.ofList CommandLine.usage)
    return 2
  | .ran s =>
    storeChanges files s.files
    s.lines.forM printLine
    match s.ending with
    | .exit code => return code.toUInt32
    | .crash _ =>
      IO.eprintln "The command could not be completed."
      return 1
