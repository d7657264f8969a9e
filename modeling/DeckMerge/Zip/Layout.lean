import DeckMerge.Zip.Bits
import DeckMerge.Zip.Entry

/-!
The records of a container. Each entry has a local record before its data; the directory repeats them
with the places they stand at, and the end record says where the directory is.
-/

namespace DeckMerge.Zip

def localMark : Bytes := [0x50, 0x4b, 3, 4]

def directoryMark : Bytes := [0x50, 0x4b, 1, 2]

def endMark : Bytes := [0x50, 0x4b, 5, 6]

def localSize : Nat := 30

def directorySize : Nat := 46

def endSize : Nat := 22

def utf8Flag : Nat := 11

def Method.number : Method → Nat
  | .stored => 0
  | .deflated => 8

/-- The number in a record that starts at an offset. -/
def field (record : Bytes) (offset width : Nat) : Nat := ofLittleEndian ((record.drop offset).take width)

end DeckMerge.Zip
