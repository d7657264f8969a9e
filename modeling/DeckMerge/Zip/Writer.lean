import DeckMerge.Zip.Checksum
import DeckMerge.Zip.Deflate
import DeckMerge.Zip.Layout

/-!
Writing containers: entries in order, then the directory, without comments and further fields.
-/

namespace DeckMerge.Zip

-- The powers of the core library, whatever else is in scope.
attribute [local instance (high)] instPowNat

/-- The version that is needed to read what is written here. -/
def version : UInt8 := 20

def Method.pack : Method → Bytes → Bytes
  | .stored, bs => bs
  | .deflated, bs => deflate bs

namespace Entry

/-- The name as it is written, which ends before a null character. -/
def writtenName (e : Entry) : Text := e.name.takeWhile fun c => c.toNat != 0

def nameBytes (e : Entry) : Bytes := Text.utf8 e.writtenName

def packed (e : Entry) : Bytes := e.method.pack e.content

def flags (e : Entry) : Nat :=
  if e.writtenName.all fun c => c.toNat < 0x80 then 0 else 2 ^ utf8Flag

/-- Attributes of zero are written as those of a file for its owner. -/
def writtenAttributes (e : Entry) : UInt32 :=
  if e.attributes = 0 then (0o600 : UInt32) <<< 16 else e.attributes

def summary (e : Entry) : Bytes :=
  littleEndian 2 e.flags ++ littleEndian 2 e.method.number ++ littleEndian 2 e.moment.time.toNat
    ++ littleEndian 2 e.moment.date.toNat ++ littleEndian 4 (checksum e.content).toNat
    ++ littleEndian 4 e.packed.length ++ littleEndian 4 e.content.length
    ++ littleEndian 2 e.nameBytes.length ++ littleEndian 2 0

def localRecord (e : Entry) : Bytes :=
  localMark ++ [version, 0] ++ e.summary ++ e.nameBytes ++ e.packed

def directoryRecord (e : Entry) (offset : Nat) : Bytes :=
  directoryMark ++ [version, e.system, version, 0] ++ e.summary ++ littleEndian 6 0
    ++ littleEndian 4 e.writtenAttributes.toNat ++ littleEndian 4 offset ++ e.nameBytes

end Entry

/-- The directory of entries whose first local record stands at an offset. -/
def directory : Nat → List Entry → Bytes
  | _, [] => []
  | offset, e :: es => e.directoryRecord offset ++ directory (offset + e.localRecord.length) es

def write (es : List Entry) : Bytes :=
  let records := es.flatMap Entry.localRecord
  let directory := directory 0 es
  records ++ directory ++ endMark ++ littleEndian 4 0 ++ littleEndian 2 es.length
    ++ littleEndian 2 es.length ++ littleEndian 4 directory.length
    ++ littleEndian 4 records.length ++ littleEndian 2 0

end DeckMerge.Zip
