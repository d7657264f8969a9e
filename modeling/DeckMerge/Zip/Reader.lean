import DeckMerge.Report
import DeckMerge.Zip.Checksum
import DeckMerge.Zip.CodePage
import DeckMerge.Zip.Inflate
import DeckMerge.Zip.Layout

/-!
Reading containers. The end record is looked for at the end and before a comment; other data may stand
before the first entry. What the directory says about an entry has to agree with its local record and
with its data.
-/

namespace DeckMerge.Zip

-- The powers of the core library, whatever else is in scope.
attribute [local instance (high)] instPowNat

structure Listing where
  /-- The name with all that follows a null character in it. -/
  fullName : Text
  moment : Moment
  method : Nat
  flags : Nat
  checksum : Nat
  packedSize : Nat
  size : Nat
  attributes : UInt32
  system : UInt8
  /-- Where the local record stands. -/
  offset : Int
deriving DecidableEq

def Listing.name (l : Listing) : Text := l.fullName.takeWhile fun c => c.toNat != 0

def decodeName (flags : Nat) (bs : Bytes) : Except Fault Text :=
  if flags.testBit utf8Flag then
    match Text.ofUtf8? bs with
    | some s => .ok s
    | none => .error .notUtf8
  else .ok (ofCodePage bs)

/-- Whether further fields fill their place. -/
def fieldsFit (bs : Bytes) : Bool :=
  if bs.length < 4 then true
  else
    let size := 4 + field bs 2 2
    size ≤ bs.length && fieldsFit (bs.drop size)
termination_by bs.length
decreasing_by simp only [List.length_drop]; omega

def newestVersion : Nat := 63

/-- One record of the directory and how many octets it takes; places count from a start. -/
def readListing (start : Int) (bs : Bytes) : Except Fault (Listing × Nat) := do
  let record := bs.take directorySize
  if record.length ≠ directorySize ∨ record.take 4 ≠ directoryMark then .error .badContainer
  let (nameSize, extraSize, commentSize) := (field record 28 2, field record 30 2, field record 32 2)
  let flags := field record 8 2
  let name ← decodeName flags ((bs.drop directorySize).take nameSize)
  if newestVersion < field record 6 1 then .error .unsupported
  if !fieldsFit ((bs.drop (directorySize + nameSize)).take extraSize) then .error .badContainer
  return ({
      fullName := name
      moment := ⟨(field record 14 2).toUInt16, (field record 12 2).toUInt16⟩
      method := field record 10 2
      flags := flags
      checksum := field record 16 4
      packedSize := field record 20 4
      size := field record 24 4
      attributes := (field record 38 4).toUInt32
      system := (field record 5 1).toUInt8
      offset := start + field record 42 4 },
    directorySize + nameSize + extraSize + commentSize)

def readDirectory (start : Int) (size : Nat) (bs : Bytes) : Except Fault (List Listing) :=
  if size = 0 then .ok []
  else
    match readListing start bs with
    | .error f => .error f
    | .ok (l, n) => do
      return l :: (← readDirectory start (size - max n 1) (bs.drop n))
termination_by size
decreasing_by omega

/-- The place of the last occurrence of a mark. -/
def lastPlace? (mark : Bytes) : Bytes → Option Nat
  | [] => none
  | b :: bs =>
    match lastPlace? mark bs with
    | some n => some (n + 1)
    | none => if mark.isPrefixOf (b :: bs) then some 0 else none

/-- A comment is no longer than this. -/
def maxComment : Nat := 2 ^ (16 : Nat) - 1

def endPlace (bs : Bytes) : Except Fault Nat :=
  let last := bs.drop (bs.length - endSize)
  if last.length = endSize ∧ last.take 4 = endMark ∧ last.drop 20 = [0, 0] then
    .ok (bs.length - endSize)
  else
    let start := bs.length - (endSize + maxComment)
    match lastPlace? endMark (bs.drop start) with
    | some n => if start + n + endSize ≤ bs.length then .ok (start + n) else .error .badContainer
    | none => .error .badContainer

/-- The entries that stand after a local record at a place, or the directory, whichever is next. -/
def limit (directoryPlace : Int) (ls : List Listing) (offset : Int) : Int :=
  (ls.filterMap fun l => if offset < l.offset then some l.offset else none).foldl min directoryPlace

/-- Takes the content out of packed data that may have been cut off. -/
def unpack (l : Listing) (data : Bytes) : Except Fault Bytes := do
  if l.packedSize ≠ 0 ∧ data = [] then .error .endOfData
  let (content, isWhole) ← match l.method with
    | 0 => pure (data, false)
    | 8 => match inflate data with
      | (_, some .corrupt) => .error .corruptData
      | (content, halt) => pure (content, halt.isNone)
    | _ => .error .unsupported
  let content := content.take l.size
  if data.length = l.packedSize ∨ isWhole ∨ l.size ≤ content.length then
    if (checksum content).toNat = l.checksum then return content else .error .badContainer
  else .error .endOfData

def readContent (bs : Bytes) (limit : Int) (l : Listing) : Except Fault Bytes := do
  if l.offset < 0 then .error .badValue
  let rest := bs.drop l.offset.toNat
  let record := rest.take localSize
  if record.length ≠ localSize ∨ record.take 4 ≠ localMark then .error .badContainer
  if l.flags.testBit 5 ∨ l.flags.testBit 6 then .error .unsupported
  let (nameSize, extraSize) := (field record 26 2, field record 28 2)
  let name ← decodeName (field record 6 2) ((rest.drop localSize).take nameSize)
  if name ≠ l.fullName then .error .badContainer
  let start := localSize + min nameSize (rest.length - localSize) + extraSize
  if limit < l.offset + start + l.packedSize then .error .badContainer
  if l.flags.testBit 0 then .error .encrypted
  unpack l ((rest.drop start).take l.packedSize)

def readEntry (bs : Bytes) (limit : Int) (l : Listing) : Except Fault Entry := do
  let content ← readContent bs limit l
  return ⟨l.name, l.moment, if l.method = 0 then .stored else .deflated, l.attributes, l.system,
    content⟩

/-- The entries of a container, in the order of its directory. -/
def read (bs : Bytes) : Except Fault (List Entry) := do
  let place ← endPlace bs
  let record := bs.drop place
  let (size, offset) := (field record 12 4, field record 16 4)
  if place < size then .error .badContainer
  let start := place - size
  let listings ← readDirectory ((start : Int) - offset) size (bs.drop start)
  listings.mapM fun l => readEntry bs (limit start listings l.offset) l

end DeckMerge.Zip
