import DeckMerge.Text.Utf8

/-!
Entries of a container: a name, a moment, how the content is kept, the attributes and the system they
are of, and the content.
-/

namespace DeckMerge.Zip

/-- A date and a time of day in steps of two seconds, packed into words. -/
structure Moment where
  date : UInt16
  time : UInt16
deriving DecidableEq

namespace Moment

def of (year month day hour minute second : Nat) : Moment :=
  ⟨((year - 1980) * 512 + month * 32 + day).toUInt16,
    (hour * 2048 + minute * 32 + second / 2).toUInt16⟩

/-- Year, month, day, hour, minute and second. -/
def fields (m : Moment) : List Nat :=
  let (d, t) := (m.date.toNat, m.time.toNat)
  [d / 512 + 1980, d / 32 % 16, d % 32, t / 2048, t / 32 % 64, t % 32 * 2]

def first : Moment := .of 1980 1 1 0 0 0

end Moment

inductive Method
  | stored
  | deflated
deriving DecidableEq

structure Entry where
  name : Text
  moment : Moment
  method : Method
  attributes : UInt32
  system : UInt8
  content : Bytes
deriving DecidableEq

end DeckMerge.Zip
