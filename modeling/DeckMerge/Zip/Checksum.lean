import DeckMerge.Text.Utf8

/-!
The cyclic checksum of 32 bits: the remainder of the octets, lowest bit first, by the polynomial
`0xedb88320`.
-/

namespace DeckMerge.Zip

def shiftRemainder (r : UInt32) : UInt32 :=
  if r &&& 1 = 1 then (r >>> 1) ^^^ 0xedb88320 else r >>> 1

/-- The remainder with one octet more. -/
def feed (r : UInt32) (b : UInt8) : UInt32 :=
  (List.range 8).foldl (fun r _ => shiftRemainder r) (r ^^^ b.toUInt32)

def checksum (bs : Bytes) : UInt32 := bs.foldl feed 0xffffffff ^^^ 0xffffffff

end DeckMerge.Zip
