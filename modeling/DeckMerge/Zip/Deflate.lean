import DeckMerge.Zip.Bits

/-!
Writing compressed data: one block in the fixed code, where each symbol stands for its octet.
-/

namespace DeckMerge.Zip

/-- The word of an octet in the fixed code: eight bits for the first 144, nine for the others. -/
def fixedWord (b : UInt8) : Bits :=
  if b < 144 then (Bits.ofNat 8 (0x30 + b.toNat)).reverse
  else (Bits.ofNat 9 (0x190 + (b.toNat - 144))).reverse

/-- The mark of a last block in the fixed code, the words of all octets, and the word of the end. -/
def deflate (bs : Bytes) : Bytes :=
  Bits.toBytes ([true, true, false] ++ bs.flatMap fixedWord ++ List.replicate 7 false)

end DeckMerge.Zip
