import DeckMerge.Text.Utf8

/-!
Octets as bits, the lowest first, and numbers in both.
-/

namespace DeckMerge.Zip

abbrev Bits := List Bool

/-- The lowest `width` bits of a number. -/
def Bits.ofNat (width n : Nat) : Bits := (List.range width).map n.testBit

def Bits.toNat : Bits → Nat
  | [] => 0
  | b :: bs => b.toNat + 2 * toNat bs

def Bits.ofBytes (bs : Bytes) : Bits := bs.flatMap fun b => Bits.ofNat 8 b.toNat

def Bits.octet (bs : Bits) : UInt8 := bs.toNat.toUInt8

/-- Octets of eight bits each; the last one is filled up with zeros. -/
def Bits.toBytes : Bits → Bytes
  | a :: b :: c :: d :: e :: f :: g :: h :: rest => octet [a, b, c, d, e, f, g, h] :: toBytes rest
  | [] => []
  | rest => [octet rest]

def Bits.read? (width : Nat) (bs : Bits) : Option (Nat × Bits) :=
  let front : Bits := bs.take width
  if front.length = width then some (front.toNat, bs.drop width) else none

/-- A number in a fixed count of octets, the lowest first. -/
def littleEndian : Nat → Nat → Bytes
  | 0, _ => []
  | width + 1, n => n.toUInt8 :: littleEndian width (n / 256)

def ofLittleEndian : Bytes → Nat
  | [] => 0
  | b :: bs => b.toNat + 256 * ofLittleEndian bs

end DeckMerge.Zip
