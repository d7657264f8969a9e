import DeckMerge.Zip.Huffman

/-!
Reading compressed data: blocks of octets as they are, or of symbols that stand for an octet or for a
stretch of what was read before.
-/

namespace DeckMerge.Zip

-- The powers of the core library, whatever else is in scope.
attribute [local instance (high)] instPowNat

/-- What has been read so far, and what is left unless reading had to stop. -/
abbrev Inflation := Array UInt8 × Except Halt Bits

/-- The least length of each length symbol, counted from 257, and its count of further bits. -/
def lengthSymbols : List (Nat × Nat) :=
  [(3, 0), (4, 0), (5, 0), (6, 0), (7, 0), (8, 0), (9, 0), (10, 0), (11, 1), (13, 1), (15, 1),
   (17, 1), (19, 2), (23, 2), (27, 2), (31, 2), (35, 3), (43, 3), (51, 3), (59, 3), (67, 4), (83, 4),
   (99, 4), (115, 4), (131, 5), (163, 5), (195, 5), (227, 5), (258, 0)]

/-- The least distance of each distance symbol and its count of further bits. -/
def distanceSymbols : List (Nat × Nat) :=
  [(1, 0), (2, 0), (3, 0), (4, 0)] ++ (List.range 13).flatMap fun i =>
    let width := i + 1
    [(2 ^ (width + 1) + 1, width), (3 * 2 ^ width + 1, width)]

def readNumber (width : Nat) (bs : Bits) : Except Halt (Nat × Bits) :=
  match bs.read? width with
  | some r => .ok r
  | none => .error .ended

/-- The amount that a symbol and the bits after it stand for. -/
def readAmount (symbols : List (Nat × Nat)) (symbol : Nat) (bs : Bits) : Except Halt (Nat × Bits) :=
  match symbols[symbol]? with
  | none => .error .corrupt
  | some (least, width) => do
    let (n, bs) ← readNumber width bs
    return (least + n, bs)

/-- Repeats what stands at a distance from the end. -/
def copyBack (distance : Nat) : Nat → Array UInt8 → Array UInt8
  | 0, out => out
  | n + 1, out =>
    match out[out.size - distance]? with
    | some b => copyBack distance n (out.push b)
    | none => out

/-- The number of the symbol at the end of a block. -/
def endOfBlock : Nat := 256

inductive Symbol
  | octet (b : UInt8)
  | copy (length distance : Nat)
  | stop

def readSymbol (lengths distances : Code) (bs : Bits) : Except Halt (Symbol × Bits) := do
  let (symbol, bs) ← lengths.read bs
  if symbol < endOfBlock then return (.octet symbol.toUInt8, bs)
  if symbol = endOfBlock then return (.stop, bs)
  let (length, bs) ← readAmount lengthSymbols (symbol - 257) bs
  let (symbol, bs) ← distances.read bs
  let (distance, bs) ← readAmount distanceSymbols symbol bs
  return (.copy length distance, bs)

def inflateSymbols (lengths distances : Code) : Nat → Array UInt8 → Bits → Inflation
  | 0, out, _ => (out, .error .ended)
  | fuel + 1, out, bs =>
    match readSymbol lengths distances bs with
    | .error h => (out, .error h)
    | .ok (.stop, bs) => (out, .ok bs)
    | .ok (.octet b, bs) => inflateSymbols lengths distances fuel (out.push b) bs
    | .ok (.copy length distance, bs) =>
      if out.size < distance then (out, .error .corrupt)
      else inflateSymbols lengths distances fuel (copyBack distance length out) bs

/-- A block of octets, from the next whole octet on: their count, its complement, and they. -/
def inflateStored (out : Array UInt8) (bs : Bits) : Inflation :=
  match Bits.read? 32 (bs.drop (bs.length % 8)) with
  | none => (out, .error .ended)
  | some (n, bs) =>
    let length := n % 2 ^ (16 : Nat)
    if length + n / 2 ^ (16 : Nat) ≠ 2 ^ (16 : Nat) - 1 then (out, .error .corrupt)
    else
      let content : Bits := bs.take (8 * length)
      (out ++ content.toBytes.toArray,
        if content.length < 8 * length then .error .ended else .ok (bs.drop (8 * length)))

def fixedLengths : List Nat :=
  List.replicate 144 8 ++ List.replicate 112 9 ++ List.replicate 24 7 ++ List.replicate 8 8

def fixedCode : Code := (Code.ofLengths false fixedLengths).getD .empty

def fixedDistances : Code := (Code.ofLengths false (List.replicate 32 5)).getD .empty

/-- The order in which the lengths of the code for lengths are given. -/
def lengthOrder : List Nat := [16, 17, 18, 0, 8, 7, 9, 6, 10, 5, 11, 4, 12, 3, 13, 2, 14, 1, 15]

/-- Numbers of three bits each. -/
def readWidths : Nat → Bits → Except Halt (List Nat × Bits)
  | 0, bs => .ok ([], bs)
  | n + 1, bs => do
    let (width, bs) ← readNumber 3 bs
    let (widths, bs) ← readWidths n bs
    return (width :: widths, bs)

/-- Lengths of words, where symbols from 16 on repeat the last one or zero. -/
def readLengths (code : Code) (count : Nat) : Nat → List Nat → Bits → Except Halt (List Nat × Bits)
  | 0, _, _ => .error .ended
  | fuel + 1, lengths, bs =>
    if count ≤ lengths.length then
      if lengths.length = count then .ok (lengths, bs) else .error .corrupt
    else do
      let (symbol, bs) ← code.read bs
      if symbol < 16 then readLengths code count fuel (lengths ++ [symbol]) bs
      else
        let (width, least) := match symbol with
          | 16 => (2, 3)
          | 17 => (3, 3)
          | _ => (7, 11)
        let (n, bs) ← readNumber width bs
        let length ← if symbol = 16 then
            match lengths.getLast? with
            | some length => pure length
            | none => .error .corrupt
          else pure 0
        readLengths code count fuel (lengths ++ List.replicate (least + n) length) bs

def orCorrupt {α : Type} : Option α → Except Halt α
  | some a => .ok a
  | none => .error .corrupt

def readCodes (bs : Bits) : Except Halt (Code × Code × Bits) := do
  let (a, bs) ← readNumber 5 bs
  let (b, bs) ← readNumber 5 bs
  let (c, bs) ← readNumber 4 bs
  if 29 < a ∨ 29 < b then .error .corrupt
  let (widths, bs) ← readWidths (c + 4) bs
  let given := lengthOrder.zip widths
  let code ← orCorrupt (Code.ofLengths false ((List.range 19).map fun i => (given.lookup i).getD 0))
  let (lengths, bs) ← readLengths code (a + b + 258) (bs.length + 1) [] bs
  if lengths[endOfBlock]?.getD 0 = 0 then .error .corrupt
  let first ← orCorrupt (Code.ofLengths true (lengths.take (a + 257)))
  let second ← orCorrupt (Code.ofLengths true (lengths.drop (a + 257)))
  return (first, second, bs)

def inflateBlock (kind : Nat) (out : Array UInt8) (bs : Bits) : Inflation :=
  match kind with
  | 0 => inflateStored out bs
  | 1 => inflateSymbols fixedCode fixedDistances (bs.length + 1) out bs
  | 2 => match readCodes bs with
    | .ok (lengths, distances, bs) => inflateSymbols lengths distances (bs.length + 1) out bs
    | .error h => (out, .error h)
  | _ => (out, .error .corrupt)

def inflateBlocks : Nat → Array UInt8 → Bits → Inflation
  | 0, out, _ => (out, .error .ended)
  | fuel + 1, out, bs =>
    match bs.read? 3 with
    | none => (out, .error .ended)
    | some (n, bs) =>
      match inflateBlock (n / 2) out bs with
      | (out, .ok bs) => if n % 2 = 1 then (out, .ok bs) else inflateBlocks fuel out bs
      | r => r

/-- The content of compressed data as far as it goes, and why it was not read to its end. -/
def inflate (bs : Bytes) : Bytes × Option Halt :=
  let bits := Bits.ofBytes bs
  match inflateBlocks (bits.length + 1) #[] bits with
  | (out, .error h) => (out.toList, some h)
  | (out, .ok _) => (out.toList, none)

end DeckMerge.Zip
