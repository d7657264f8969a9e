import DeckMerge.Proofs.Zip.Bits
import DeckMerge.Zip.Deflate
import DeckMerge.Zip.Inflate

/-!
Compressed data reads back: the fixed code gives every octet back from its word, whatever follows.
-/

namespace DeckMerge.Zip

/-- Reading a word does not look at what is behind it. -/
theorem Code.read_append {c : Code} {w rest : Bits} {symbol : Nat} (h : c.read w = .ok (symbol, [])) :
    c.read (w ++ rest) = .ok (symbol, rest) := by
  induction c generalizing w with
  | empty => simp [Code.read] at h
  | leaf s =>
    obtain ⟨rfl, rfl⟩ : s = symbol ∧ w = [] := by simpa [Code.read] using h
    rfl
  | node zero one ihzero ihone =>
    cases w with
    | nil => simp [Code.read] at h
    | cons b w => cases b <;> simp_all [Code.read]

/-- A code that gives octets and the end back from their fixed words. -/
structure ReadsFixed (c : Code) : Prop where
  word : ∀ b rest, c.read (fixedWord b ++ rest) = .ok (b.toNat, rest)
  ending : ∀ rest, c.read (List.replicate 7 false ++ rest) = .ok (endOfBlock, rest)

theorem ReadsFixed.readSymbol_word {c : Code} (hc : ReadsFixed c) (distances : Code) (b : UInt8)
    (rest : Bits) : readSymbol c distances (fixedWord b ++ rest) = .ok (.octet b, rest) := by
  have hoctet : b.toNat < endOfBlock := b.toNat_lt
  rw [readSymbol, hc.word]
  simp [hoctet, Bind.bind, Except.bind, pure, Except.pure]

theorem ReadsFixed.readSymbol_ending {c : Code} (hc : ReadsFixed c) (distances : Code) (rest : Bits) :
    readSymbol c distances (List.replicate 7 false ++ rest) = .ok (.stop, rest) := by
  rw [readSymbol, hc.ending]
  rfl

theorem ReadsFixed.inflateSymbols {c : Code} (hc : ReadsFixed c) (distances : Code) {bs : Bytes}
    {fuel : Nat} (hfuel : bs.length < fuel) (out : Array UInt8) (rest : Bits) :
    Zip.inflateSymbols c distances fuel out
      (bs.flatMap fixedWord ++ (List.replicate 7 false ++ rest)) = (out ++ bs.toArray, .ok rest) := by
  induction bs generalizing fuel out with
  | nil =>
    cases fuel with
    | zero => simp at hfuel
    | succ fuel =>
      rw [List.flatMap_nil, List.nil_append, Zip.inflateSymbols, hc.readSymbol_ending]
      simp
  | cons b bs ih =>
    cases fuel with
    | zero => simp at hfuel
    | succ fuel =>
      rw [List.flatMap_cons, List.append_assoc, Zip.inflateSymbols, hc.readSymbol_word]
      simp only
      rw [ih (Nat.lt_of_succ_lt_succ hfuel)]
      simp

theorem readsFixed_fixedCode : ReadsFixed fixedCode where
  word := by
    have hall : ∀ n < 256, fixedCode.read (fixedWord n.toUInt8) = .ok (n, []) := by decide +kernel
    intro b rest
    apply Code.read_append
    simpa using hall b.toNat b.toNat_lt
  ending := by
    intro rest
    apply Code.read_append
    decide +kernel

/-- No word is shorter than an octet. -/
theorem length_flatMap_fixedWord (bs : Bytes) : 8 * bs.length ≤ (bs.flatMap fixedWord).length := by
  induction bs with
  | nil => simp
  | cons b bs ih =>
    have hword : 8 ≤ (fixedWord b).length := by
      rw [fixedWord]
      split <;> simp
    simp only [List.flatMap_cons, List.length_append, List.length_cons]
    omega

theorem length_le_length_deflate (bs : Bytes) : bs.length ≤ (deflate bs).length := by
  have hbits := Bits.length_le_length_toBytes
    ([true, true, false] ++ bs.flatMap fixedWord ++ List.replicate 7 false)
  have := length_flatMap_fixedWord bs
  rw [← deflate] at hbits
  simp only [List.length_append] at hbits
  omega

theorem inflate_deflate (bs : Bytes) : inflate (deflate bs) = (bs, none) := by
  obtain ⟨k, hk⟩ := Bits.ofBytes_toBytes
    ([true, true, false] ++ bs.flatMap fixedWord ++ List.replicate 7 false)
  generalize hpad : List.replicate k false = pad at hk
  have hbits : Bits.ofBytes (deflate bs) =
      true :: true :: false :: (bs.flatMap fixedWord ++ (List.replicate 7 false ++ pad)) := by
    rw [deflate, hk]
    simp
  have hfuel : bs.length < (bs.flatMap fixedWord ++ (List.replicate 7 false ++ pad)).length + 1 := by
    have := length_flatMap_fixedWord bs
    simp only [List.length_append]
    omega
  have hmark : Bits.read? 3 (true :: true :: false ::
      (bs.flatMap fixedWord ++ (List.replicate 7 false ++ pad))) =
        some (3, bs.flatMap fixedWord ++ (List.replicate 7 false ++ pad)) := rfl
  have hblock := readsFixed_fixedCode.inflateSymbols fixedDistances hfuel #[] pad
  rw [inflate, hbits, inflateBlocks, hmark]
  simp only [inflateBlock]
  rw [hblock]
  simp

end DeckMerge.Zip
