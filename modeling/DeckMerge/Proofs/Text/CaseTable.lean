import DeckMerge.Text.Letter
import DeckMerge.Proofs.Association

/-!
What the case mappings do to single characters. What comes of lower case is left alone by it. A character whose
upper case is several characters long is not met again in the lower case of any upper case, but for the sharp s,
whose capital is an upper case of its own.
-/

namespace DeckMerge.Text

variable {c d : Char} {n m : Nat}

/-! ### Sets of numbers -/

/-- A union of sets of numbers, each of them held as the bits of one number. -/
def union {α : Type} (f : α → Nat) (xs : List α) : Nat := xs.foldr (fun x bits => f x ||| bits) 0

theorem testBit_union {α : Type} (f : α → Nat) (xs : List α) (n : Nat) :
    (union f xs).testBit n = xs.any fun x => (f x).testBit n := by
  induction xs with
  | nil => exact Nat.zero_testBit n
  | cons x xs ih => rw [List.any_cons, ← ih, ← Nat.testBit_or, union, List.foldr_cons, ← union]

/-- The set of these numbers. -/
def bitsOf (ns : List Nat) : Nat := union (1 <<< ·) ns

theorem testBit_bitsOf {ns : List Nat} : (bitsOf ns).testBit n ↔ n ∈ ns := by
  simp [bitsOf, testBit_union, Nat.one_shiftLeft, Nat.testBit_two_pow]

/-! ### Stretches -/

namespace CaseRange

variable {r : CaseRange} {ranges : List CaseRange}

/-- The numbers of the characters that are moved. -/
def numbers (r : CaseRange) : List Nat := List.range' r.first ((r.last - r.first) / r.step + 1) r.step

def moved (r : CaseRange) (n : Nat) : Nat := (n + r.offset).toNat

theorem map?_eq_some (h : r.map? n = some m) : n ∈ r.numbers ∧ m = r.moved n := by
  rw [map?] at h
  split at h
  case isFalse => cases h
  case isTrue hn =>
    obtain ⟨hfirst, hlast, hstep⟩ := hn
    refine ⟨List.mem_range'.2 ⟨(n - r.first) / r.step, ?_, ?_⟩, (Option.some.inj h).symm⟩
    · exact Nat.lt_succ_of_le (Nat.div_le_div_right (by omega))
    · have hdiv := Nat.div_add_mod (n - r.first) r.step
      omega

/-- What holds of all numbers of a table holds of those that are mapped. -/
theorem of_all_numbers (p : Nat → Nat → Bool) (h : ranges.all fun r => r.numbers.all fun n => p n (r.moved n))
    (hr : r ∈ ranges) (hm : r.map? n = some m) : p n m := by
  obtain ⟨hn, rfl⟩ := map?_eq_some hm
  exact List.all_eq_true.1 (List.all_eq_true.1 h r hr) n hn

end CaseRange

/-! ### Tables -/

/-- The characters whose upper case is several characters long. -/
def longNumbers : List Nat := upperExpansions.map (·.1)

def longBits : Nat := bitsOf longNumbers

/-- Those characters, the capital sharp s, and the capital i with a dot, whose lower case is two characters. -/
def oddNumbers : List Nat := 0x130 :: 0x1e9e :: longNumbers

def oddBits : Nat := bitsOf oddNumbers

/-- The characters that lower case moves. -/
def loweredBits : Nat := union (fun r => bitsOf r.numbers) lowerRanges

-- With sets a table is gone through once; to compare each stretch with all others takes too long to check.
theorem lowerRanges_small : lowerRanges.all fun r => r.numbers.all fun n =>
    !loweredBits.testBit (r.moved n) && r.moved n != 0x130 := by
  decide +kernel

theorem lowerRanges_long : lowerRanges.all fun r => r.numbers.all fun n =>
    longBits.testBit n == longBits.testBit (r.moved n) || n == 0x1e9e := by
  decide +kernel

/-- But for the capital sharp s, a long character is moved to a long one, and another one to another one. -/
theorem moved_long {r : CaseRange} (hr : r ∈ lowerRanges) (hm : r.map? n = some m) :
    (n ∈ longNumbers ↔ m ∈ longNumbers) ∨ n = 0x1e9e := by
  have hlong := CaseRange.of_all_numbers (fun n m => longBits.testBit n == longBits.testBit m || n == 0x1e9e)
    lowerRanges_long hr hm
  rwa [Bool.or_eq_true, beq_iff_eq, beq_iff_eq, Bool.eq_iff_iff, longBits, testBit_bitsOf, testBit_bitsOf] at hlong

theorem upperRanges_odd : upperRanges.all fun r => r.numbers.all fun n => !oddBits.testBit (r.moved n) := by
  decide +kernel

theorem upperExpansions_odd : upperExpansions.all fun f => f.2.all fun m => !oddBits.testBit m := by decide

theorem of_lookup_lowerExpansions {ns : List Nat} (h : lowerExpansions.lookup n = some ns) :
    n = 0x130 ∧ ns = [0x69, 0x307] := by
  have hmem := Association.mem_of_lookup_eq_some h
  simpa only [lowerExpansions, List.mem_singleton, Prod.mk.injEq] using hmem

theorem ascii_lt_longNumbers : ∀ e ∈ longNumbers, 0x80 ≤ e := by decide

/-! ### Characters -/

/-- How a character is mapped: to several, to another one, or to itself. -/
inductive Mapped (ranges : List CaseRange) (expansions : List (Nat × List Nat)) (c : Char) : Text → Prop
  | expanded {ns : List Nat} : expansions.lookup c.toNat = some ns → Mapped ranges expansions c (ns.map Char.ofNat)
  | moved {r : CaseRange} {m : Nat} : expansions.lookup c.toNat = none → r ∈ ranges → r.map? c.toNat = some m →
    Mapped ranges expansions c [Char.ofNat m]
  | kept : expansions.lookup c.toNat = none → (∀ r ∈ ranges, r.map? c.toNat = none) → Mapped ranges expansions c [c]

theorem mapped_mapCase (ranges : List CaseRange) (expansions : List (Nat × List Nat)) (c : Char) :
    Mapped ranges expansions c (mapCase ranges expansions c) := by
  rw [mapCase]
  cases hlookup : expansions.lookup c.toNat with
  | some ns => exact .expanded hlookup
  | none =>
    cases hfind : ranges.findSome? (·.map? c.toNat) with
    | none => exact .kept hlookup (List.findSome?_eq_none_iff.1 hfind)
    | some m =>
      obtain ⟨r, hr, hm⟩ := List.exists_of_findSome?_eq_some hfind
      exact .moved hlookup hr hm

theorem mapped_lowerChar (hc : 0x80 ≤ c.toNat) : Mapped lowerRanges lowerExpansions c (lowerChar c) := by
  rw [lowerChar, if_neg (by omega)]
  exact mapped_mapCase _ _ c

theorem mapped_upperChar (hc : 0x80 ≤ c.toNat) : Mapped upperRanges upperExpansions c (upperChar c) := by
  rw [upperChar, if_neg (by omega)]
  exact mapped_mapCase _ _ c

/-- What holds of the first characters holds of each that has one of their numbers. -/
theorem forall_ascii {p : Char → Prop} (h : ∀ n < 128, p (Char.ofNat n)) (hc : c.toNat < 0x80) : p c := by
  simpa using h c.toNat hc

/-- A character made of a number has that number, or is the first of all. -/
theorem toNat_ofNat_or (n : Nat) : (Char.ofNat n).toNat = n ∨ Char.ofNat n = '\x00' := by
  by_cases h : n.isValidChar
  · left
    rw [Char.ofNat, dif_pos h]
    rfl
  · right
    rw [Char.ofNat, dif_neg h]
    rfl

/-! ### Lower case -/

/-- A character that is its own lower case wherever it stands. -/
def isSmall (c : Char) : Bool := lowerChar c == [c] && c != 'Σ'

theorem isSmall_iff : isSmall c ↔ lowerChar c = [c] ∧ c ≠ 'Σ' := by
  rw [isSmall, Bool.and_eq_true, beq_iff_eq, bne_iff_ne]

theorem isSmall_of_map?_eq_none (h : ∀ r ∈ lowerRanges, r.map? c.toNat = none) (hdotted : c.toNat ≠ 0x130) :
    isSmall c := by
  rw [isSmall_iff]
  constructor
  · by_cases hc : c.toNat < 0x80
    · have hcapital : c.toNat < 0x41 ∨ 0x5a < c.toNat := by
        have hfirst := h ⟨0x41, 0x5a, 1, 32⟩ List.mem_cons_self
        simp only [CaseRange.map?, Nat.mod_one, and_true] at hfirst
        by_contra hn
        rw [if_pos (by omega)] at hfirst
        cases hfirst
      revert hcapital
      refine forall_ascii (p := fun c => c.toNat < 0x41 ∨ 0x5a < c.toNat → lowerChar c = [c]) ?_ hc
      decide
    · have hmapped := mapped_lowerChar (c := c) (by omega)
      generalize lowerChar c = t at hmapped
      cases hmapped with
      | expanded hlookup => exact absurd (of_lookup_lowerExpansions hlookup).1 hdotted
      | moved _ hr hm => cases (h _ hr).symm.trans hm
      | kept => rfl
  · rintro rfl
    have hsigma : ∃ r ∈ lowerRanges, r.map? 'Σ'.toNat ≠ none := by decide
    obtain ⟨r, hr, hmoved⟩ := hsigma
    exact hmoved (h r hr)

/-- A character that a stretch is moved to is small. -/
theorem isSmall_ofNat {r : CaseRange} (hr : r ∈ lowerRanges) (hm : r.map? n = some m) : isSmall (Char.ofNat m) := by
  have hsmall := CaseRange.of_all_numbers (fun _ m => !loweredBits.testBit m && m != 0x130) lowerRanges_small hr hm
  simp only [Bool.and_eq_true, Bool.not_eq_true', bne_iff_ne] at hsmall
  rcases toNat_ofNat_or m with hvalid | hzero
  · rw [← hvalid] at hsmall
    refine isSmall_of_map?_eq_none (fun q hq => ?_) hsmall.2
    rw [Option.eq_none_iff_forall_ne_some]
    intro k hk
    have hlowered : loweredBits.testBit (Char.ofNat m).toNat := by
      rw [loweredBits, testBit_union]
      exact List.any_eq_true.2 ⟨q, hq, testBit_bitsOf.2 (CaseRange.map?_eq_some hk).1⟩
    exact absurd hlowered (by simp [hsmall.1])
  · rw [hzero]
    decide

/-- What comes of lower case is small. -/
theorem isSmall_of_mem_lowerChar (h : d ∈ lowerChar c) : isSmall d := by
  by_cases hc : c.toNat < 0x80
  · have hascii : ∀ n < 128, (lowerChar (Char.ofNat n)).all isSmall := by decide
    exact List.all_eq_true.1 (forall_ascii (p := fun c => (lowerChar c).all isSmall) hascii hc) d h
  · have hmapped := mapped_lowerChar (c := c) (by omega)
    generalize lowerChar c = t at h hmapped
    cases hmapped with
    | expanded hlookup =>
      rw [(of_lookup_lowerExpansions hlookup).2] at h
      have hall : ([0x69, 0x307].map Char.ofNat).all isSmall := by decide
      exact List.all_eq_true.1 hall d h
    | moved _ hr hm => exact List.mem_singleton.1 h ▸ isSmall_ofNat hr hm
    | kept hlookup hnone =>
      obtain rfl := List.mem_singleton.1 h
      refine isSmall_of_map?_eq_none hnone fun hdotted => ?_
      rw [hdotted] at hlookup
      cases hlookup

/-! ### Long characters -/

/-- The upper case of this character is several characters long. -/
def isLong (c : Char) : Bool := longBits.testBit c.toNat

theorem isLong_iff : isLong c ↔ c.toNat ∈ longNumbers := testBit_bitsOf

theorem not_isLong_of_ascii (hc : c.toNat < 0x80) : ¬ isLong c := fun h =>
  Nat.not_lt.2 (ascii_lt_longNumbers _ (isLong_iff.1 h)) hc

theorem exists_upperChar_eq (h : ¬ isLong c) : ∃ d, upperChar c = [d] := by
  by_cases hc : c.toNat < 0x80
  · exact ⟨_, if_pos hc⟩
  · have hmapped := mapped_upperChar (c := c) (by omega)
    generalize upperChar c = t at hmapped
    cases hmapped with
    | expanded hlookup =>
      have hmem := List.mem_map_of_mem (f := (·.1)) (Association.mem_of_lookup_eq_some hlookup)
      exact absurd (isLong_iff.2 hmem) h
    | moved => exact ⟨_, rfl⟩
    | kept => exact ⟨_, rfl⟩

theorem exists_lowerChar_eq (h : c.toNat ≠ 0x130) : ∃ d, lowerChar c = [d] := by
  by_cases hc : c.toNat < 0x80
  · exact ⟨_, if_pos hc⟩
  · have hmapped := mapped_lowerChar (c := c) (by omega)
    generalize lowerChar c = t at hmapped
    cases hmapped with
    | expanded hlookup => exact absurd (of_lookup_lowerExpansions hlookup).1 h
    | moved => exact ⟨_, rfl⟩
    | kept => exact ⟨_, rfl⟩

theorem toNat_ofNat_notMem (h : !oddBits.testBit n) : (Char.ofNat n).toNat ∉ oddNumbers := by
  rcases toNat_ofNat_or n with hvalid | hzero
  · intro hodd
    rw [hvalid, ← testBit_bitsOf, ← oddBits] at hodd
    simp [hodd] at h
  · rw [hzero]
    decide

/-- A character is its own upper case, or that is none of the odd characters. -/
theorem upperChar_odd (c : Char) : upperChar c = [c] ∨ ∀ d ∈ upperChar c, d.toNat ∉ oddNumbers := by
  by_cases hc : c.toNat < 0x80
  · right
    have hall : ∀ e ∈ oddNumbers, 0x80 ≤ e := by decide
    have hascii : ∀ n < 128, (Char.ofNat n).toUpper.toNat < 0x80 := by decide
    have hupper := forall_ascii (p := fun c => c.toUpper.toNat < 0x80) hascii hc
    rw [upperChar, if_pos hc]
    refine List.forall_mem_singleton.2 fun hodd => absurd (hall _ hodd) (by omega)
  · have hmapped := mapped_upperChar (c := c) (by omega)
    generalize upperChar c = t at hmapped
    cases hmapped with
    | expanded hlookup =>
      right
      intro d hd
      obtain ⟨m, hm, rfl⟩ := List.mem_map.1 hd
      have hplain := List.all_eq_true.1 upperExpansions_odd _ (Association.mem_of_lookup_eq_some hlookup)
      exact toNat_ofNat_notMem (List.all_eq_true.1 hplain m hm)
    | moved _ hr hm =>
      right
      have hodd := CaseRange.of_all_numbers (fun _ m => !oddBits.testBit m) upperRanges_odd hr hm
      exact List.forall_mem_singleton.2 (toNat_ofNat_notMem hodd)
    | kept => exact .inl rfl

/-- The lower case of a long character is long. -/
theorem exists_isLong_lowerChar (h : isLong c) : ∃ d, lowerChar c = [d] ∧ isLong d := by
  have hc : 0x80 ≤ c.toNat := Nat.le_of_not_lt fun hc => not_isLong_of_ascii hc h
  have hmapped := mapped_lowerChar hc
  generalize lowerChar c = t at hmapped
  cases hmapped with
  | expanded hlookup =>
    have hdotted : 0x130 ∉ longNumbers := by decide
    exact absurd ((of_lookup_lowerExpansions hlookup).1 ▸ isLong_iff.1 h) hdotted
  | @moved r m _ hr hm =>
    have hlong := moved_long hr hm
    have hsharp : 0x1e9e ∉ longNumbers := by decide
    have hmem := (hlong.resolve_right fun hc => hsharp (hc ▸ isLong_iff.1 h)).1 (isLong_iff.1 h)
    have hvalid : ∀ e ∈ longNumbers, (Char.ofNat e).toNat = e := by decide
    exact ⟨_, rfl, isLong_iff.2 (by rwa [hvalid m hmem])⟩
  | kept => exact ⟨c, rfl, h⟩

/-- A long character is the lower case of long ones and of the capital sharp s only. -/
theorem isLong_of_mem_lowerChar (h : d ∈ lowerChar c) (hd : isLong d) : isLong c ∨ c.toNat = 0x1e9e := by
  by_cases hc : c.toNat < 0x80
  · have hascii : ∀ n < 128, (Char.ofNat n).toLower.toNat < 0x80 := by decide
    have hlower := forall_ascii (p := fun c => c.toLower.toNat < 0x80) hascii hc
    rw [lowerChar, if_pos hc, List.mem_singleton] at h
    exact absurd hd (not_isLong_of_ascii (h ▸ hlower))
  · have hmapped := mapped_lowerChar (c := c) (by omega)
    generalize lowerChar c = t at h hmapped
    cases hmapped with
    | expanded hlookup =>
      rw [(of_lookup_lowerExpansions hlookup).2] at h
      have hall : ([0x69, 0x307].map Char.ofNat).any isLong = false := by decide
      exact absurd hd (List.any_eq_false.1 hall d h)
    | @moved r m _ hr hm =>
      obtain rfl := List.mem_singleton.1 h
      rw [isLong_iff] at hd ⊢
      rcases toNat_ofNat_or m with hvalid | hzero
      · rw [hvalid] at hd
        exact (moved_long hr hm).imp_left fun h => h.2 hd
      · rw [hzero] at hd
        exact absurd (ascii_lt_longNumbers _ hd) (by decide)
    | kept => exact .inl (List.mem_singleton.1 h ▸ hd)

/-- The lower case of the upper case of a character holds no more long characters than its lower case, and
it is as long where it holds as many. -/
theorem countP_isLong_lower_upperChar (c : Char) :
    ((upperChar c).flatMap lowerChar).countP isLong ≤ (lowerChar c).countP isLong ∧
      (((upperChar c).flatMap lowerChar).countP isLong = (lowerChar c).countP isLong →
        ((upperChar c).flatMap lowerChar).length = (lowerChar c).length) := by
  rcases upperChar_odd c with hown | hodd
  · simp [hown]
  · have hnone : ((upperChar c).flatMap lowerChar).countP isLong = 0 := by
      rw [List.countP_eq_zero]
      intro d hd hlong
      obtain ⟨e, he, hde⟩ := List.mem_flatMap.1 hd
      refine hodd e he ?_
      rcases isLong_of_mem_lowerChar hde hlong with hlong | hsharp
      · simp [oddNumbers, isLong_iff.1 hlong]
      · simp [oddNumbers, hsharp]
    refine ⟨by rw [hnone]; exact Nat.zero_le _, fun heq => ?_⟩
    have hshort : ¬ isLong c := by
      intro hlong
      obtain ⟨d, hd, hdlong⟩ := exists_isLong_lowerChar hlong
      rw [hnone, hd] at heq
      simp [hdlong] at heq
    have hdotted : ∀ d ∈ upperChar c, d.toNat ≠ 0x130 := fun d hd h => hodd d hd (by simp [oddNumbers, h])
    have hc : c.toNat ≠ 0x130 := by
      intro hc
      have hown : upperChar (Char.ofNat 0x130) = [Char.ofNat 0x130] := by decide
      rw [← hc, Char.ofNat_toNat] at hown
      exact hdotted c (by simp [hown]) hc
    obtain ⟨e, he⟩ := exists_upperChar_eq hshort
    obtain ⟨d, hd⟩ := exists_lowerChar_eq (hdotted e (by simp [he]))
    obtain ⟨d', hd'⟩ := exists_lowerChar_eq hc
    simp [he, hd, hd']

end DeckMerge.Text
