import DeckMerge.Proofs.Deck.Paging
import DeckMerge.Proofs.Number.Underflow

/-!
Whether the pages hold each record once. The number of pages is a quotient rounded up, and the quotient
of the floating-point numbers is zero where the exact one is not above 2 ^ -1075: there are no pages
then, and the records are lost.
-/

namespace DeckMerge.Deck

open Candidate Placeholder

/-! ### The number of pages -/

theorem pageCount_of_le {n k : Nat} (hn : 0 < n) (hnk : n ≤ k) :
    pageCount n k = if k < n * 2 ^ 1075 then 1 else 0 := by
  obtain ⟨m, e, hratio, hle, hpos⟩ := Binary64.ofRatio_of_le false hn hnk
  have hceil : pageCount n k = (m + (2 ^ e - 1)) / 2 ^ e := by
    rw [pageCount, hratio]
    cases e with
    | zero => simp
    | succ e =>
      have hneg : ¬ (0 : Int) ≤ -(e + 1 : Nat) := by omega
      simp only [hneg, if_false, Int.neg_neg, Int.toNat_natCast]
  have hpow : 0 < 2 ^ e := Nat.two_pow_pos e
  rw [hceil]
  split
  · rename_i hfit
    have hm : 0 < m := hpos.2 hfit
    exact Nat.div_eq_of_lt_le (by omega) (by omega)
  · rename_i hfit
    have hm : ¬ 0 < m := mt hpos.1 hfit
    exact Nat.div_eq_of_lt (by omega)

/-- The number of pages is the exact quotient rounded up, or none where the quotient is rounded to zero. -/
theorem pageCount_eq {n k : Nat} (hn : n < 2 ^ 53) (hk : 0 < k) :
    pageCount n k = if k < n * 2 ^ 1075 then n ⌈/⌉ k else 0 := by
  rcases n.eq_zero_or_pos with rfl | hpos
  · rw [Nat.zero_mul, if_neg (Nat.not_lt_zero k)]
    rfl
  · rcases Nat.lt_or_ge k n with hlt | hle
    · have hlarge : n ≤ n * 2 ^ 1075 := Nat.le_mul_of_pos_right n (pow_pos two_pos 1075)
      rw [pageCount_eq_ceilDiv hn hk (hlt.trans hn), if_pos (hlt.trans_le hlarge)]
    · have hone : n ⌈/⌉ k = 1 := by
        apply le_antisymm
        · rwa [ceilDiv_le_iff_le_mul hk, Nat.mul_one]
        · rw [Nat.one_le_iff_ne_zero]
          intro h0
          have := (ceilDiv_le_iff_le_mul hk).1 h0.le
          omega
      rw [pageCount_of_le hpos hle, hone]

theorem pageCount_eq_ceilDiv_iff {n k : Nat} (hn : n < 2 ^ 53) (hk : 0 < k) :
    pageCount n k = n ⌈/⌉ k ↔ n = 0 ∨ k < n * 2 ^ 1075 := by
  rw [pageCount_eq hn hk]
  split
  · rename_i hfit
    exact iff_of_true rfl (.inr hfit)
  · rename_i hfit
    have hzero : n ⌈/⌉ k ≤ 0 ↔ n ≤ k * 0 := ceilDiv_le_iff_le_mul hk
    rw [Nat.mul_zero] at hzero
    rw [or_iff_left hfit]
    omega

/-- Whether the slots of the pages are enough. -/
theorem le_pageCount_mul_iff {n k : Nat} (hn : n < 2 ^ 53) (hk : 0 < k) :
    n ≤ pageCount n k * k ↔ n = 0 ∨ k < n * 2 ^ 1075 := by
  rw [pageCount_eq hn hk]
  split
  · rename_i hfit
    rw [Nat.mul_comm]
    exact iff_of_true ((ceilDiv_le_iff_le_mul hk).1 le_rfl) (.inr hfit)
  · rename_i hfit
    rw [or_iff_left hfit, Nat.zero_mul, Nat.le_zero]

/-! ### Partitions -/

section Partition

variable {α : Type} {xs : List α} {k : Nat}

/-- A list cut into pages of `k` entries, in order, of which only the last may hold fewer. -/
structure Partitions (xs : List α) (k : Nat) (pages : List (List α)) : Prop where
  flatten_eq : pages.flatten = xs
  length_eq : pages.length = xs.length ⌈/⌉ k
  full : ∀ page ∈ pages.dropLast, page.length = k
  last : ∀ page ∈ pages.getLast?, 1 ≤ page.length ∧ page.length ≤ k

theorem flatten_chunks (xs : List α) (k count : Nat) :
    ((List.range count).map fun i => (xs.drop (i * k)).take k).flatten = xs.take (count * k) := by
  induction count with
  | zero => simp
  | succ count ih =>
    rw [List.range_succ, List.map_append, List.flatten_append, ih, Nat.succ_mul, List.take_add]
    simp

theorem length_paginate (xs : List α) (k : Nat) : (paginate xs k).length = pageCount xs.length k := by
  simp [paginate]

theorem partitions_paginate (hk : 0 < k) (hcount : pageCount xs.length k = xs.length ⌈/⌉ k) :
    Partitions xs k (paginate xs k) := by
  have hlt {i : Nat} (hi : i < xs.length ⌈/⌉ k) : i * k < xs.length := by
    rw [Nat.mul_comm]
    exact lt_of_not_ge (mt (ceilDiv_le_iff_le_mul hk).2 (Nat.not_le.2 hi))
  have hpages : paginate xs k = (List.range (xs.length ⌈/⌉ k)).map fun i => (xs.drop (i * k)).take k := by
    rw [paginate, hcount]
  refine ⟨?_, by rw [length_paginate, hcount], ?_, ?_⟩
  · rw [hpages, flatten_chunks, List.take_of_length_le]
    rw [Nat.mul_comm]
    exact (ceilDiv_le_iff_le_mul hk).1 le_rfl
  · intro page hpage
    rw [hpages, List.dropLast_eq_take, ← List.map_take, List.length_map, List.length_range,
      List.take_range] at hpage
    obtain ⟨i, hi, rfl⟩ := List.mem_map.1 hpage
    have hnext := hlt (i := i + 1) (by have := List.mem_range.1 hi; omega)
    rw [Nat.succ_mul] at hnext
    simp only [List.length_take, List.length_drop]
    omega
  · intro page hpage
    rw [hpages, List.getLast?_map, Option.mem_def, Option.map_eq_some_iff] at hpage
    obtain ⟨i, hi, rfl⟩ := hpage
    have hstart := hlt (List.mem_range.1 (List.mem_of_getLast? hi))
    simp only [List.length_take, List.length_drop]
    omega

end Partition

/-! ### Bindings -/

/-- Slot `i` of page `page` is bound to the record at `page * capacity + i`, or to nothing past the last
record, and each record has exactly one slot. -/
structure BindsOnce (c : Config) (rs : List Record) (bs : List Binding) : Prop where
  lookup_eq : ∀ (page : Nat) (b : Binding), bs[page]? = some b → ∀ i < c.capacity, ∀ f : SlotField,
    b.lookup (f.key ↑(i + 1)) = some (rs[page * c.capacity + i]?.elim f.emptyValue (f.value c))
  existsUnique_slot : ∀ n < rs.length, ∃! slot : Nat × Nat,
    slot.1 < bs.length ∧ slot.2 < c.capacity ∧ slot.1 * c.capacity + slot.2 = n

/-- A place has a page and a slot, by division with remainder. -/
theorem existsUnique_slot {k pages n : Nat} (hn : n < pages * k) :
    ∃! slot : Nat × Nat, slot.1 < pages ∧ slot.2 < k ∧ slot.1 * k + slot.2 = n := by
  have hk : 0 < k := Nat.pos_of_lt_mul_left hn
  refine ⟨(n / k, n % k), ⟨Nat.div_lt_of_lt_mul (by rwa [Nat.mul_comm]), Nat.mod_lt n hk, ?_⟩, ?_⟩
  · rw [Nat.mul_comm]
    exact Nat.div_add_mod n k
  · rintro ⟨page, i⟩ ⟨-, hi, hplace⟩
    simp only at hi hplace
    have hdiv : n / k = page := Nat.div_eq_of_lt_le (by omega) (by rw [Nat.succ_mul]; omega)
    have hmod : n % k = i := by rw [← hplace, Nat.mul_comm, Nat.mul_add_mod, Nat.mod_eq_of_lt hi]
    rw [hdiv, hmod]

theorem bindsOnce_iff {c : Config} {rs : List Record} : BindsOnce c rs
    ((List.range (pageCount rs.length c.capacity)).map (pageBinding c rs)) ↔
      rs.length ≤ pageCount rs.length c.capacity * c.capacity := by
  constructor
  · intro h
    rcases rs.length.eq_zero_or_pos with h0 | hpos
    · omega
    · obtain ⟨⟨page, i⟩, ⟨hpage, hi, hplace⟩, -⟩ := h.existsUnique_slot (rs.length - 1) (by omega)
      simp only [List.length_map, List.length_range] at hpage
      have hle : (page + 1) * c.capacity ≤ pageCount rs.length c.capacity * c.capacity :=
        Nat.mul_le_mul_right _ hpage
      rw [Nat.succ_mul] at hle
      simp only at hi hplace
      omega
  · intro hfit
    refine ⟨?_, ?_⟩
    · intro page b hb i hi f
      rw [List.getElem?_map, Option.map_eq_some_iff] at hb
      obtain ⟨p, hp, rfl⟩ := hb
      obtain ⟨-, rfl⟩ := List.getElem?_eq_some_iff.1 hp
      rw [List.getElem_range]
      exact lookup_pageBinding c rs page hi f
    · intro n hn
      rw [List.length_map, List.length_range]
      exact existsUnique_slot (hn.trans_le hfit)

/-! ### Pages and bindings -/

/-- Records are cut into pages, and bound in one slot each, exactly if there are none or their number over
the capacity is above 2 ^ -1075. -/
theorem paginate_partitions_iff (c : Config) (rs : List Record) (hn : rs.length < 2 ^ 53) :
    ∃ pages bs, paginate? rs c.capacity = .ok pages ∧ bindPages c rs = .ok bs ∧
      bs.length = pages.length ∧
      (Partitions rs c.capacity pages ↔ rs = [] ∨ c.capacity < rs.length * 2 ^ 1075) ∧
      (BindsOnce c rs bs ↔ rs = [] ∨ c.capacity < rs.length * 2 ^ 1075) := by
  have hk : 0 < c.capacity := c.capacity_pos
  have hcount := pageCount_eq_ceilDiv_iff hn hk
  rw [List.length_eq_zero_iff] at hcount
  refine ⟨paginate rs c.capacity, _, ?_, bindPages_eq_map c rs, ?_, ?_, ?_⟩
  · rw [paginate?, if_neg (by omega), Int.toNat_natCast]
  · rw [length_paginate, List.length_map, List.length_range]
  · rw [← hcount]
    exact ⟨fun h => length_paginate rs c.capacity ▸ h.length_eq, partitions_paginate hk⟩
  · rw [bindsOnce_iff, le_pageCount_mul_iff hn hk, List.length_eq_zero_iff]

def twoSlots : Config := { Config.default with capacity := 2, capacity_pos := Nat.zero_lt_two }

def threeRecords : List Record := [⟨"Ada", [], []⟩, ⟨"Bo", [], []⟩, ⟨"Cy", [], []⟩]

theorem paginate_partitions_three : threeRecords.length < 2 ^ 53 ∧
    ∃ pages bs, paginate? threeRecords twoSlots.capacity = .ok pages ∧
      bindPages twoSlots threeRecords = .ok bs ∧ bs.length = pages.length ∧
      Partitions threeRecords twoSlots.capacity pages ∧ BindsOnce twoSlots threeRecords bs := by
  have hn : threeRecords.length < 2 ^ 53 := by decide
  have hfit : twoSlots.capacity < threeRecords.length * 2 ^ 1075 := by decide +kernel
  obtain ⟨pages, bs, hpages, hbs, hlength, hpartitions, hbinds⟩ :=
    paginate_partitions_iff twoSlots threeRecords hn
  exact ⟨hn, pages, bs, hpages, hbs, hlength, hpartitions.2 (.inr hfit), hbinds.2 (.inr hfit)⟩

/-- One record, on pages of 2 ^ 1075 slots, is on no page. -/
theorem paginate_drops : paginate? ["Ada"] ((2 ^ 1075 : Nat) : Int) = .ok [] ∧
    ¬ Partitions ["Ada"] (2 ^ 1075) [] := by
  have hnone : paginate ["Ada"] (2 ^ 1075) = [] := by decide +kernel
  have hpos : ¬ ((2 ^ 1075 : Nat) : Int) < 1 := by decide +kernel
  refine ⟨?_, fun h => ?_⟩
  · rw [paginate?, if_neg hpos, Int.toNat_natCast, hnone]
  · cases h.flatten_eq

end DeckMerge.Deck
