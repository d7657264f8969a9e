import DeckMerge.Deck.Page
import DeckMerge.Proofs.Association
import DeckMerge.Proofs.Number.Quotient
import DeckMerge.Proofs.Sequence
import DeckMerge.Proofs.Text.Numeral
import Mathlib.Algebra.Order.Floor.Div

/-!
The bindings of pages: slot `i` of page `p` is bound to the record at `p * capacity + i`, counted from
0, and to nothing where there is none.
-/

namespace DeckMerge.Deck

open Candidate Placeholder

theorem pageCount_eq_ceilDiv {n k : Nat} (hn : n < 2 ^ 53) (hk : 0 < k) (hk' : k < 2 ^ 53) :
    pageCount n k = n ⌈/⌉ k := by
  rcases n.eq_zero_or_pos with rfl | hpos
  · rw [zero_ceilDiv]
    rfl
  · obtain ⟨c, hc⟩ : ∃ c, n ⌈/⌉ k = c + 1 := by
      apply Nat.exists_eq_succ_of_ne_zero
      intro h0
      have := (ceilDiv_le_iff_le_mul hk).1 h0.le
      omega
    have hlo : c * k < n := by
      apply Nat.lt_of_not_le
      intro hle
      have := (ceilDiv_le_iff_le_mul hk).2 (hle.trans_eq (Nat.mul_comm c k))
      omega
    have hhi : n ≤ (c + 1) * k := by
      rw [Nat.mul_comm]
      exact (ceilDiv_le_iff_le_mul hk).1 hc.le
    obtain ⟨m, e, hratio, hlt, hle⟩ := Binary64.ofRatio_eq false hpos hn hk hk' hlo hhi
    have hpow : 0 < 2 ^ e := Nat.two_pow_pos e
    have hstep : (c + 1) * 2 ^ e = c * 2 ^ e + 2 ^ e := Nat.succ_mul c (2 ^ e)
    have hceil : (m + (2 ^ e - 1)) / 2 ^ e = c + 1 := by
      apply Nat.div_eq_of_lt_le
      · omega
      · rw [Nat.succ_mul]
        omega
    rw [pageCount, hratio, hc, ← hceil]
    cases e with
    | zero => simp
    | succ e =>
      have hneg : ¬ (0 : Int) ≤ -(e + 1 : Nat) := by omega
      simp only [hneg, if_false, Int.neg_neg, Int.toNat_natCast]

/-- What a slot is bound to: a record, or nothing. -/
def slotBinding (c : Config) (slot : Int) : Option Record → Binding
  | some r => filledSlot c slot r
  | none => emptySlot slot

def pageBinding (c : Config) (rs : List Record) (page : Nat) : Binding :=
  (List.range c.capacity).flatMap fun (i : Nat) =>
    slotBinding c ↑(i + 1) rs[page * c.capacity + i]?

theorem map_fst_slotBinding (c : Config) (slot : Int) (r : Option Record) :
    (slotBinding c slot r).map (·.1) = slotKeys slot := by
  cases r <;> rfl

theorem missingKeys_pageBinding (c : Config) (rs : List Record) (page : Nat) :
    missingKeys (pageBinding c rs page) c.capacity = [] := by
  simp only [missingKeys, List.filter_eq_nil_iff, Int.toNat_natCast, List.mem_flatMap, List.mem_range]
  rintro key ⟨i, hi, hkey⟩
  rw [← map_fst_slotBinding c _ rs[page * c.capacity + i]?] at hkey
  obtain ⟨b, hb, rfl⟩ := List.mem_map.1 hkey
  have hmem : b ∈ pageBinding c rs page :=
    List.mem_flatMap.2 ⟨i, List.mem_range.2 hi, hb⟩
  simpa using ⟨b.2, hmem⟩

theorem bindPage_eq (c : Config) (rs : List Record) (page : Nat) :
    bindPage c ((rs.drop (page * c.capacity)).take c.capacity) = .ok (pageBinding c rs page) := by
  have hfits : ¬ c.capacity < ((rs.drop (page * c.capacity)).take c.capacity).length := by
    rw [Nat.not_lt]
    exact List.length_take_le _ _
  rw [bindPage, if_neg hfits]
  simp only
  generalize hb : List.flatMap _ (List.range c.capacity) = b
  obtain rfl : b = pageBinding c rs page := by
    rw [← hb, pageBinding, List.flatMap_def, List.flatMap_def]
    congr 1
    apply List.map_congr_left
    intro i hi
    rw [List.getElem?_take_of_lt (List.mem_range.1 hi), List.getElem?_drop]
    cases rs[page * c.capacity + i]? <;> rfl
  rw [checkComplete, missingKeys_pageBinding]
  rfl

theorem bindPages_eq_map (c : Config) (rs : List Record) : bindPages c rs =
    .ok ((List.range (pageCount rs.length c.capacity)).map (pageBinding c rs)) := by
  rw [bindPages, paginate, List.mapM_map]
  exact Sequence.mapM_eq_ok_map fun page _ => bindPage_eq c rs page

theorem bindPages_eq {c : Config} {rs : List Record} (hn : rs.length < 2 ^ 53)
    (hc : c.capacity < 2 ^ 53) : bindPages c rs =
      .ok ((List.range (rs.length ⌈/⌉ c.capacity)).map (pageBinding c rs)) := by
  rw [bindPages_eq_map, pageCount_eq_ceilDiv hn c.capacity_pos hc]

/-! ### The keys of a page -/

namespace SlotField

theorem dropWhile_key (f : SlotField) (i : Nat) :
    (f.key i).reverse.dropWhile Char.isDigit = f.label.reverse := by
  have hdigits : ∀ c ∈ (Text.ofNat i).reverse, c.isDigit := by
    intro c hc
    exact Text.isDigit_of_mem_ofNat (List.mem_reverse.1 hc)
  have hkey : (f.key i).reverse = (Text.ofNat i).reverse ++ f.label.reverse := by
    simp [key, Text.ofInt]
  rw [hkey, List.dropWhile_append_of_pos hdigits]
  cases f <;> rfl

theorem label_injective : Function.Injective label := by
  intro f g h
  cases f <;> cases g <;> first | rfl | exact absurd h (by decide)

theorem key_eq_iff {f g : SlotField} {i j : Nat} : f.key i = g.key j ↔ f = g ∧ i = j := by
  constructor
  · intro h
    have hlabel : f.label.reverse = g.label.reverse := by
      rw [← dropWhile_key f i, ← dropWhile_key g j, h]
    obtain rfl := label_injective (List.reverse_injective hlabel)
    exact ⟨rfl, Text.ofNat_injective (List.append_cancel_left h)⟩
  · rintro ⟨rfl, rfl⟩
    rfl

end SlotField

theorem slotBinding_eq (c : Config) (slot : Int) (r : Option Record) : slotBinding c slot r =
    SlotField.all.map fun f => (f.key slot, r.elim f.emptyValue (f.value c)) := by
  cases r <;> rfl

/-- A page binds each key of each of its slots to what the slot's own record, if any, gives it. -/
theorem lookup_pageBinding (c : Config) (rs : List Record) (page : Nat) {i : Nat} (hi : i < c.capacity)
    (f : SlotField) : (pageBinding c rs page).lookup (f.key ↑(i + 1)) =
      some (rs[page * c.capacity + i]?.elim f.emptyValue (f.value c)) := by
  apply Association.lookup_eq_some_of_unique
  · refine List.mem_flatMap.2 ⟨i, List.mem_range.2 hi, ?_⟩
    rw [slotBinding_eq]
    exact List.mem_map.2 ⟨f, by cases f <;> decide, rfl⟩
  · intro v hv
    obtain ⟨j, -, hv⟩ := List.mem_flatMap.1 hv
    rw [slotBinding_eq] at hv
    obtain ⟨g, -, hg⟩ := List.mem_map.1 hv
    obtain ⟨hkey, rfl⟩ := Prod.mk.inj hg
    obtain ⟨rfl, hij⟩ := SlotField.key_eq_iff.1 hkey
    obtain rfl := Nat.succ.inj hij
    rfl

end DeckMerge.Deck
