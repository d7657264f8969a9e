import DeckMerge.Zip.Bits
import Mathlib.Data.List.Basic
import Mathlib.Data.Nat.Bitwise

/-!
Numbers read back from the bits and from the octets that they are written in.
-/

namespace DeckMerge.Zip

namespace Bits

theorem ofNat_succ (width n : Nat) : ofNat (width + 1) n = n.testBit 0 :: ofNat width (n / 2) := by
  simp only [ofNat, List.range_succ_eq_map, List.map_cons, List.map_map, List.cons.injEq, true_and]
  apply List.map_congr_left
  intro i _
  rw [Function.comp_apply, Nat.testBit_div_two]

@[simp] theorem length_ofNat (width n : Nat) : (ofNat width n).length = width := by simp [ofNat]

theorem toNat_lt (bs : Bits) : bs.toNat < 2 ^ bs.length := by
  induction bs with
  | nil => simp [toNat]
  | cons b bs ih =>
    rw [toNat, List.length_cons, Nat.pow_succ]
    cases b <;> simp <;> omega

/-- Bits that fall short of a width are filled up with zeros. -/
theorem ofNat_toNat {bs : Bits} {width : Nat} (h : bs.length ≤ width) :
    ofNat width bs.toNat = bs ++ List.replicate (width - bs.length) false := by
  induction bs generalizing width with
  | nil =>
    rw [ofNat, List.nil_append, List.eq_replicate_iff]
    simp [toNat]
  | cons b bs ih =>
    cases width with
    | zero => simp at h
    | succ width =>
      have hdiv : (b.toNat + 2 * toNat bs) / 2 = toNat bs := by
        cases b
        · simp
        · simp only [Bool.toNat_true]
          omega
      have hbit : (b.toNat + 2 * toNat bs).testBit 0 = b := by cases b <;> simp [Nat.testBit_zero]
      rw [toNat, ofNat_succ, hdiv, hbit, ih (by simpa using h)]
      simp

theorem ofBytes_cons (b : UInt8) (bs : Bytes) : ofBytes (b :: bs) = ofBytes [b] ++ ofBytes bs := by
  simp [ofBytes]

theorem length_ofBytes (bs : Bytes) : (ofBytes bs).length = 8 * bs.length := by
  induction bs with
  | nil => rfl
  | cons b bs ih =>
    rw [ofBytes_cons, List.length_append, ih, List.length_cons]
    simp [ofBytes]
    omega

theorem ofBytes_octet {bs : Bits} (h : bs.length ≤ 8) :
    ofBytes [bs.octet] = bs ++ List.replicate (8 - bs.length) false := by
  have hlt : bs.toNat < 256 := (toNat_lt bs).trans_le (Nat.pow_le_pow_right (by decide) h)
  have hoctet : bs.octet.toNat = bs.toNat := by simp [octet, Nat.mod_eq_of_lt hlt]
  simp [ofBytes, hoctet, ofNat_toNat h]

theorem ofBytes_toBytes (bs : Bits) : ∃ k, ofBytes (toBytes bs) = bs ++ List.replicate k false := by
  fun_induction toBytes bs with
  | case1 a b c d e f g h rest ih =>
    obtain ⟨k, hk⟩ := ih
    have hfront : ofBytes [octet [a, b, c, d, e, f, g, h]] = [a, b, c, d, e, f, g, h] :=
      ofBytes_octet (by simp)
    refine ⟨k, ?_⟩
    rw [ofBytes_cons, hfront, hk]
    rfl
  | case2 => exact ⟨0, rfl⟩
  | case3 rest hrest _ =>
    have hshort : rest.length ≤ 8 := by
      match rest with
      | a :: b :: c :: d :: e :: f :: g :: h :: t => exact (hrest a b c d e f g h t rfl).elim
      | [] | [_] | [_, _] | [_, _, _] | [_, _, _, _] | [_, _, _, _, _] | [_, _, _, _, _, _]
      | [_, _, _, _, _, _, _] => simp
    exact ⟨8 - rest.length, ofBytes_octet hshort⟩

theorem length_le_length_toBytes (bs : Bits) : bs.length ≤ 8 * (toBytes bs).length := by
  obtain ⟨k, hk⟩ := ofBytes_toBytes bs
  have hlength := congrArg List.length hk
  rw [length_ofBytes, List.length_append] at hlength
  omega

end Bits

theorem length_littleEndian (width n : Nat) : (littleEndian width n).length = width := by
  induction width generalizing n with
  | zero => rfl
  | succ width ih => simp [littleEndian, ih]

theorem ofLittleEndian_littleEndian {width n : Nat} (h : n < 256 ^ width) :
    ofLittleEndian (littleEndian width n) = n := by
  induction width generalizing n with
  | zero => simp_all [littleEndian, ofLittleEndian]
  | succ width ih =>
    have hdiv : n / 256 < 256 ^ width := by
      rw [Nat.div_lt_iff_lt_mul (by decide)]
      rwa [Nat.pow_succ] at h
    rw [littleEndian, ofLittleEndian, ih hdiv]
    simp
    omega

end DeckMerge.Zip
