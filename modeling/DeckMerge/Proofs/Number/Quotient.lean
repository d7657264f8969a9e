import DeckMerge.Number.Binary64
import Mathlib.Data.Nat.Log
import Mathlib.Tactic.Linarith
import Mathlib.Tactic.Ring

/-!
The rounded quotient of two numbers below 2 ^ 53. It has 53 bits, so a remainder is never rounded
away: the whole numbers around the quotient are those around the exact one.
-/

namespace DeckMerge.Binary64

variable {p q c r : Nat}

/-! ### Rounding to a whole number -/

theorem div_le_roundDiv (p q : Nat) : p / q ≤ roundDiv p q := by
  simp only [roundDiv]
  split <;> omega

theorem roundDiv_le_mul (hq : 0 < q) (h : p ≤ c * q) : roundDiv p q ≤ c := by
  have hdiv : p / q ≤ c := Nat.div_le_of_le_mul (by rwa [Nat.mul_comm])
  rcases hdiv.eq_or_lt with heq | hlt
  · have hmod : p % q = 0 := by
      have := Nat.div_add_mod p q
      rw [heq, Nat.mul_comm] at this
      omega
    simp [roundDiv, hmod, hq, heq]
  · simp only [roundDiv]
    split <;> omega

/-- A remainder of more than a half is rounded up. -/
theorem lt_roundDiv (hr : q < 2 * r) (hq : 0 < q) (h : c * q + r ≤ p) : c < roundDiv p q := by
  have hdiv : c ≤ p / q := (Nat.le_div_iff_mul_le hq).2 (by omega)
  rcases hdiv.eq_or_lt with heq | hlt
  · have hmod : q < 2 * (p % q) := by
      have := Nat.div_add_mod p q
      rw [← heq, Nat.mul_comm] at this
      omega
    have hup : ¬ (2 * (p % q) < q ∨ (2 * (p % q) = q ∧ p / q % 2 = 0)) := by omega
    simp only [roundDiv, if_neg hup]
    omega
  · exact hlt.trans_le (div_le_roundDiv p q)

/-! ### The exponent -/

theorem exponentOf_eq_neg (hp : 0 < p) (hp' : p < 2 ^ 53) (hq : 0 < q) (hq' : q < 2 ^ 53) :
    ∃ k : Nat, exponentOf p q = -k ∧ 2 ^ 52 ≤ p * 2 ^ k / q := by
  have hlp : p.log2 ≤ 52 := Nat.le_of_lt_succ ((Nat.log2_lt hp.ne').2 hp')
  have hlq : q.log2 ≤ 52 := Nat.le_of_lt_succ ((Nat.log2_lt hq.ne').2 hq')
  obtain ⟨k, hk⟩ : ∃ k : Nat, (p.log2 : Int) - q.log2 - 52 = -k := ⟨q.log2 + 52 - p.log2, by omega⟩
  have hscale : scale p q (-k) = (p * 2 ^ k, q) := by simp [scale]
  simp only [exponentOf, hk, hscale]
  by_cases hsmall : p * 2 ^ k / q < 2 ^ 52
  · refine ⟨k + 1, by simp; omega, ?_⟩
    have hqlt : q < 2 ^ (q.log2 + 1) := Nat.lt_log2_self
    have hple : 2 ^ p.log2 ≤ p := Nat.log2_self_le hp.ne'
    rw [Nat.le_div_iff_mul_le hq]
    calc 2 ^ 52 * q ≤ 2 ^ 52 * 2 ^ (q.log2 + 1) := Nat.mul_le_mul_left _ hqlt.le
      _ = 2 ^ p.log2 * 2 ^ (k + 1) := by rw [← Nat.pow_add, ← Nat.pow_add]; congr 1; omega
      _ ≤ p * 2 ^ (k + 1) := Nat.mul_le_mul_right _ hple
  · exact ⟨k, by simp; omega, by omega⟩

theorem roundDiv_scaled (hp' : p < 2 ^ 53) (hq : 0 < q) {k : Nat} (hk : 2 ^ 52 ≤ p * 2 ^ k / q)
    (hlo : c * q < p) (hhi : p ≤ (c + 1) * q) :
    c * 2 ^ k < roundDiv (p * 2 ^ k) q ∧ roundDiv (p * 2 ^ k) q ≤ (c + 1) * 2 ^ k := by
  have hpow : 0 < 2 ^ k := Nat.two_pow_pos k
  have hq' : q < 2 * 2 ^ k := by
    have hle : 2 ^ 52 * q ≤ p * 2 ^ k := (Nat.le_div_iff_mul_le hq).1 hk
    have hlt : p * 2 ^ k < 2 ^ 53 * 2 ^ k := Nat.mul_lt_mul_of_pos_right hp' hpow
    omega
  constructor
  · apply lt_roundDiv hq' hq
    calc c * 2 ^ k * q + 2 ^ k = (c * q + 1) * 2 ^ k := by ring
      _ ≤ p * 2 ^ k := Nat.mul_le_mul_right _ hlo
  · apply roundDiv_le_mul hq
    calc p * 2 ^ k ≤ (c + 1) * q * 2 ^ k := Nat.mul_le_mul_right _ hhi
      _ = (c + 1) * 2 ^ k * q := by ring

/-- The quotient is a whole number over a power of two, and lies in the same interval between whole
numbers as the exact one. -/
theorem ofRatio_eq (negative : Bool) (hp : 0 < p) (hp' : p < 2 ^ 53) (hq : 0 < q) (hq' : q < 2 ^ 53)
    (hlo : c * q < p) (hhi : p ≤ (c + 1) * q) : ∃ m k : Nat,
      ofRatio negative p q = .finite negative m (-k) ∧ c * 2 ^ k < m ∧ m ≤ (c + 1) * 2 ^ k := by
  obtain ⟨k, he, hk⟩ := exponentOf_eq_neg hp hp' hq hq'
  obtain ⟨hlt, hle⟩ := roundDiv_scaled hp' hq hk hlo hhi
  have hscale : scale p q (-k) = (p * 2 ^ k, q) := by simp [scale]
  have hm : 0 < roundDiv (p * 2 ^ k) q := Nat.lt_of_lt_of_le (by omega) (hk.trans (div_le_roundDiv _ q))
  simp only [ofRatio, hp.ne', if_false, he, hscale]
  by_cases hcarry : roundDiv (p * 2 ^ k) q = 2 ^ 53
  · cases k with
    | zero =>
      have hsmall : roundDiv (p * 2 ^ 0) q ≤ p := roundDiv_le_mul hq (by nlinarith)
      omega
    | succ k =>
      refine ⟨2 ^ 52, k, ?_, ?_, ?_⟩
      · have hexp : -((k + 1 : Nat) : Int) + 1 = -k := by omega
        simp only [hcarry, if_true, hexp]
        rw [if_neg (by omega), if_neg (by omega)]
      · rw [hcarry, pow_succ 2 k, ← Nat.mul_assoc] at hlt
        omega
      · rw [hcarry, pow_succ 2 k, ← Nat.mul_assoc] at hle
        omega
  · refine ⟨_, k, ?_, hlt, hle⟩
    simp only [hcarry, if_false]
    rw [if_neg (by omega), if_neg (by omega)]

end DeckMerge.Binary64
