import DeckMerge.Proofs.Number.Quotient

/-!
The rounded quotient of a number by one that is not below it. It is at most 1, and zero where the exact one
is not above half of the least number there is, which is a tie that goes to the even zero.
-/

namespace DeckMerge.Binary64

variable {p q : Nat}

theorem roundDiv_pos_iff (hq : 0 < q) : 0 < roundDiv p q ↔ q < 2 * p := by
  rcases Nat.lt_or_ge p q with hlt | hle
  · have hdiv : p / q = 0 := Nat.div_eq_of_lt hlt
    have hmod : p % q = p := Nat.mod_eq_of_lt hlt
    simp only [roundDiv, hdiv, hmod, Nat.zero_mod, and_true]
    split <;> omega
  · have hpos : 0 < p / q := Nat.div_pos hle hq
    have hround := hpos.trans_le (div_le_roundDiv p q)
    exact iff_of_true hround (by omega)

/-- Above the least exponent the quotient has 53 bits. -/
theorem exponentOf_of_le (hp : 0 < p) (h : p ≤ q) :
    ∃ k : Nat, exponentOf p q = -k ∧ 52 ≤ k ∧ (k < 1074 → q < p * 2 ^ k) ∧ k ≤ 1074 := by
  have hlog : p.log2 ≤ q.log2 := by
    rw [Nat.log2_eq_log_two, Nat.log2_eq_log_two]
    exact Nat.log_mono_right h
  have hbits : q < p * 2 ^ (q.log2 - p.log2 + 52) := by
    have hqlt : q < 2 ^ (q.log2 + 1) := Nat.lt_log2_self
    have hple : 2 ^ p.log2 ≤ p := Nat.log2_self_le hp.ne'
    calc q < 2 ^ (q.log2 + 1) := hqlt
      _ ≤ 2 ^ (p.log2 + (q.log2 - p.log2 + 52)) := Nat.pow_le_pow_right (by omega) (by omega)
      _ = 2 ^ p.log2 * 2 ^ (q.log2 - p.log2 + 52) := Nat.pow_add ..
      _ ≤ p * 2 ^ (q.log2 - p.log2 + 52) := Nat.mul_le_mul_right _ hple
  have hexp : ∃ k : Nat, exponentOf p q = max (-1074) (-(k : Int)) ∧ q.log2 - p.log2 + 52 ≤ k := by
    simp only [exponentOf]
    split
    · exact ⟨q.log2 - p.log2 + 53, by congr 1; omega, by omega⟩
    · exact ⟨q.log2 - p.log2 + 52, by congr 1; omega, le_rfl⟩
  obtain ⟨k, hk, hle⟩ := hexp
  refine ⟨min k 1074, by rw [hk]; omega, by omega, fun hlt => ?_, by omega⟩
  have hmin : min k 1074 = k := by omega
  rw [hmin]
  exact hbits.trans_le (Nat.mul_le_mul_left p (Nat.pow_le_pow_right (by omega) hle))

/-- The rounded quotient is at most 1, and zero where the exact one is not above 2 ^ -1075. -/
theorem ofRatio_of_le (negative : Bool) (hp : 0 < p) (h : p ≤ q) : ∃ m k : Nat,
    ofRatio negative p q = .finite negative m (-k) ∧ m ≤ 2 ^ k ∧ (0 < m ↔ q < p * 2 ^ 1075) := by
  obtain ⟨k, he, hk, hbits, hk'⟩ := exponentOf_of_le hp h
  have hq : 0 < q := hp.trans_le h
  have hscale : scale p q (-k) = (p * 2 ^ k, q) := by simp [scale]
  have hle : roundDiv (p * 2 ^ k) q ≤ 2 ^ k :=
    roundDiv_le_mul hq (by rw [Nat.mul_comm]; exact Nat.mul_le_mul_left _ h)
  have hpos : 0 < roundDiv (p * 2 ^ k) q ↔ q < p * 2 ^ 1075 := by
    rw [roundDiv_pos_iff hq]
    rcases hk'.eq_or_lt with rfl | hlt
    · have hdouble (e : Nat) : 2 * (p * 2 ^ e) = p * 2 ^ (e + 1) := by ring
      rw [hdouble]
    · have hsmall := hbits hlt
      have htwice : p * 2 ^ k ≤ 2 * (p * 2 ^ k) := Nat.le_mul_of_pos_left _ Nat.two_pos
      have hlarge : p * 2 ^ k ≤ p * 2 ^ 1075 :=
        Nat.mul_le_mul_left p (pow_le_pow_right₀ one_le_two (by omega))
      exact iff_of_true (hsmall.trans_le htwice) (hsmall.trans_le hlarge)
  simp only [ofRatio, hp.ne', if_false, he, hscale]
  by_cases hcarry : roundDiv (p * 2 ^ k) q = 2 ^ 53
  · -- the significand of 54 bits is halved
    have hk53 : 53 ≤ k := (Nat.pow_le_pow_iff_right (by omega)).1 (hcarry ▸ hle)
    refine ⟨2 ^ 52, k - 1, ?_, Nat.pow_le_pow_right (by omega) (by omega), ?_⟩
    · have hexp : -(k : Int) + 1 = -((k - 1 : Nat) : Int) := by omega
      simp only [hcarry, if_true, hexp]
      rw [if_neg (by omega), if_neg (by omega)]
    · rw [← hpos, hcarry]
      exact iff_of_true (Nat.two_pow_pos 52) (Nat.two_pow_pos 53)
  · simp only [hcarry, if_false]
    rw [if_neg (by omega)]
    by_cases hzero : roundDiv (p * 2 ^ k) q = 0
    · refine ⟨0, 0, by rw [if_pos hzero]; rfl, by omega, ?_⟩
      rw [← hpos, hzero]
    · exact ⟨_, k, by rw [if_neg hzero], hle, hpos⟩

end DeckMerge.Binary64
