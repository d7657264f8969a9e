import DeckMerge.Proofs.Text.CaseTable
import DeckMerge.Proofs.Text.Occurrence

/-!
Needles of texts in lower case. Whether a capital sigma is final depends on what stands around it, and the upper
case of a character can be several characters long, so the lower case of a text does not always hold that of
its needles. Here is said for which needles it does, and for which ones it does when the text holds their upper case.
-/

namespace DeckMerge.Text

variable {before after s t k : Text} {c d : Char}

/-! ### Lower case in its place -/

/-- Lower case of a character between two texts, the one before it nearest character first. -/
def lowerAt (before : Text) (c : Char) (after : Text) : Text :=
  if c = 'Σ' then if meetsCased before && !meetsCased after then ['ς'] else ['σ'] else lowerChar c

/-- Lower case of a text between two others, the one before it nearest character first. -/
def lowerBetween (before : Text) : Text → Text → Text
  | [], _ => []
  | c :: s, after => lowerAt before c (s ++ after) ++ lowerBetween (c :: before) s after

theorem lowerBetween_cons (before : Text) (c : Char) (s after : Text) :
    lowerBetween before (c :: s) after = lowerAt before c (s ++ after) ++ lowerBetween (c :: before) s after := rfl

theorem lowerBetween_append (before s t after : Text) : lowerBetween before (s ++ t) after =
    lowerBetween before s (t ++ after) ++ lowerBetween (s.reverse ++ before) t after := by
  induction s generalizing before with
  | nil => rfl
  | cons c s ih => simp [lowerBetween, ih]

theorem lowerAfter_eq (before s : Text) : lowerAfter before s = lowerBetween before s [] := by
  induction s generalizing before with
  | nil => rfl
  | cons c s ih => rw [lowerAfter, lowerBetween, lowerAt, ih, List.append_nil]

theorem lower_eq (s : Text) : lower s = lowerBetween [] s [] := lowerAfter_eq [] s

theorem lower_append_append (before s after : Text) :
    lower (before ++ s ++ after) = lowerBetween [] before (s ++ after) ++ lowerBetween before.reverse s after ++
      lowerBetween (s.reverse ++ before.reverse) after [] := by
  simp [lower_eq, lowerBetween_append]

theorem isSmall_of_mem_lowerAt (h : d ∈ lowerAt before c after) : isSmall d := by
  rw [lowerAt] at h
  split at h
  case isFalse => exact isSmall_of_mem_lowerChar h
  case isTrue =>
    have hsigma : isSmall 'ς' ∧ isSmall 'σ' := by decide
    split at h
    · exact List.mem_singleton.1 h ▸ hsigma.1
    · exact List.mem_singleton.1 h ▸ hsigma.2

theorem isSmall_of_mem_lowerBetween (h : d ∈ lowerBetween before s after) : isSmall d := by
  induction s generalizing before with
  | nil => cases h
  | cons c s ih =>
    rcases List.mem_append.1 h with hc | hs
    · exact isSmall_of_mem_lowerAt hc
    · exact ih hs

theorem lowerBetween_eq_self (h : ∀ c ∈ s, isSmall c) (before after : Text) : lowerBetween before s after = s := by
  induction s generalizing before with
  | nil => rfl
  | cons c s ih =>
    obtain ⟨hc, hs⟩ := List.forall_mem_cons.1 h
    obtain ⟨hlower, hsigma⟩ := isSmall_iff.1 hc
    rw [lowerBetween_cons, ih hs, lowerAt, if_neg hsigma, hlower]
    rfl

theorem lower_isInfix_lower_of_lower (h : lower k <:+: t) : lower k <:+: lower t := by
  obtain ⟨before, after, rfl⟩ := h
  rw [lower_append_append, lowerBetween_eq_self (s := lower k)]
  · exact ⟨_, _, rfl⟩
  · intro c hc
    exact isSmall_of_mem_lowerBetween (lower_eq k ▸ hc)

/-! ### Settled sigmas -/

/-- Whether the next letter that counts is one with case, where there is such a letter. -/
def nextCased? (s : Text) : Option Bool :=
  (s.find? (!inRanges caseIgnorableRanges ·)).map (inRanges casedRanges)

theorem nextCased?_append (s t : Text) : nextCased? (s ++ t) = (nextCased? s).or (nextCased? t) := by
  rw [nextCased?, nextCased?, nextCased?, List.find?_append, Option.map_or]

theorem meetsCased_append (s t : Text) : meetsCased (s ++ t) = (nextCased? s).getD (meetsCased t) := by
  rw [nextCased?]
  induction s with
  | nil => rfl
  | cons c s ih =>
    cases hc : inRanges caseIgnorableRanges c with
    | true => simpa [meetsCased, hc] using ih
    | false => simp [meetsCased, hc]

theorem meetsCased_eq (s : Text) : meetsCased s = (nextCased? s).getD false := by
  have happend := meetsCased_append s []
  rwa [List.append_nil] at happend

/-- Whether a sigma between these is final does not depend on what stands around both. -/
def isSettled (before after : Text) : Bool :=
  nextCased? before == some false || nextCased? after == some true ||
    (nextCased? before).isSome && (nextCased? after).isSome

/-- All capital sigmas of a text are settled, given what stands before it, nearest character first. -/
def isSteadyAfter (before : Text) : Text → Bool
  | [] => true
  | c :: s => (c != 'Σ' || isSettled before s) && isSteadyAfter (c :: before) s

/-- What stands around a text does not decide which of its capital sigmas are final. -/
def isSteady (s : Text) : Bool := isSteadyAfter [] s

theorem isSteadyAfter_cons : isSteadyAfter before (c :: s) ↔
    (c = 'Σ' → isSettled before s) ∧ isSteadyAfter (c :: before) s := by
  rw [isSteadyAfter, Bool.and_eq_true, Bool.or_eq_true, bne_iff_ne, ne_eq, Decidable.imp_iff_not_or]

theorem exists_not_isSettled (h : ¬ isSteadyAfter before s) :
    ∃ p q, s = p ++ 'Σ' :: q ∧ ¬ isSettled (p.reverse ++ before) q := by
  induction s generalizing before with
  | nil => exact absurd rfl h
  | cons c s ih =>
    rw [isSteadyAfter_cons, not_and_or, Classical.not_imp] at h
    rcases h with ⟨rfl, hc⟩ | hs
    · exact ⟨[], s, rfl, hc⟩
    · obtain ⟨p, q, rfl, hq⟩ := ih hs
      exact ⟨c :: p, q, rfl, by simpa using hq⟩

theorem lowerAt_of_isSettled (h : c = 'Σ' → isSettled before after) (x y : Text) :
    lowerAt (before ++ x) c (after ++ y) = lowerAt before c after := by
  rw [lowerAt, lowerAt]
  split
  case isFalse => rfl
  case isTrue hc =>
    have hfinal : (meetsCased (before ++ x) && !meetsCased (after ++ y)) =
        (meetsCased before && !meetsCased after) := by
      have hsettled := h hc
      rw [isSettled] at hsettled
      rw [meetsCased_append, meetsCased_append, meetsCased_eq before, meetsCased_eq after]
      revert hsettled
      rcases nextCased? before with _ | _ | _ <;> rcases nextCased? after with _ | _ | _ <;> simp
    rw [hfinal]

theorem lowerBetween_of_isSteadyAfter (h : isSteadyAfter before s) (x y : Text) :
    lowerBetween (before ++ x) s y = lowerBetween before s [] := by
  induction s generalizing before with
  | nil => rfl
  | cons c s ih =>
    obtain ⟨hc, hs⟩ := isSteadyAfter_cons.1 h
    rw [lowerBetween_cons, lowerBetween_cons, List.append_nil, ← List.cons_append, ih hs, lowerAt_of_isSettled hc]

theorem lower_isInfix_lower_of_isSteady (hsteady : isSteady k) (h : k <:+: t) : lower k <:+: lower t := by
  obtain ⟨before, after, rfl⟩ := h
  have hk := lowerBetween_of_isSteadyAfter hsteady before.reverse after
  rw [lower_append_append, lower_eq k, ← hk]
  exact ⟨_, _, rfl⟩

/-! ### Sigmas that are not settled -/

/-- The lower case of a character has no more of this one when these texts are put further out on both sides. -/
def IsRarer (d : Char) (x y : Text) : Prop :=
  ∀ before c after, (lowerAt (before ++ x) c (after ++ y)).count d ≤ (lowerAt before c after).count d

/-- Text before a sigma does not make it less final. -/
theorem isRarer_before (x : Text) : IsRarer 'σ' x [] := by
  intro before c after
  rw [lowerAt, lowerAt, List.append_nil, meetsCased_append, meetsCased_eq before]
  split
  case isFalse => exact Nat.le_refl _
  case isTrue =>
    cases nextCased? before with
    | none => cases meetsCased x <;> cases meetsCased after <;> decide
    | some b => exact Nat.le_refl _

/-- Text behind a sigma does not make it more final. -/
theorem isRarer_behind (y : Text) : IsRarer 'ς' [] y := by
  intro before c after
  rw [lowerAt, lowerAt, List.append_nil, meetsCased_append, meetsCased_eq after]
  split
  case isFalse => exact Nat.le_refl _
  case isTrue =>
    cases nextCased? after with
    | none => cases meetsCased y <;> cases meetsCased before <;> decide
    | some b => exact Nat.le_refl _

namespace IsRarer

variable {x y p q : Text}

theorem count_lowerBetween_le (h : IsRarer d x y) (before s after : Text) :
    (lowerBetween (before ++ x) s (after ++ y)).count d ≤ (lowerBetween before s after).count d := by
  induction s generalizing before with
  | nil => exact Nat.le_refl _
  | cons c s ih =>
    rw [lowerBetween_cons, lowerBetween_cons, List.count_append, List.count_append, ← List.append_assoc]
    exact Nat.add_le_add (h before c (s ++ after)) (ih (c :: before))

theorem count_lowerBetween_lt (h : IsRarer d x y)
    (hlt : (lowerAt (p.reverse ++ x) c (q ++ y)).count d < (lowerAt p.reverse c q).count d) :
    (lowerBetween x (p ++ c :: q) y).count d < (lowerBetween [] (p ++ c :: q) []).count d := by
  have hbefore := h.count_lowerBetween_le [] p (c :: q)
  have hbehind := h.count_lowerBetween_le (c :: p.reverse) q []
  simp only [lowerBetween_append, lowerBetween_cons, List.count_append, List.append_nil, List.nil_append,
    List.cons_append] at hbefore hbehind ⊢
  omega

theorem not_lower_isInfix_lower (h : IsRarer d x y)
    (hlt : (lowerAt (p.reverse ++ x) c (q ++ y)).count d < (lowerAt p.reverse c q).count d)
    (hx : ∀ after, d ∉ lowerBetween [] x.reverse after) (hy : ∀ before, d ∉ lowerBetween before y []) :
    ¬ lower (p ++ c :: q) <:+: lower (x.reverse ++ (p ++ c :: q) ++ y) := by
  intro hinfix
  have hcount := hinfix.sublist.count_le d
  have hless := h.count_lowerBetween_lt hlt
  rw [lower_eq, lower_append_append, List.reverse_reverse, List.count_append, List.count_append,
    List.count_eq_zero.2 (hx _), List.count_eq_zero.2 (hy _)] at hcount
  omega

end IsRarer

theorem lowerAt_sigma (before after : Text) : lowerAt before 'Σ' after =
    if (nextCased? before).getD false && !(nextCased? after).getD false then ['ς'] else ['σ'] := by
  rw [lowerAt, if_pos rfl, meetsCased_eq, meetsCased_eq]

theorem nextCased?_letter : nextCased? ['A'] = some true := by decide +kernel

theorem lowerBetween_letter (before after : Text) : lowerBetween before ['A'] after = ['a'] := by
  rw [lowerBetween, lowerBetween, lowerAt, if_neg (by decide)]
  decide

/-- A needle with a sigma that is not settled stands in a text whose lower case does not hold its own. -/
theorem exists_not_lower_isInfix_lower (h : ¬ isSteady k) : ∃ t, k <:+: t ∧ ¬ lower k <:+: lower t := by
  obtain ⟨p, q, rfl, hq⟩ := exists_not_isSettled h
  simp only [List.append_nil, isSettled, Bool.or_eq_true, Bool.and_eq_true, beq_iff_eq, not_or, not_and] at hq
  obtain ⟨⟨hbefore, hbehind⟩, hone⟩ := hq
  cases hp : nextCased? p.reverse with
  | none =>
    -- A letter before the needle makes this sigma final, and no other less final.
    refine ⟨['A'] ++ (p ++ 'Σ' :: q) ++ [], ⟨['A'], [], rfl⟩,
      (isRarer_before ['A']).not_lower_isInfix_lower ?_ (fun after => ?_) fun before => List.not_mem_nil⟩
    · rw [lowerAt_sigma, lowerAt_sigma, nextCased?_append, hp, nextCased?_letter, List.append_nil]
      rcases hn : nextCased? q with _ | _ | _
      · decide
      · decide
      · exact absurd hn hbehind
    · rw [List.reverse_singleton, lowerBetween_letter]
      decide
  | some b =>
    -- A letter behind the needle makes this sigma one that is not final, and no other final.
    have hn : nextCased? q = none := by
      rw [hp] at hone
      exact Option.not_isSome_iff_eq_none.1 (hone rfl)
    refine ⟨[] ++ (p ++ 'Σ' :: q) ++ ['A'], ⟨[], ['A'], rfl⟩,
      (isRarer_behind ['A']).not_lower_isInfix_lower ?_ (fun after => List.not_mem_nil) fun before => ?_⟩
    · rw [lowerAt_sigma, lowerAt_sigma, List.append_nil, nextCased?_append, hp, hn, nextCased?_letter]
      cases b with
      | true => decide
      | false => exact absurd hp hbefore
    · rw [lowerBetween_letter]
      decide

theorem forall_lower_isInfix_lower_iff (k : Text) :
    (∀ t, k <:+: t → lower k <:+: lower t) ↔ isSteady k := by
  refine ⟨fun h => ?_, fun h t => lower_isInfix_lower_of_isSteady h⟩
  by_contra hsteady
  obtain ⟨t, hk, hlower⟩ := exists_not_lower_isInfix_lower hsteady
  exact hlower (h t hk)

/-! ### Upper case -/

/-- The small sigma for the final one. -/
def withoutFinal (c : Char) : Char := if c = 'ς' then 'σ' else c

/-- But for final sigmas, lower case is that of the characters. -/
theorem map_withoutFinal_lowerBetween (before s after : Text) :
    (lowerBetween before s after).map withoutFinal = (s.flatMap lowerChar).map withoutFinal := by
  induction s generalizing before with
  | nil => rfl
  | cons c s ih =>
    rw [lowerBetween_cons, List.flatMap_cons, List.map_append, List.map_append, ih, lowerAt]
    split
    case isFalse => rfl
    case isTrue hc =>
      have hsigma : lowerChar 'Σ' = ['σ'] := by decide
      rw [hc, hsigma]
      split <;> rfl

theorem length_lower (s : Text) : (lower s).length = (s.flatMap lowerChar).length := by
  have hlength := congrArg List.length (map_withoutFinal_lowerBetween [] s [])
  rwa [← lower_eq, List.length_map, List.length_map] at hlength

theorem countP_isLong_lower (s : Text) : (lower s).countP isLong = (s.flatMap lowerChar).countP isLong := by
  have hlong : isLong ∘ withoutFinal = isLong := by
    funext c
    by_cases hc : c = 'ς'
    · subst hc
      decide
    · rw [Function.comp_apply, withoutFinal, if_neg hc]
  have hcount := congrArg (List.countP isLong) (map_withoutFinal_lowerBetween [] s [])
  rwa [← lower_eq, List.countP_map, List.countP_map, hlong] at hcount

theorem countP_isLong_lower_upper (s : Text) :
    (lower (upper s)).countP isLong ≤ (lower s).countP isLong ∧
      ((lower (upper s)).countP isLong = (lower s).countP isLong → (lower (upper s)).length = (lower s).length) := by
  simp only [countP_isLong_lower, length_lower, upper]
  induction s with
  | nil => exact ⟨Nat.le_refl _, fun _ => rfl⟩
  | cons c s ih =>
    have hc := countP_isLong_lower_upperChar c
    simp only [List.flatMap_cons, List.flatMap_append, List.countP_append, List.length_append]
    omega

theorem lower_upper_eq (h : lower s <:+: lower (upper s)) : lower (upper s) = lower s := by
  obtain ⟨hle, hlength⟩ := countP_isLong_lower_upper s
  have hge := h.sublist.countP_le (p := isLong)
  exact (h.eq_of_length (hlength (Nat.le_antisymm hle hge)).symm).symm

theorem forall_lower_isInfix_lower_upper_iff (k : Text) :
    (∀ t, upper k <:+: t → lower k <:+: lower t) ↔ lower (upper k) = lower k ∧ isSteady (upper k) := by
  constructor
  · intro h
    have heq := lower_upper_eq (h _ List.infix_rfl)
    refine ⟨heq, (forall_lower_isInfix_lower_iff _).1 fun t ht => ?_⟩
    rw [heq]
    exact h t ht
  · rintro ⟨heq, hsteady⟩ t ht
    rw [← heq]
    exact lower_isInfix_lower_of_isSteady hsteady ht

/-! ### Without sigmas -/

theorem isSteady_of_notMem (h : 'Σ' ∉ s) : isSteady s := by
  by_contra hsteady
  obtain ⟨p, q, rfl, -⟩ := exists_not_isSettled hsteady
  exact h List.mem_append_cons_self

theorem lowerBetween_of_notMem (h : 'Σ' ∉ s) (before after : Text) :
    lowerBetween before s after = s.flatMap lowerChar := by
  induction s generalizing before with
  | nil => rfl
  | cons c s ih =>
    rw [List.mem_cons, not_or] at h
    rw [lowerBetween_cons, ih h.2, lowerAt, if_neg (Ne.symm h.1), List.flatMap_cons]

/-- A needle of the first characters has the lower case of its upper case, and no sigmas. -/
theorem lower_upper_of_ascii (h : ∀ c ∈ s, c.toNat < 0x80) : lower (upper s) = lower s ∧ 'Σ' ∉ upper s ∧ 'Σ' ∉ s := by
  have hascii : ∀ n < 128, (upperChar (Char.ofNat n)).flatMap lowerChar = lowerChar (Char.ofNat n) ∧
      'Σ' ∉ upperChar (Char.ofNat n) ∧ 'Σ' ≠ Char.ofNat n := by
    decide
  have hchar : ∀ c ∈ s, (upperChar c).flatMap lowerChar = lowerChar c ∧ 'Σ' ∉ upperChar c ∧ 'Σ' ≠ c := fun c hc =>
    forall_ascii (p := fun c => (upperChar c).flatMap lowerChar = lowerChar c ∧ 'Σ' ∉ upperChar c ∧ 'Σ' ≠ c)
      hascii (h c hc)
  have hs : 'Σ' ∉ s := fun hmem => (hchar _ hmem).2.2 rfl
  have hupper : 'Σ' ∉ upper s := by
    rintro hmem
    obtain ⟨c, hc, hsigma⟩ := List.mem_flatMap.1 hmem
    exact (hchar c hc).2.1 hsigma
  refine ⟨?_, hupper, hs⟩
  rw [lower_eq, lower_eq, lowerBetween_of_notMem hupper, lowerBetween_of_notMem hs, upper, List.flatMap_assoc]
  exact List.flatMap_congr fun c hc => (hchar c hc).1

end DeckMerge.Text
