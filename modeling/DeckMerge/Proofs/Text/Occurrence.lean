import DeckMerge.Proofs.Text.Search

/-!
Where a needle occurs. `breakOn?` cuts a text around its leftmost occurrence; looking on behind each
occurrence finds all of them that do not overlap, and `splitOn` gives the pieces between these.
-/

namespace DeckMerge.Text

variable {needle s before rest tail : Text} {found : List (Text × Text)}

/-- A text is cut around the leftmost occurrence of a needle. -/
structure First (needle s before rest : Text) : Prop where
  eq_append : s = before ++ needle ++ rest
  leftmost : ∀ b r, s = b ++ needle ++ r → before.length ≤ b.length

theorem First.unique {before' rest' : Text} (h : First needle s before rest)
    (h' : First needle s before' rest') : before = before' ∧ rest = rest' := by
  have hlen : before.length = before'.length :=
    Nat.le_antisymm (h.leftmost _ _ h'.eq_append) (h'.leftmost _ _ h.eq_append)
  have heq : before ++ needle ++ rest = before' ++ needle ++ rest' := by
    rw [← h.eq_append, h'.eq_append]
  obtain ⟨hfront, hrest⟩ := List.append_inj heq (by simp [hlen])
  exact ⟨List.append_cancel_right hfront, hrest⟩

theorem First.length_lt (h : First needle s before rest) (hne : needle ≠ []) :
    rest.length < s.length := by
  have := List.length_pos_iff.2 hne
  rw [h.eq_append]
  simp only [List.length_append]
  omega

theorem First.isInfix (h : First needle s before rest) : needle <:+: s :=
  ⟨before, rest, h.eq_append.symm⟩

/-- No occurrence stands before the leftmost one. -/
theorem First.not_isInfix_before (h : First needle s before rest) (hne : needle ≠ []) :
    ¬ needle <:+: before := by
  rintro ⟨b, r, heq⟩
  have hlen := h.leftmost b (r ++ needle ++ rest) (by simp [h.eq_append, ← heq])
  have hpos := List.length_pos_iff.2 hne
  simp only [← heq, List.length_append] at hlen
  omega

theorem breakOn?_eq_none_iff (hne : needle ≠ []) : breakOn? needle s = none ↔ ¬ needle <:+: s := by
  induction s with
  | nil => simp [hne]
  | cons c s ih =>
    rw [List.infix_cons_iff]
    by_cases hp : needle <+: c :: s
    · obtain ⟨t, ht⟩ := hp
      simp [← ht, breakOn?_of_isPrefix hne]
    · simp [breakOn?_cons_of_not_isPrefix hp, ih, hp]

theorem holds_iff : s.holds needle ↔ needle <:+: s := by
  by_cases hne : needle = []
  · subst hne
    cases s <;> simp [holds, breakOn?, List.isPrefixOf?]
  · rw [holds, ← not_iff_not, Option.not_isSome_iff_eq_none, breakOn?_eq_none_iff hne]

theorem first_of_breakOn? (hne : needle ≠ []) (h : breakOn? needle s = some (before, rest)) :
    First needle s before rest := by
  refine ⟨eq_append_of_breakOn? hne h, ?_⟩
  induction s generalizing before with
  | nil => simp [hne] at h
  | cons c s ih =>
    intro b r hb
    by_cases hp : needle <+: c :: s
    · obtain ⟨t, ht⟩ := hp
      rw [← ht, breakOn?_of_isPrefix hne] at h
      simp_all
    · rw [breakOn?_cons_of_not_isPrefix hp, Option.map_eq_some_iff] at h
      obtain ⟨⟨before', rest'⟩, hr, heq⟩ := h
      obtain ⟨rfl, rfl⟩ := Prod.mk.inj heq
      cases b with
      | nil => exact absurd ⟨r, by simpa using hb.symm⟩ hp
      | cons d b =>
        have hs : s = b ++ needle ++ r := by simpa using (List.cons.inj hb).2
        exact Nat.succ_le_succ (ih hr b r hs)

theorem breakOn?_eq_some_iff (hne : needle ≠ []) :
    breakOn? needle s = some (before, rest) ↔ First needle s before rest := by
  refine ⟨first_of_breakOn? hne, fun h => ?_⟩
  cases hb : breakOn? needle s with
  | none => exact absurd h.isInfix ((breakOn?_eq_none_iff hne).1 hb)
  | some p =>
    obtain ⟨rfl, rfl⟩ := h.unique (first_of_breakOn? hne hb)
    rfl

/-- What holds no such character occurs on one side of it. -/
theorem infix_append_cons {c : Char} {w x y : Text} (hc : c ∉ w) (h : w <:+: x ++ c :: y) :
    w <:+: x ∨ w <:+: y := by
  rw [List.infix_append_iff_ne_nil] at h
  rcases h with h | h | ⟨l, r, -, hr, rfl, -, hprefix⟩
  · exact .inl h
  · rcases List.infix_cons_iff.1 h with h | h
    · cases w with
      | nil => exact .inr (List.nil_infix)
      | cons c' w =>
        obtain ⟨rfl, -⟩ := List.cons_prefix_cons.1 h
        simp at hc
    · exact .inr h
  · obtain ⟨c', r, rfl⟩ := List.exists_cons_of_ne_nil hr
    obtain ⟨rfl, -⟩ := List.cons_prefix_cons.1 hprefix
    simp at hc

/-- A needle between these two texts occurs there alone. -/
def Once (needle before rest : Text) : Prop :=
  ∀ b r, before ++ needle ++ rest = b ++ needle ++ r → b = before

theorem Once.first (h : Once needle before rest) : First needle (before ++ needle ++ rest) before rest :=
  ⟨rfl, fun b r heq => Nat.le_of_eq (by rw [h b r heq])⟩

theorem Once.not_isInfix (h : Once needle before rest) (hne : needle ≠ []) : ¬ needle <:+: rest := by
  rintro ⟨b, r, rfl⟩
  have heq := congrArg List.length (h (before ++ needle ++ b) r (by simp))
  have := List.length_pos_iff.2 hne
  simp only [List.length_append] at heq
  omega

/-- Nowhere else: not before, not behind, and not from within the needle on. -/
theorem once_iff_breakOn? (hne : needle ≠ []) : Once needle before rest ↔
    breakOn? needle (before ++ needle ++ rest) = some (before, rest) ∧
      breakOn? needle (needle.tail ++ rest) = none := by
  rw [breakOn?_eq_some_iff hne, breakOn?_eq_none_iff hne]
  obtain ⟨c, needle, rfl⟩ := List.exists_cons_of_ne_nil hne
  constructor
  · intro h
    refine ⟨h.first, ?_⟩
    rintro ⟨b, r, heq⟩
    have hlen := congrArg List.length (h (before ++ c :: b) r (by simpa using heq.symm))
    simp at hlen
  · rintro ⟨hfirst, hbehind⟩ b r heq
    rw [List.append_assoc, List.append_assoc] at heq
    rcases List.append_eq_append_iff.1 heq with ⟨w, rfl, hw⟩ | ⟨w, rfl, hw⟩
    · cases w with
      | nil => simp
      | cons c' w =>
        obtain ⟨rfl, htail⟩ := List.cons.inj hw
        exact absurd ⟨w, r, by simpa using htail.symm⟩ hbehind
    · have hlen := hfirst.leftmost b r (by simpa using heq)
      rw [List.length_append] at hlen
      have hw : w = [] := List.length_eq_zero_iff.1 (by omega)
      simp [hw]

/-- The occurrences of a needle from left to right, none overlapping the one before it: for each, what
stands before it since the last one, and all that follows it. `tail` is what follows the last. -/
inductive Occurrences (needle : Text) : Text → List (Text × Text) → Text → Prop
  | none {s : Text} : ¬ needle <:+: s → Occurrences needle s [] s
  | more {s before rest : Text} {found : List (Text × Text)} {tail : Text} :
    First needle s before rest → Occurrences needle rest found tail →
      Occurrences needle s ((before, rest) :: found) tail

theorem exists_occurrences (hne : needle ≠ []) (s : Text) :
    ∃ found tail, Occurrences needle s found tail := by
  induction hn : s.length using Nat.strongRecOn generalizing s with
  | ind n ih =>
    cases h : breakOn? needle s with
    | none => exact ⟨[], s, .none ((breakOn?_eq_none_iff hne).1 h)⟩
    | some p =>
      obtain ⟨before, rest⟩ := p
      have hfirst := first_of_breakOn? hne h
      obtain ⟨found, tail, hrest⟩ := ih _ (hn ▸ hfirst.length_lt hne) rest rfl
      exact ⟨_, tail, .more hfirst hrest⟩

theorem Occurrences.splitOn_eq (h : Occurrences needle s found tail) (hne : needle ≠ []) :
    splitOn needle s = found.map (·.1) ++ [tail] := by
  induction h with
  | none hs => exact splitOn_of_breakOn?_eq_none ((breakOn?_eq_none_iff hne).2 hs)
  | more hfirst _ ih =>
    rw [splitOn_of_breakOn?_eq_some ((breakOn?_eq_some_iff hne).2 hfirst) (hfirst.length_lt hne), ih]
    rfl

theorem joinWith_append_singleton (mark : Text) (pieces : List Text) (tail : Text) :
    joinWith mark (pieces ++ [tail]) = pieces.flatMap (· ++ mark) ++ tail := by
  induction pieces with
  | nil => rfl
  | cons piece pieces ih => simp [ih]

end DeckMerge.Text
