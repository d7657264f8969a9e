import DeckMerge.Proofs.Text.Search

/-!
Searching a text in two parts. Where no form crosses the seam, the first form of the whole is that of
the first part that has one, and the last form that of the last part that has one.
-/

namespace DeckMerge.Recogniser

variable {r : Recogniser Text} {s x y before a rest : Text}

/-- A form is what is read. -/
def Verbatim (r : Recogniser Text) : Prop := ∀ s a rest, r s = some (a, rest) → s = a ++ rest

/-- A form that begins in this text ends in it, whatever follows. -/
def StaysIn (r : Recogniser Text) (x : Text) : Prop :=
  ∀ v t, v ≠ [] → v <:+ x → r (v ++ t) = (r v).map fun p => (p.1, p.2 ++ t)

theorem StaysIn.suffix (h : r.StaysIn x) (hy : y <:+ x) : r.StaysIn y :=
  fun v t hv hs => h v t hv (hs.trans hy)

theorem Verbatim.find? (hv : r.Verbatim) (h : r.find? s = some (before, a, rest)) :
    s = before ++ a ++ rest := by
  induction s generalizing before with
  | nil =>
    obtain ⟨⟨a', rest'⟩, hr, heq⟩ := Option.map_eq_some_iff.1 (show (r []).map _ = _ from h)
    cases heq
    exact hv _ _ _ hr
  | cons c s ih =>
    cases hc : r (c :: s) with
    | none =>
      rw [find?_cons hc, Option.map_eq_some_iff] at h
      obtain ⟨⟨before', found⟩, hf, heq⟩ := h
      obtain ⟨rfl, rfl⟩ := Prod.mk.inj heq
      simp [ih hf]
    | some p =>
      obtain ⟨a', rest'⟩ := p
      rw [find?_of_read (List.cons_ne_nil c s) hc] at h
      obtain ⟨rfl, heq⟩ := Prod.mk.inj (Option.some.inj h)
      obtain ⟨rfl, rfl⟩ := Prod.mk.inj heq
      exact hv _ _ _ hc

theorem find?_eq_none_iff (hr : r.Advances) : r.find? s = none ↔ ∀ t, t <:+ s → r t = none := by
  rw [← Option.not_isSome_iff_eq_none, find?_isSome_iff hr]
  simp

/-! ### The first form -/

theorem find?_append_of_eq_none (hx : r.StaysIn x) (h : r.find? x = none) (y : Text) :
    r.find? (x ++ y) = (r.find? y).map fun p => (x ++ p.1, p.2) := by
  induction x with
  | nil => simp
  | cons c x ih =>
    have hread := hx (c :: x) y (by simp) (List.suffix_refl _)
    cases hc : r (c :: x) with
    | some p => simp [find?_of_read (List.cons_ne_nil c x) hc] at h
    | none =>
      rw [find?_cons hc, Option.map_eq_none_iff] at h
      rw [hc, Option.map_none, List.cons_append] at hread
      rw [List.cons_append, find?_cons hread, ih (hx.suffix (List.suffix_cons c x)) h, Option.map_map]
      rfl

theorem find?_append_of_eq_some (hr : r.Advances) (hx : r.StaysIn x)
    (h : r.find? x = some (before, a, rest)) (y : Text) :
    r.find? (x ++ y) = some (before, a, rest ++ y) := by
  induction x generalizing before with
  | nil => simp [find?_nil hr] at h
  | cons c x ih =>
    have hread := hx (c :: x) y (by simp) (List.suffix_refl _)
    cases hc : r (c :: x) with
    | none =>
      rw [find?_cons hc, Option.map_eq_some_iff] at h
      obtain ⟨⟨before', found⟩, hf, heq⟩ := h
      obtain ⟨rfl, rfl⟩ := Prod.mk.inj heq
      rw [hc, Option.map_none, List.cons_append] at hread
      rw [List.cons_append, find?_cons hread, ih (hx.suffix (List.suffix_cons c x)) hf]
      rfl
    | some p =>
      obtain ⟨a', rest'⟩ := p
      rw [find?_of_read (List.cons_ne_nil c x) hc] at h
      obtain ⟨rfl, heq⟩ := Prod.mk.inj (Option.some.inj h)
      obtain ⟨rfl, rfl⟩ := Prod.mk.inj heq
      exact find?_of_read (by simp) (by rw [hread, hc]; rfl)

/-! ### The last form -/

theorem findLast?_of_find?_eq_none (h : r.find? s = none) : r.findLast? s = none := by
  rw [findLast?, h]

theorem findLast?_of_find? (hr : r.Advances) (hv : r.Verbatim)
    (h : r.find? s = some (before, a, rest)) :
    r.findLast? s = match r.findLast? rest with
      | none => some (before, a, rest)
      | some (before', a', rest') => some (before ++ a ++ before', a', rest') := by
  have hlt := find?_length_lt hr h
  have htake : s.take (s.length - rest.length) = before ++ a := by
    rw [hv.find? h, List.length_append, Nat.add_sub_cancel, List.take_left]
  rw [findLast?, h]
  simp only [hlt, if_true, htake]
  cases r.findLast? rest <;> rfl

theorem Verbatim.findLast? (hr : r.Advances) (hv : r.Verbatim)
    (h : r.findLast? s = some (before, a, rest)) : s = before ++ a ++ rest := by
  induction hn : s.length using Nat.strongRecOn generalizing s before with
  | ind n ih =>
    cases hf : r.find? s with
    | none => simp [findLast?_of_find?_eq_none hf] at h
    | some p =>
      obtain ⟨before₁, a₁, rest₁⟩ := p
      rw [findLast?_of_find? hr hv hf] at h
      have hs := hv.find? hf
      cases hl : r.findLast? rest₁ with
      | none =>
        rw [hl] at h
        obtain ⟨rfl, rfl, rfl⟩ : before₁ = before ∧ a₁ = a ∧ rest₁ = rest := by simpa using h
        exact hs
      | some q =>
        obtain ⟨before₂, a₂, rest₂⟩ := q
        rw [hl] at h
        obtain ⟨rfl, rfl, rfl⟩ : before₁ ++ a₁ ++ before₂ = before ∧ a₂ = a ∧ rest₂ = rest := by
          simpa using h
        have hrest := ih _ (hn ▸ find?_length_lt hr hf) hl rfl
        simp [hs, hrest]

/-- The last form is in the second part if there is one. -/
theorem findLast?_append_of_eq_some (hr : r.Advances) (hv : r.Verbatim) (hx : r.StaysIn x)
    (h : r.findLast? y = some (before, a, rest)) :
    r.findLast? (x ++ y) = some (x ++ before, a, rest) := by
  -- behind its first form, what is left of `x` is shorter and still does not reach over the seam
  induction hn : x.length using Nat.strongRecOn generalizing x with
  | ind n ih =>
    cases hf : r.find? x with
    | none =>
      cases hy : r.find? y with
      | none => simp [findLast?_of_find?_eq_none hy] at h
      | some p =>
        obtain ⟨before₁, a₁, rest₁⟩ := p
        have hfind : r.find? (x ++ y) = some (x ++ before₁, a₁, rest₁) := by
          rw [find?_append_of_eq_none hx hf, hy]
          rfl
        rw [findLast?_of_find? hr hv hy] at h
        rw [findLast?_of_find? hr hv hfind]
        cases hl : r.findLast? rest₁ with
        | none => simpa [hl] using h
        | some q => simpa [hl] using h
    | some p =>
      obtain ⟨before₁, a₁, rest₁⟩ := p
      have hs := hv.find? hf
      have hsuffix : rest₁ <:+ x := ⟨before₁ ++ a₁, hs.symm⟩
      rw [findLast?_of_find? hr hv (find?_append_of_eq_some hr hx hf y),
        ih _ (hn ▸ find?_length_lt hr hf) (hx.suffix hsuffix) rfl]
      simp [hs]

/-- The last form is in the first part if the second has none. -/
theorem findLast?_append_of_eq_none (hr : r.Advances) (hv : r.Verbatim) (hx : r.StaysIn x)
    (h : r.find? y = none) :
    r.findLast? (x ++ y) = (r.findLast? x).map fun p => (p.1, p.2.1, p.2.2 ++ y) := by
  induction hn : x.length using Nat.strongRecOn generalizing x with
  | ind n ih =>
    cases hf : r.find? x with
    | none =>
      have hfind : r.find? (x ++ y) = none := by rw [find?_append_of_eq_none hx hf, h]; rfl
      rw [findLast?_of_find?_eq_none hfind, findLast?_of_find?_eq_none hf]
      rfl
    | some p =>
      obtain ⟨before₁, a₁, rest₁⟩ := p
      have hsuffix : rest₁ <:+ x := ⟨before₁ ++ a₁, (hv.find? hf).symm⟩
      rw [findLast?_of_find? hr hv (find?_append_of_eq_some hr hx hf y),
        ih _ (hn ▸ find?_length_lt hr hf) (hx.suffix hsuffix) rfl, findLast?_of_find? hr hv hf]
      cases r.findLast? rest₁ <;> rfl

/-! ### What is found -/

/-- The first form begins no later than any other. -/
theorem exists_find?_of_read (hs : s ≠ []) (h : r s = some (a, rest)) (u : Text) :
    ∃ before a' rest', r.find? (u ++ s) = some (before, a', rest') ∧ before <+: u := by
  induction u with
  | nil => exact ⟨[], a, rest, find?_of_read hs h, List.prefix_refl []⟩
  | cons c u ih =>
    cases hc : r (c :: (u ++ s)) with
    | some p => exact ⟨[], p.1, p.2, find?_of_read (by simp) hc, List.nil_prefix⟩
    | none =>
      obtain ⟨before, a', rest', hfind, hbefore⟩ := ih
      refine ⟨c :: before, a', rest', ?_, List.prefix_cons_inj c |>.2 hbefore⟩
      rw [List.cons_append, find?, hc, hfind]
      rfl

theorem exists_read_of_find? (h : r.find? s = some (before, a, rest)) : ∃ t, r t = some (a, rest) := by
  induction s generalizing before with
  | nil =>
    obtain ⟨p, hp, heq⟩ := Option.map_eq_some_iff.1 h
    exact ⟨[], hp.trans (congrArg some (Prod.mk.inj heq).2)⟩
  | cons c s ih =>
    cases hc : r (c :: s) with
    | none =>
      rw [find?, hc] at h
      obtain ⟨⟨before', a', rest'⟩, hfind, heq⟩ := Option.map_eq_some_iff.1 h
      obtain ⟨rfl, rfl⟩ := Prod.mk.inj (Prod.mk.inj heq).2
      exact ih hfind
    | some p =>
      rw [find?_of_read (by simp) hc] at h
      exact ⟨_, hc.trans (congrArg some (Prod.mk.inj (Option.some.inj h)).2)⟩

/-- The last form is read where it stands, and none begins behind it. -/
theorem exists_read_of_findLast? (hr : r.Advances) (hv : r.Verbatim)
    (h : r.findLast? s = some (before, a, rest)) : (∃ t, r t = some (a, rest)) ∧ r.find? rest = none := by
  induction hn : s.length using Nat.strongRecOn generalizing s before with
  | ind n ih =>
    cases hf : r.find? s with
    | none => simp [findLast?_of_find?_eq_none hf] at h
    | some p =>
      obtain ⟨before₁, a₁, rest₁⟩ := p
      rw [findLast?_of_find? hr hv hf] at h
      cases hl : r.findLast? rest₁ with
      | some q =>
        obtain ⟨before₂, a₂, rest₂⟩ := q
        rw [hl] at h
        obtain ⟨rfl, rfl⟩ := Prod.mk.inj (Prod.mk.inj (Option.some.inj h)).2
        exact ih _ (hn ▸ find?_length_lt hr hf) hl rfl
      | none =>
        rw [hl] at h
        obtain ⟨rfl, rfl⟩ := Prod.mk.inj (Prod.mk.inj (Option.some.inj h)).2
        refine ⟨exists_read_of_find? hf, ?_⟩
        cases hrest : r.find? rest₁ with
        | none => rfl
        | some q =>
          rw [findLast?_of_find? hr hv hrest] at hl
          split at hl <;> cases hl

end DeckMerge.Recogniser
