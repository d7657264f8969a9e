import DeckMerge.Proofs.Text.Search

/-!
All forms of a text. `findAll` cuts a text at its forms from left to right, and there is no other way to
cut it so.
-/

namespace DeckMerge

/-- Of two ways to cut a text the first cut is not behind the second one, or it is. -/
theorem Text.append_cases {x y s t : Text} (h : x ++ s = y ++ t) :
    (∃ w, y = x ++ w ∧ s = w ++ t) ∨ ∃ w, w ≠ [] ∧ x = y ++ w ∧ t = w ++ s := by
  rcases List.append_eq_append_iff.1 h with ⟨w, hy, hs⟩ | ⟨w, hx, ht⟩
  · exact .inl ⟨w, hy, hs⟩
  · by_cases hw : w = []
    · exact .inl ⟨[], by simp [hx, hw], by simp [ht, hw]⟩
    · exact .inr ⟨w, hw, hx, ht⟩

namespace Recogniser

variable {α : Type} {r : Recogniser α} {s gap tail : Text} {c : Char} {a : α}
  {found : List (Text × α)}

/-- No form begins in the first text when the second one follows it. -/
def Bare (r : Recogniser α) (gap s : Text) : Prop :=
  ∀ v, v ≠ [] → v <:+ gap → r (v ++ s) = none

theorem bare_nil (r : Recogniser α) (s : Text) : r.Bare [] s := by
  intro v hv hsuffix
  exact absurd (List.suffix_nil.1 hsuffix) hv

theorem bare_cons_iff : r.Bare (c :: gap) s ↔ r (c :: (gap ++ s)) = none ∧ r.Bare gap s := by
  constructor
  · intro h
    exact ⟨h _ (by simp) (List.suffix_refl _), fun v hv hs => h v hv (hs.trans (List.suffix_cons c gap))⟩
  · rintro ⟨hhead, hrest⟩ v hv hs
    rcases List.suffix_cons_iff.1 hs with rfl | hs
    · exact hhead
    · exact hrest v hv hs

/-- A text cut at its forms, each the first one behind the form before it. -/
inductive Cuts (r : Recogniser α) : Text → List (Text × α) → Text → Prop
  | tail {tail : Text} : r.Bare tail [] → Cuts r tail [] tail
  | form {gap s rest tail : Text} {a : α} {found : List (Text × α)} : r.Bare gap s →
    r s = some (a, rest) → Cuts r rest found tail → Cuts r (gap ++ s) ((gap, a) :: found) tail

theorem Cuts.cons (h : r.Cuts s found tail) (hc : r (c :: s) = none) :
    r.Cuts (c :: s) (withBefore c (found, tail)).1 (withBefore c (found, tail)).2 := by
  cases h with
  | tail hbare => exact .tail (bare_cons_iff.2 ⟨by simpa using hc, hbare⟩)
  | form hbare hread hrest => exact .form (bare_cons_iff.2 ⟨hc, hbare⟩) hread hrest

theorem cuts_findAll (hr : r.Advances) (s : Text) : r.Cuts s (r.findAll s).1 (r.findAll s).2 := by
  induction hn : s.length using Nat.strongRecOn generalizing s with
  | ind n ih =>
    cases s with
    | nil =>
      rw [findAll_nil hr]
      exact .tail (bare_nil r [])
    | cons c s =>
      cases hc : r (c :: s) with
      | none =>
        rw [findAll_cons hr hc]
        exact (ih s.length (by simp [← hn]) s rfl).cons hc
      | some p =>
        obtain ⟨a, rest⟩ := p
        rw [findAll_of_read hr hc]
        exact .form (bare_nil r _) hc (ih rest.length (hn ▸ hr _ _ _ hc) rest rfl)

theorem findAll_append_of_bare (hr : r.Advances) (h : r.Bare gap s) :
    r.findAll (gap ++ s) = gap.foldr withBefore (r.findAll s) := by
  induction gap with
  | nil => rfl
  | cons c gap ih =>
    obtain ⟨hc, hgap⟩ := bare_cons_iff.1 h
    rw [List.cons_append, findAll_cons hr hc, ih hgap, List.foldr_cons]

theorem foldr_withBefore_nil (gap tail : Text) :
    gap.foldr withBefore (([] : List (Text × α)), tail) = ([], gap ++ tail) := by
  induction gap with
  | nil => rfl
  | cons c gap ih => rw [List.foldr_cons, ih]; rfl

theorem foldr_withBefore_cons (gap : Text) (a : α) (found : List (Text × α)) (tail : Text) :
    gap.foldr withBefore (([], a) :: found, tail) = ((gap, a) :: found, tail) := by
  induction gap with
  | nil => rfl
  | cons c gap ih => rw [List.foldr_cons, ih]; rfl

theorem Cuts.findAll_eq (hr : r.Advances) (h : r.Cuts s found tail) : r.findAll s = (found, tail) := by
  induction h with
  | @tail tail hbare =>
    have h := findAll_append_of_bare hr hbare
    rwa [List.append_nil, findAll_nil hr, foldr_withBefore_nil, List.append_nil] at h
  | form hbare hread _ ih =>
    rw [findAll_append_of_bare hr hbare, findAll_of_read hr hread, ih, foldr_withBefore_cons]

end Recogniser

end DeckMerge
