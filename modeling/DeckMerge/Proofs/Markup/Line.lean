import DeckMerge.Markup.Line
import DeckMerge.Proofs.Text.Search
import Mathlib.Data.List.Basic

/-!
How many lines a value has: one, unless it holds a line break.
-/

namespace DeckMerge

namespace Text

@[simp] theorem splitAt_mark (mark : Char) (s : Text) : splitAt mark (mark :: s) = [] :: splitAt mark s :=
  if_pos rfl

/-- A character that is no mark is put before the first piece. -/
theorem splitAt_cons_of_ne {mark c : Char} {s piece : Text} {pieces : List Text} (hc : c ≠ mark)
    (h : splitAt mark s = piece :: pieces) : splitAt mark (c :: s) = (c :: piece) :: pieces := by
  rw [splitAt, if_neg hc, h]

theorem exists_splitAt_eq_cons (mark : Char) (s : Text) : ∃ piece pieces,
    splitAt mark s = piece :: pieces := by
  induction s with
  | nil => exact ⟨[], [], rfl⟩
  | cons c s ih =>
    by_cases hc : c = mark
    · subst hc
      exact ⟨_, _, splitAt_mark c s⟩
    · obtain ⟨piece, pieces, h⟩ := ih
      exact ⟨_, _, splitAt_cons_of_ne hc h⟩

theorem splitAt_ne_nil (mark : Char) (s : Text) : splitAt mark s ≠ [] := by
  obtain ⟨piece, pieces, h⟩ := exists_splitAt_eq_cons mark s
  rw [h]
  exact List.cons_ne_nil piece pieces

theorem splitAt_of_notMem {mark : Char} {s : Text} (h : mark ∉ s) : splitAt mark s = [s] := by
  induction s with
  | nil => rfl
  | cons c s ih =>
    rw [List.mem_cons, not_or] at h
    exact splitAt_cons_of_ne (Ne.symm h.1) (ih h.2)

theorem splitAt_append {mark : Char} {s : Text} (h : mark ∉ s) (t : Text) :
    splitAt mark (s ++ mark :: t) = s :: splitAt mark t := by
  induction s with
  | nil => exact splitAt_mark mark t
  | cons c s ih =>
    rw [List.mem_cons, not_or] at h
    exact splitAt_cons_of_ne (Ne.symm h.1) (ih h.2)

theorem joinWith_splitAt (mark : Char) (s : Text) : joinWith [mark] (splitAt mark s) = s := by
  induction s with
  | nil => rfl
  | cons c s ih =>
    by_cases hc : c = mark
    · subst hc
      rw [splitAt_mark, joinWith_cons_of_ne_nil (splitAt_ne_nil c s), ih]
      rfl
    · obtain ⟨piece, pieces, h⟩ := exists_splitAt_eq_cons mark s
      rw [h] at ih
      rw [splitAt_cons_of_ne hc h, ← ih]
      cases pieces <;> rfl

theorem length_splitAt (mark : Char) (s : Text) : (splitAt mark s).length = s.count mark + 1 := by
  induction s with
  | nil => rfl
  | cons c s ih =>
    by_cases hc : c = mark
    · simp [hc, ih]
    · obtain ⟨piece, pieces, h⟩ := exists_splitAt_eq_cons mark s
      rw [splitAt_cons_of_ne hc h, List.count_cons_of_ne hc, ← ih, h]
      rfl

end Text

namespace Markup

variable {v : Text}

theorem mem_normalizeBreaks_iff : '\n' ∈ normalizeBreaks v ↔ hasBreak v := by
  unfold hasBreak
  fun_induction normalizeBreaks v with
  | case1 => simp
  | case2 => simp
  | case3 => simp
  | case4 c s _ hc ih =>
    have hne : c ≠ '\r' := fun h => hc h
    simp only [List.mem_cons, List.any_cons, ih, Bool.or_eq_true, decide_eq_true_eq, hne, or_false]
    rw [eq_comm]

theorem normalizeBreaks_of_notMem (h : '\r' ∉ v) : normalizeBreaks v = v := by
  fun_induction normalizeBreaks v with
  | case1 => rfl
  | case2 => simp at h
  | case3 => simp at h
  | case4 c s _ _ ih => rw [ih fun hmem => h (List.mem_cons_of_mem c hmem)]

theorem normalizeBreaks_of_not_hasBreak (h : ¬ hasBreak v) : normalizeBreaks v = v :=
  normalizeBreaks_of_notMem fun hmem => h (List.any_eq_true.2 ⟨_, hmem, by decide⟩)

theorem lines_ne_nil (v : Text) : lines v ≠ [] := Text.splitAt_ne_nil _ _

theorem lines_of_not_hasBreak (h : ¬ hasBreak v) : lines v = [v] := by
  rw [lines, normalizeBreaks_of_not_hasBreak h, Text.splitAt_of_notMem]
  rwa [← normalizeBreaks_of_not_hasBreak h, mem_normalizeBreaks_iff]

theorem one_lt_length_lines (h : hasBreak v) : 1 < (lines v).length := by
  rw [lines, Text.length_splitAt]
  have := List.count_pos_iff.2 (mem_normalizeBreaks_iff.2 h)
  omega

end Markup

end DeckMerge
