import DeckMerge.Text.Basic
import Mathlib.Data.List.Basic
import Mathlib.Data.List.TakeDrop
import Mathlib.Data.List.TakeWhile

/-!
Laws of the searches: what a needle or a recogniser finds depends on the front of a text alone, so
a text can be searched character by character.
-/

namespace DeckMerge

namespace Text

variable {needle s t : Text} {c : Char}

@[simp] theorem breakOn?_nil (hne : needle ≠ []) : breakOn? needle [] = none := if_neg hne

theorem breakOn?_of_isPrefix (hne : needle ≠ []) (s : Text) :
    breakOn? needle (needle ++ s) = some ([], s) := by
  cases needle with
  | nil => exact absurd rfl hne
  | cons c needle =>
    have h : (c :: needle).isPrefixOf? (c :: (needle ++ s)) = some s :=
      List.isPrefixOf?_eq_some_iff_append_eq.2 rfl
    simp [breakOn?, h]

theorem breakOn?_cons_of_not_isPrefix (h : ¬ needle <+: c :: s) :
    breakOn? needle (c :: s) = (breakOn? needle s).map fun r => (c :: r.1, r.2) := by
  have h : needle.isPrefixOf? (c :: s) = none := by
    rw [Option.eq_none_iff_forall_ne_some]
    intro rest hr
    exact h ⟨rest, List.isPrefixOf?_eq_some_iff_append_eq.1 hr⟩
  simp [breakOn?, h]

/-- A needle is not found where its first character does not stand. -/
theorem breakOn?_append_of_notMem (h : c ∉ t) (s : Text) :
    breakOn? (c :: needle) (t ++ s) = (breakOn? (c :: needle) s).map fun r => (t ++ r.1, r.2) := by
  induction t with
  | nil => simp
  | cons d t ih =>
    have hd : ¬ c :: needle <+: d :: (t ++ s) := by
      intro hp
      have hc : c = d := (List.cons_prefix_cons.1 hp).1
      simp [hc] at h
    rw [List.cons_append, breakOn?_cons_of_not_isPrefix hd, ih (by simp_all), Option.map_map]
    rfl

theorem eq_append_of_breakOn? (hne : needle ≠ []) {before rest : Text}
    (h : breakOn? needle s = some (before, rest)) : s = before ++ needle ++ rest := by
  induction s generalizing before with
  | nil => simp [hne] at h
  | cons c s ih =>
    by_cases hp : needle <+: c :: s
    · obtain ⟨t, ht⟩ := hp
      rw [← ht, breakOn?_of_isPrefix hne] at h
      simp_all
    · rw [breakOn?_cons_of_not_isPrefix hp, Option.map_eq_some_iff] at h
      obtain ⟨⟨before', rest'⟩, hr, heq⟩ := h
      obtain ⟨rfl, rfl⟩ := Prod.mk.inj heq
      simp [ih hr]

theorem splitOn_of_breakOn?_eq_none (h : breakOn? needle s = none) : splitOn needle s = [s] := by
  rw [splitOn, h]

theorem splitOn_of_breakOn?_eq_some {before rest : Text} (h : breakOn? needle s = some (before, rest))
    (hlt : rest.length < s.length) : splitOn needle s = before :: splitOn needle rest := by
  rw [splitOn, h]
  simp [hlt]

theorem splitOn_ne_nil (needle s : Text) : splitOn needle s ≠ [] := by
  rw [splitOn]
  cases breakOn? needle s with
  | none => simp
  | some r => simp only; split <;> simp

theorem length_splitOn_eq_one_iff (hne : needle ≠ []) :
    (splitOn needle s).length = 1 ↔ breakOn? needle s = none := by
  cases h : breakOn? needle s with
  | none => simp [splitOn_of_breakOn?_eq_none h]
  | some r =>
    have hlt : r.2.length < s.length := by
      have := List.length_pos_iff.2 hne
      rw [eq_append_of_breakOn? hne h]
      simp only [List.length_append]
      omega
    rw [splitOn_of_breakOn?_eq_some h hlt]
    simp [splitOn_ne_nil]

@[simp] theorem joinWith_cons_of_ne_nil {mark piece : Text} {pieces : List Text} (h : pieces ≠ []) :
    joinWith mark (piece :: pieces) = piece ++ mark ++ joinWith mark pieces := by
  cases pieces with
  | nil => exact absurd rfl h
  | cons => rfl

theorem isPrefixOf?_append (w t : Text) : w.isPrefixOf? (w ++ t) = some t :=
  List.isPrefixOf?_eq_some_iff_append_eq.2 rfl

/-- A span ends where it cannot go on. -/
theorem span_eq_iff {p : Char → Bool} {front rest : Text} : s.span p = (front, rest) ↔
    s = front ++ rest ∧ front.all p ∧ rest.head?.any p = false := by
  rw [List.span_eq_takeWhile_dropWhile, Prod.mk.injEq]
  constructor
  · rintro ⟨rfl, rfl⟩
    refine ⟨List.takeWhile_append_dropWhile.symm, List.all_takeWhile, ?_⟩
    have hhead := List.head?_dropWhile_not p s
    cases hd : (s.dropWhile p).head? with
    | none => rfl
    | some c => simpa [hd] using hhead
  · rintro ⟨rfl, hall, hrest⟩
    have hpos : ∀ c ∈ front, p c := by simpa using hall
    have hstop : rest.takeWhile p = [] ∧ rest.dropWhile p = rest := by
      cases rest with
      | nil => exact ⟨rfl, rfl⟩
      | cons c rest => simp_all
    rw [List.takeWhile_append_of_pos hpos, List.dropWhile_append_of_pos hpos, hstop.1, hstop.2,
      List.append_nil]
    exact ⟨rfl, rfl⟩

theorem span_spec (p : Char → Bool) (s : Text) : s = (s.span p).1 ++ (s.span p).2 ∧
    (s.span p).1.all p ∧ (s.span p).2.head?.any p = false :=
  span_eq_iff.1 rfl

end Text

namespace Recogniser

variable {α : Type} {r : Recogniser α}

/-- Every form takes at least one character. -/
def Advances (r : Recogniser α) : Prop :=
  ∀ s a rest, r s = some (a, rest) → rest.length < s.length

theorem Advances.nil (hr : r.Advances) : r [] = none := by
  cases h : r [] with
  | none => rfl
  | some x => exact absurd (hr [] x.1 x.2 h) (by simp)

theorem find?_nil (hr : r.Advances) : r.find? [] = none := by
  change (r []).map _ = none
  rw [hr.nil]
  rfl

theorem find?_of_read {s rest : Text} {a : α} (hs : s ≠ []) (h : r s = some (a, rest)) :
    r.find? s = some ([], a, rest) := by
  cases s with
  | nil => exact absurd rfl hs
  | cons c s => rw [find?, h]

/-- Where no form begins, it is looked for behind the next character. -/
theorem find?_cons {c : Char} {s : Text} (h : r (c :: s) = none) :
    r.find? (c :: s) = (r.find? s).map fun p => (c :: p.1, p.2) := by
  rw [find?, h]

theorem find?_length_lt (hr : r.Advances) {s before rest : Text} {a : α}
    (h : r.find? s = some (before, a, rest)) : rest.length < s.length := by
  induction s generalizing before with
  | nil => simp [find?_nil hr] at h
  | cons c s ih =>
    cases hc : r (c :: s) with
    | none =>
      rw [find?_cons hc, Option.map_eq_some_iff] at h
      obtain ⟨⟨before', found⟩, hf, heq⟩ := h
      obtain ⟨rfl, rfl⟩ := Prod.mk.inj heq
      exact (ih hf).trans (Nat.lt_succ_self s.length)
    | some p =>
      obtain ⟨a', rest'⟩ := p
      rw [find?_of_read (List.cons_ne_nil c s) hc] at h
      obtain ⟨-, rfl⟩ := Prod.mk.inj (Prod.mk.inj (Option.some.inj h)).2
      exact hr _ _ _ hc

/-- The forms of a text with one more character before them that begins no form. -/
def withBefore (c : Char) : List (Text × α) × Text → List (Text × α) × Text
  | ([], tail) => ([], c :: tail)
  | ((before, a) :: found, tail) => ((c :: before, a) :: found, tail)

theorem findAll_nil (hr : r.Advances) : r.findAll [] = ([], []) := by
  rw [findAll, find?_nil hr]

theorem findAll_of_read (hr : r.Advances) {s rest : Text} {a : α} (h : r s = some (a, rest)) :
    r.findAll s = (([], a) :: (r.findAll rest).1, (r.findAll rest).2) := by
  have hs : s ≠ [] := by
    rintro rfl
    simp [hr.nil] at h
  rw [findAll, find?_of_read hs h]
  simp [hr s a rest h]

theorem findAll_cons (hr : r.Advances) {c : Char} {s : Text} (h : r (c :: s) = none) :
    r.findAll (c :: s) = withBefore c (r.findAll s) := by
  rw [findAll, findAll.eq_def r s, find?_cons h]
  cases hf : r.find? s with
  | none => rfl
  | some x =>
    obtain ⟨before, a, rest⟩ := x
    have hlt := find?_length_lt hr hf
    have hlt' : rest.length < s.length + 1 := Nat.lt_succ_of_lt hlt
    simp [hlt, hlt', withBefore]

theorem find?_isSome_iff (hr : r.Advances) {s : Text} :
    (r.find? s).isSome ↔ ∃ t, t <:+ s ∧ (r t).isSome := by
  induction s with
  | nil => simp [find?_nil hr, hr.nil]
  | cons c s ih =>
    simp only [List.suffix_cons_iff]
    cases h : r (c :: s) with
    | none => simp [find?_cons h, h, ih]
    | some x => simp [find?_of_read (List.cons_ne_nil c s) h, h]

end Recogniser

end DeckMerge
