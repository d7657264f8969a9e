import DeckMerge.Proofs.Markup.Escape
import DeckMerge.Proofs.Placeholder.OneLine
import DeckMerge.Proofs.Placeholder.Slots
import DeckMerge.Run.Injection

/-!
Filling the slots of an expansion. Each value goes to the mark of its own slot alone, unless the text
between two slots is the number of an earlier one: then the NULs of the marks around it and the number
read as a mark themselves.
-/

namespace DeckMerge.Run

open Placeholder

variable {first l w : Text} {rest : List Text} {index i : Nat}

theorem slotText_eq (index : Nat) : slotText index = '\x00' :: (Text.ofNat index ++ ['\x00']) := rfl

theorem slotText_ne_nil (index : Nat) : slotText index ≠ [] := by simp [slotText]

/-! ### Marks in the text behind a slot -/

theorem append_singleton_isPrefix_iff {c : Char} {s t u : Text} (hs : c ∉ s) (ht : c ∉ t) :
    s ++ [c] <+: t ++ c :: u ↔ s = t := by
  induction s generalizing t with
  | nil => cases t <;> simp_all
  | cons d s ih =>
    cases t with
    | nil => simp_all [eq_comm]
    | cons d' t =>
      have := ih (t := t) (by simp_all) (by simp_all)
      simp [List.cons_prefix_cons, this]

theorem breakOn?_slotText_cons (index : Nat) (s : Text) :
    Text.breakOn? (slotText index) ('\x00' :: s) = none ↔
      ¬ Text.ofNat index ++ ['\x00'] <+: s ∧ Text.breakOn? (slotText index) s = none := by
  by_cases h : slotText index <+: '\x00' :: s
  · obtain ⟨t, ht⟩ := h
    rw [← ht, Text.breakOn?_of_isPrefix (slotText_ne_nil index)]
    simp only [slotText, List.cons_append, List.cons.injEq, true_and] at ht
    simp [← ht]
  · have h' : ¬ Text.ofNat index ++ ['\x00'] <+: s := by
      intro hp
      exact h (List.cons_prefix_cons.2 ⟨rfl, hp⟩)
    simp [Text.breakOn?_cons_of_not_isPrefix h, h']

theorem breakOn?_slotText_append (hl : '\x00' ∉ l) (index : Nat) (s : Text) :
    Text.breakOn? (slotText index) (l ++ s) = none ↔ Text.breakOn? (slotText index) s = none := by
  rw [slotText_eq, Text.breakOn?_append_of_notMem hl]
  simp

/-- Behind the start of another slot's mark, only its last NUL can start a mark. -/
theorem breakOn?_slotText_mark (hi : index ≠ i) (s : Text) :
    Text.breakOn? (slotText index) (slotText i ++ s) = none ↔
      ¬ Text.ofNat index ++ ['\x00'] <+: s ∧ Text.breakOn? (slotText index) s = none := by
  have hnul : ∀ n, '\x00' ∉ Text.ofNat n := Text.notMem_ofNat (by decide)
  have hother : Text.ofNat index ≠ Text.ofNat i := Text.ofNat_injective.ne hi
  have hsplit : slotText i ++ s = '\x00' :: (Text.ofNat i ++ '\x00' :: s) := by simp [slotText]
  rw [hsplit, breakOn?_slotText_cons, append_singleton_isPrefix_iff (hnul index) (hnul i),
    breakOn?_slotText_append (hnul i), breakOn?_slotText_cons]
  simp [hother]

/-- The mark of another slot is found only where a text between two marks is the number in it. -/
theorem breakOn?_weave (hi : index < i) (hl : '\x00' ∉ l) (hrest : ∀ r ∈ rest, '\x00' ∉ r) :
    Text.breakOn? (slotText index) (weave l (marks i rest.length) rest) = none ↔
      Text.ofNat index ∉ rest.dropLast := by
  have hnul : '\x00' ∉ Text.ofNat index := Text.notMem_ofNat (by decide) index
  induction rest generalizing l i with
  | nil =>
    have h := breakOn?_slotText_append hl index []
    simp_all [slotText_ne_nil]
  | cons r rest ih =>
    obtain ⟨hr, hrest⟩ := List.forall_mem_cons.1 hrest
    have hsplit : weave l (marks i (r :: rest).length) (r :: rest) =
        l ++ (slotText i ++ weave r (marks (i + 1) rest.length) rest) := by simp
    have hbehind := ih (Nat.lt_add_right 1 hi) hr hrest
    rw [hsplit, breakOn?_slotText_append hl, breakOn?_slotText_mark hi.ne]
    simp only [hbehind]
    cases rest with
    | nil =>
      have hlast : ¬ Text.ofNat index ++ ['\x00'] <+: r := by
        intro hp
        exact hr (hp.subset (by simp))
      simp [hlast]
    | cons r' rest =>
      have hbetween := append_singleton_isPrefix_iff hnul hr
        (u := Text.ofNat (i + 1) ++ '\x00' :: weave r' (marks (i + 1 + 1) rest.length) rest)
      simp [slotText, hbetween]

/-! ### Filling one slot -/

/-- A value went in place, once. -/
def Outcome.IsPlain (o : Outcome) : Prop := o.mode = .plain ∧ o.occurrences = 1

theorem breakOn?_slotText (hfirst : '\x00' ∉ first) (index : Nat) (w : Text) :
    Text.breakOn? (slotText index) (first ++ slotText index ++ w) = some (first, w) := by
  have hfind := Text.breakOn?_of_isPrefix (slotText_ne_nil index) w
  rw [List.append_assoc, slotText_eq, Text.breakOn?_append_of_notMem hfirst, ← slotText_eq, hfind]
  simp

theorem splitOn_slotText (hfirst : '\x00' ∉ first) (index : Nat) (w : Text) :
    Text.splitOn (slotText index) (first ++ slotText index ++ w) =
      first :: Text.splitOn (slotText index) w := by
  refine Text.splitOn_of_breakOn?_eq_some (breakOn?_slotText hfirst index w) ?_
  have := List.length_pos_iff.2 (slotText_ne_nil index)
  simp only [List.length_append]
  omega

theorem substitute_slotText (hfirst : '\x00' ∉ first) (index : Nat) (value w : Text) :
    substitute (slotText index) value (first ++ slotText index ++ w) =
      (first ++ value ++ Text.joinWith value (Text.splitOn (slotText index) w),
        (Text.splitOn (slotText index) w).length) := by
  rw [substitute, if_neg (slotText_ne_nil index), splitOn_slotText hfirst]
  simp [Text.splitOn_ne_nil]

theorem inject_slotText {value : Text} (hv : ¬ Markup.hasBreak value) (hfirst : '\x00' ∉ first)
    (index : Nat) (w : Text) (part label : Option Text) :
    ∃ o, inject (first ++ slotText index ++ w) (slotText index) value part label =
        (first ++ Markup.escape value ++
          Text.joinWith (Markup.escape value) (Text.splitOn (slotText index) w), o, []) ∧
      (o.IsPlain ↔ Text.breakOn? (slotText index) w = none) := by
  have hpos := List.length_pos_iff.2 (Text.splitOn_ne_nil (slotText index) w)
  simp only [inject, Task.run, hv, Bool.false_eq_true, if_false, substitute_slotText hfirst]
  refine ⟨_, rfl, ?_⟩
  rw [← Text.length_splitOn_eq_one_iff (slotText_ne_nil index)]
  simp [Outcome.IsPlain, hpos.ne']

/-! ### Filling the slots in turn -/

/-- No text between two marks is the number of a slot before both of them. -/
def Apart (index : Nat) (rest : List Text) : Prop :=
  ∀ i j, i < j → j + 1 < rest.length → rest[j]? ≠ some (Text.ofNat (index + i))

theorem mem_dropLast_iff {t : Text} : t ∈ rest.dropLast ↔ ∃ j, j + 1 < rest.length ∧ rest[j]? = some t := by
  rw [List.mem_iff_getElem?]
  refine exists_congr fun j => ?_
  by_cases hj : j < rest.length - 1
  · have hlt : j < rest.length := by omega
    simp [hj, hlt, Nat.add_lt_of_lt_sub hj]
  · simp [hj]
    omega

theorem apart_cons : Apart index (l :: rest) ↔
    Text.ofNat index ∉ rest.dropLast ∧ Apart (index + 1) rest := by
  have hnext : ∀ i, index + 1 + i = index + (i + 1) := by omega
  simp only [mem_dropLast_iff, Apart, hnext]
  constructor
  · intro h
    refine ⟨?_, fun i j hij hj => h (i + 1) (j + 1) (by omega) (by simpa using hj)⟩
    rintro ⟨j, hj, heq⟩
    exact h 0 (j + 1) (by omega) (by simpa using hj) heq
  · intro h i j hij hj
    match i, j with
    | _, 0 => omega
    | 0, j + 1 => exact fun heq => h.1 ⟨j, by simpa using hj, heq⟩
    | i + 1, j + 1 => exact h.2 i j (by omega) (by simpa using hj)

theorem fillFrom_isPlain_iff {slots : List Slot} (hv : ∀ slot ∈ slots, ¬ Markup.hasBreak slot.value)
    {index : Nat} {s first : Text} {rest : List Text} (h : Marked index slots.length s first rest)
    (part : Option Text) :
    ((∀ o ∈ (fillFrom part index s slots).2.1, o.IsPlain) ↔ Apart index rest) ∧
      (Apart index rest → (fillFrom part index s slots).1 =
        weave first (slots.map fun slot => Markup.escape slot.value) rest) := by
  induction slots generalizing index s first rest with
  | nil =>
    obtain ⟨rfl, hlen, -, -⟩ := h
    simp [fillFrom, Apart, List.length_eq_zero_iff.1 hlen]
  | cons slot slots ih =>
    obtain ⟨rfl, hlen, hfirst, hrest⟩ := h
    match rest with
    | l :: rest =>
    simp only [List.forall_mem_cons, List.length_cons, Nat.add_right_cancel_iff] at hv hlen hrest
    let behind := weave l (marks (index + 1) slots.length) rest
    have hclash : Text.breakOn? (slotText index) behind = none ↔ Text.ofNat index ∉ rest.dropLast := by
      simpa [behind, ← hlen] using breakOn?_weave (Nat.lt_succ_self index) hrest.1 hrest.2
    obtain ⟨o, hinject, ho⟩ := inject_slotText hv.1 hfirst index behind part
      (if slot.key = [] then none else some (scalarText slot.key))
    simp only [List.length_cons, marks_succ, weave_cons, fillFrom, hinject, List.forall_mem_cons, ho,
      hclash, apart_cons, List.map_cons, behind]
    by_cases hc : Text.ofNat index ∈ rest.dropLast
    · simp [hc]
    · have hnul := Markup.nul_notMem_escape slot.value
      have hm : Marked (index + 1) slots.length
          (first ++ Markup.escape slot.value ++ Text.joinWith (Markup.escape slot.value)
            (Text.splitOn (slotText index) behind))
          (first ++ Markup.escape slot.value ++ l) rest := by
        refine ⟨?_, hlen, by simp [hfirst, hnul, hrest.1], hrest.2⟩
        rw [Text.splitOn_of_breakOn?_eq_none (hclash.2 hc), Text.joinWith, ← append_weave]
      have hind := ih hv.2 hm
      simpa [hc, append_weave] using hind

/-! ### Filling an expansion -/

/-- Every value of one line goes to the place of its own slot, and nowhere else, exactly when no text
between two slots is the number of an earlier slot. -/
theorem fillSlots_expand_iff {s : Text} (hs : '\x00' ∉ s) {p : Page} (hp : p.OneLine)
    (part : Option Text) : ∃ e first rest, expand s p.binding = .ok e ∧
      Marked 0 e.slots.length e.text first rest ∧
      (((fillSlots part e.text e.slots).1 =
          weave first (e.slots.map fun slot => Markup.escape slot.value) rest ∧
        '\x00' ∉ (fillSlots part e.text e.slots).1 ∧
        ∀ o ∈ (fillSlots part e.text e.slots).2.1, o.IsPlain) ↔
      ∀ i j, i < j → j + 1 < e.slots.length → rest[j]? ≠ some (Text.ofNat i)) := by
  obtain ⟨first, rest, hm⟩ := expansion_marked p hs
  refine ⟨p.expansion s, first, rest, expand_page p s, hm, ?_⟩
  obtain ⟨hplain, htext⟩ := fillFrom_isPlain_iff (not_hasBreak_of_mem_expansion hp s) hm part
  have hapart : Apart 0 rest ↔
      ∀ i j, i < j → j + 1 < (p.expansion s).slots.length → rest[j]? ≠ some (Text.ofNat i) := by
    simp [Apart, hm.length_eq]
  rw [← hapart, ← hplain]
  constructor
  · exact fun h => h.2.2
  · intro h
    have hfill := htext (hplain.1 h)
    refine ⟨hfill, ?_, h⟩
    rw [fillSlots, hfill]
    refine notMem_weave hm.notMem_first ?_ hm.notMem_rest
    intro filler hfiller
    obtain ⟨slot, -, rfl⟩ := List.mem_map.1 hfiller
    exact Markup.nul_notMem_escape slot.value

/-- A key that stands twice, and one that stands between. -/
def addressText : Text := "\x7b\x7bA\x7d\x7d, \x7b\x7bB\x7d\x7d, \x7b\x7bA\x7d\x7d"

def addressPage : Page := [("A".toList, .text "<a>".toList), ("B".toList, .text "b".toList)]

theorem fillSlots_expand_address : '\x00' ∉ addressText ∧ addressPage.OneLine ∧ ∃ e first rest,
    expand addressText addressPage.binding = .ok e ∧ Marked 0 e.slots.length e.text first rest ∧
    (((fillSlots none e.text e.slots).1 =
        weave first (e.slots.map fun slot => Markup.escape slot.value) rest ∧
      '\x00' ∉ (fillSlots none e.text e.slots).1 ∧
      ∀ o ∈ (fillSlots none e.text e.slots).2.1, o.IsPlain) ↔
    ∀ i j, i < j → j + 1 < e.slots.length → rest[j]? ≠ some (Text.ofNat i)) := by
  have hs : '\x00' ∉ addressText := by decide
  have hp : addressPage.OneLine := by simp [addressPage, Page.OneLine, Bound.OneLine, Markup.hasBreak]
  exact ⟨hs, hp, fillSlots_expand_iff hs hp none⟩

/-- The number of the first slot between two later ones. -/
def numberText : Text := "\x7b\x7bA\x7d\x7d\x7b\x7bB\x7d\x7d0\x7b\x7bC\x7d\x7d"

def numberPage : Page :=
  [("A".toList, .text "x".toList), ("B".toList, .text "y".toList), ("C".toList, .text "z".toList)]

/-- The first value is written over the second slot's end and the third slot's start as well. -/
theorem fillSlots_reads_number_as_mark : ∃ e, expand numberText numberPage.binding = .ok e ∧
    e.text = weave [] (marks 0 3) ["".toList, "0".toList, "".toList] ∧
    (fillSlots none e.text e.slots).1 = "x\x001x2\x00".toList ∧
    (fillSlots none e.text e.slots).2.1.map Outcome.occurrences = [2, 0, 0] := by
  refine ⟨numberPage.expansion numberText, expand_page numberPage numberText, ?_⟩
  decide +kernel

end DeckMerge.Run
