import DeckMerge.Proofs.Text.Occurrence
import DeckMerge.Proofs.Text.Seam
import DeckMerge.Run.Dialect
import Mathlib.Data.List.TakeDrop
import Mathlib.Data.List.TakeWhile

/-!
What reads as a tag: a name, then attributes up to the first bracket. In a closed text every tag that
begins also ends, so a search for tags does not cross its end.
-/

namespace DeckMerge.Run

variable {tag s t x y p a rest inner : Text}

/-! ### Up to the first bracket -/

theorem span_bracket (hp : '>' ∉ p) (t : Text) : (p ++ '>' :: t).span (· != '>') = (p, '>' :: t) := by
  have hall : ∀ c ∈ p, (c != '>') = true := by
    intro c hc
    simpa using fun h : c = '>' => hp (h ▸ hc)
  rw [List.span_eq_takeWhile_dropWhile, List.takeWhile_append_of_pos hall,
    List.dropWhile_append_of_pos hall]
  simp

theorem span_of_notMem (hs : '>' ∉ s) : s.span (· != '>') = (s, []) := by
  have hall : ∀ c ∈ s, (c != '>') = true := by
    intro c hc
    simpa using fun h : c = '>' => hs (h ▸ hc)
  rw [List.span_eq_takeWhile_dropWhile, List.takeWhile_eq_self_iff.2 hall,
    List.dropWhile_eq_nil_iff.2 hall]

/-- A text is cut at its first bracket in one way. -/
theorem bracket_inj {q : Text} (hp : '>' ∉ p) (hq : '>' ∉ q) (h : p ++ '>' :: s = q ++ '>' :: t) :
    p = q ∧ s = t := by
  have hspan := congrArg (List.span (· != '>')) h
  rw [span_bracket hp, span_bracket hq] at hspan
  obtain ⟨rfl, hrest⟩ := Prod.mk.inj hspan
  exact ⟨rfl, (List.cons.inj hrest).2⟩

/-- What stands in a tag behind its name: nothing, or a blank and more, and no bracket. -/
structure Attributes (inner : Text) : Prop where
  notMem : '>' ∉ inner
  blank : inner.head?.all Text.isBlank

theorem attributes_nil : Attributes [] := ⟨by simp, rfl⟩

theorem Attributes.of_append (h : Attributes (p ++ t)) : Attributes p where
  notMem hmem := h.notMem (List.mem_append_left t hmem)
  blank := by
    cases p with
    | nil => rfl
    | cons c p => exact h.blank

theorem readAttributes?_of_notMem (hs : '>' ∉ s) : readAttributes? s = none := by
  cases s with
  | nil => rfl
  | cons c s =>
    have hc : c ≠ '>' := fun h => hs (by simp [h])
    rw [readAttributes?.eq_def]
    split
    case h_1 heq => exact absurd (List.cons.inj heq).1 hc
    case h_2 heq =>
      rw [span_of_notMem hs]
      split <;> rfl
    case h_3 => rfl

theorem readAttributes?_bracket (hp : '>' ∉ p) (t : Text) :
    readAttributes? (p ++ '>' :: t) = if p.head?.all Text.isBlank then some (p, t) else none := by
  cases p with
  | nil => rfl
  | cons c p =>
    have hc : c ≠ '>' := fun h => hp (by simp [h])
    rw [List.cons_append, readAttributes?.eq_def]
    split
    case h_1 heq => exact absurd (List.cons.inj heq).1 hc
    case h_2 heq =>
      obtain ⟨rfl, -⟩ := List.cons.inj heq
      rw [← List.cons_append, span_bracket hp]
      rfl
    case h_3 heq => simp at heq

theorem readAttributes?_eq_some_iff :
    readAttributes? s = some (inner, rest) ↔ Attributes inner ∧ s = inner ++ '>' :: rest := by
  constructor
  · intro h
    by_cases hs : '>' ∈ s
    · obtain ⟨p, t, rfl, hp⟩ := List.eq_append_cons_of_mem hs
      rw [readAttributes?_bracket hp] at h
      split at h
      · rename_i hblank
        obtain ⟨rfl, rfl⟩ := Prod.mk.inj (Option.some.inj h)
        exact ⟨⟨hp, hblank⟩, rfl⟩
      · simp at h
    · simp [readAttributes?_of_notMem hs] at h
  · rintro ⟨⟨hp, hblank⟩, rfl⟩
    rw [readAttributes?_bracket hp, if_pos hblank]

/-! ### Tags -/

theorem openTag_eq_some_iff : openTag tag s = some (a, rest) ↔ ∃ inner, Attributes inner ∧
    inner.getLast? ≠ some '/' ∧ a = '<' :: tag ++ inner ++ ['>'] ∧ s = a ++ rest := by
  simp only [openTag, Option.bind_eq_bind, Option.bind_eq_some_iff,
    List.isPrefixOf?_eq_some_iff_append_eq, Prod.exists, readAttributes?_eq_some_iff]
  constructor
  · rintro ⟨u, rfl, inner, rest', ⟨hinner, rfl⟩, h⟩
    split at h
    · simp at h
    · rename_i hlast
      obtain ⟨rfl, rfl⟩ : '<' :: tag ++ inner ++ ['>'] = a ∧ rest' = rest := by simpa using h
      exact ⟨inner, hinner, hlast, rfl, by simp⟩
  · rintro ⟨inner, hinner, hlast, rfl, rfl⟩
    exact ⟨inner ++ '>' :: rest, by simp, inner, rest, ⟨hinner, rfl⟩, by simp [hlast]⟩

theorem emptyTag_eq_some_iff : emptyTag tag s = some (a, rest) ↔
    ∃ attrs, Attributes attrs ∧ a = '<' :: tag ++ attrs ++ ['/', '>'] ∧ s = a ++ rest := by
  simp only [emptyTag, Option.bind_eq_bind, Option.bind_eq_some_iff,
    List.isPrefixOf?_eq_some_iff_append_eq]
  constructor
  · rintro ⟨u, rfl, h⟩
    split at h
    case h_1 =>
      obtain ⟨rfl, rfl⟩ := Prod.mk.inj (Option.some.inj h)
      exact ⟨[], attributes_nil, by simp, by simp⟩
    case h_2 =>
      simp only [Option.bind_eq_some_iff, Prod.exists, readAttributes?_eq_some_iff] at h
      obtain ⟨inner, rest', ⟨hinner, rfl⟩, h⟩ := h
      split at h
      case isFalse => simp at h
      case isTrue hlast =>
        obtain ⟨rfl, rfl⟩ := Prod.mk.inj (Option.some.inj h)
        obtain ⟨attrs, rfl⟩ := List.getLast?_eq_some_iff.1 hlast.2
        exact ⟨attrs, hinner.of_append, by simp, by simp⟩
  · rintro ⟨attrs, hattrs, rfl, rfl⟩
    refine ⟨attrs ++ '/' :: '>' :: rest, by simp, ?_⟩
    cases attrs with
    | nil => simp
    | cons c attrs =>
      have hc : c ≠ '/' := by
        rintro rfl
        exact absurd (show Text.isBlank '/' from hattrs.blank) (by decide)
      have hread : readAttributes? (c :: attrs ++ '/' :: '>' :: rest) =
          some (c :: attrs ++ ['/'], rest) := by
        refine readAttributes?_eq_some_iff.2 ⟨⟨?_, hattrs.blank⟩, by simp⟩
        have := hattrs.notMem
        simp_all
      split
      case h_1 heq => exact absurd (List.cons.inj heq).1 hc
      case h_2 =>
        rw [hread, Option.bind_some, if_pos ⟨by simp, List.getLast?_concat⟩]
        simp

theorem openTag_advances (tag : Text) : (openTag tag).Advances := by
  intro s a rest h
  obtain ⟨inner, -, -, rfl, rfl⟩ := openTag_eq_some_iff.1 h
  simp only [List.length_append, List.length_cons]
  omega

theorem openTag_verbatim (tag : Text) : (openTag tag).Verbatim := by
  intro s a rest h
  obtain ⟨inner, -, -, -, rfl⟩ := openTag_eq_some_iff.1 h
  rfl

/-! ### Closed texts -/

/-- Every tag that begins in the text ends in it. -/
def Closed (s : Text) : Prop := ∀ u v, s = u ++ '<' :: v → '>' ∈ v

theorem closed_of_notMem (h : '<' ∉ s) : Closed s := by
  rintro u v rfl
  simp at h

theorem closed_append_bracket (s : Text) : Closed (s ++ ['>']) := by
  intro u v h
  rcases List.eq_nil_or_concat v with rfl | ⟨v, c, rfl⟩
  · have hlast := congrArg List.getLast? h
    simp at hlast
  · have hlast : s ++ ['>'] = (u ++ '<' :: v) ++ [c] := by simpa using h
    obtain ⟨-, hc⟩ := List.append_inj' hlast rfl
    obtain rfl := (List.cons.inj hc).1
    simp

theorem Closed.append (hx : Closed x) (hy : Closed y) : Closed (x ++ y) := by
  intro u v h
  rcases List.append_eq_append_iff.1 h with ⟨w, rfl, hw⟩ | ⟨w, rfl, hw⟩
  · exact hy w v hw
  · cases w with
    | nil => exact hy [] v (by simpa using hw.symm)
    | cons c w =>
      obtain ⟨rfl, rfl⟩ := List.cons.inj hw
      exact List.mem_append_left _ (hx u w rfl)

theorem Closed.suffix (hx : Closed x) (h : y <:+ x) : Closed y := by
  rintro u v rfl
  obtain ⟨w, rfl⟩ := h
  exact hx (w ++ u) v (by simp)

/-- In a closed text the bracket that ends a tag stands before all that follows. -/
theorem openTag_staysIn (hx : Closed x) (htag : '>' ∉ tag) : (openTag tag).StaysIn x := by
  intro v t hv hs
  have hclosed := hx.suffix hs
  ext ⟨a, rest⟩
  simp only [openTag_eq_some_iff, Option.map_eq_some_iff, Prod.exists, Prod.mk.injEq]
  constructor
  · rintro ⟨inner, hinner, hlast, rfl, heq⟩
    have hfront : '>' ∉ '<' :: tag ++ inner := by
      have := hinner.notMem
      simp_all
    cases v with
    | nil => exact absurd rfl hv
    | cons c v =>
      obtain ⟨rfl, -⟩ : c = '<' ∧ _ := List.cons.inj heq
      obtain ⟨p, w, rfl, hp⟩ := List.eq_append_cons_of_mem (hclosed [] v rfl)
      have hp' : '>' ∉ '<' :: p := by simp_all
      obtain ⟨hp, rfl⟩ := bracket_inj hp' hfront (s := w ++ t) (t := rest) (by simpa using heq)
      refine ⟨_, w, ⟨inner, hinner, hlast, rfl, ?_⟩, rfl, rfl⟩
      rw [← hp]
      simp
  · rintro ⟨a', rest', ⟨inner, hinner, hlast, rfl, rfl⟩, rfl, rfl⟩
    exact ⟨inner, hinner, hlast, rfl, by simp⟩

/-! ### Closing tags -/

theorem closeTag_eq (tag : Text) : closeTag tag = '<' :: '/' :: tag ++ ['>'] := rfl

theorem closeTag_ne_nil (tag : Text) : closeTag tag ≠ [] := by simp [closeTag_eq]

theorem closeTag_isPrefix_of_append (htag : '>' ∉ tag) (hx : Closed x) (hne : x ≠ [])
    (h : closeTag tag <+: x ++ y) : closeTag tag <+: x := by
  obtain ⟨t, ht⟩ := h
  cases x with
  | nil => exact absurd rfl hne
  | cons c x =>
    obtain ⟨rfl, -⟩ : '<' = c ∧ _ := List.cons.inj ht
    obtain ⟨p, w, rfl, hp⟩ := List.eq_append_cons_of_mem (hx [] x rfl)
    have hfront : '>' ∉ '<' :: '/' :: tag := by simp [htag]
    have hp' : '>' ∉ '<' :: p := by simp [hp]
    obtain ⟨hp, -⟩ := bracket_inj hp' hfront (s := w ++ y) (t := t)
      (by simpa [closeTag_eq] using ht.symm)
    exact ⟨w, by simp [closeTag_eq, (List.cons.inj hp).2]⟩

/-- A closing tag that a closed text does not hold is found behind it if at all. -/
theorem breakOn?_closeTag_append (htag : '>' ∉ tag) (hx : Closed x) (h : ¬ closeTag tag <:+: x)
    (y : Text) : Text.breakOn? (closeTag tag) (x ++ y) =
      (Text.breakOn? (closeTag tag) y).map fun p => (x ++ p.1, p.2) := by
  induction x with
  | nil => simp
  | cons c x ih =>
    rw [List.infix_cons_iff, not_or] at h
    have hp : ¬ closeTag tag <+: c :: (x ++ y) :=
      fun hp => h.1 (closeTag_isPrefix_of_append htag hx (by simp) hp)
    rw [List.cons_append, Text.breakOn?_cons_of_not_isPrefix hp,
      ih (hx.suffix (List.suffix_cons c x)) h.2, Option.map_map]
    rfl

theorem closeTag_isInfix_append (htag : '>' ∉ tag) (hx : Closed x) :
    closeTag tag <:+: x ++ y ↔ closeTag tag <:+: x ∨ closeTag tag <:+: y := by
  constructor
  · intro h
    by_contra! hn
    have hne := closeTag_ne_nil tag
    refine (Text.breakOn?_eq_none_iff hne).1 ?_ h
    rw [breakOn?_closeTag_append htag hx hn.1, (Text.breakOn?_eq_none_iff hne).2 hn.2]
    rfl
  · rintro (h | h)
    · exact h.trans (List.infix_append_left)
    · exact h.trans (List.infix_append_right)

end DeckMerge.Run
