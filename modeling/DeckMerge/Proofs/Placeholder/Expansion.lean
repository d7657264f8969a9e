import DeckMerge.Proofs.Placeholder.Slots

/-!
What an expansion promises: its slots are the scalars that the unrolling meets, in order, and
`hasTokens_expand_iff` says when a placeholder is left in its text all the same.
-/

namespace DeckMerge.Placeholder

/-- Expanding gives literal text around the marks of slots 0, 1, …, one for each scalar with a text that
is met when the tree is unrolled from left to right. -/
theorem expand_unrolls {s : Text} (hs : '\x00' ∉ s) (p : Page) :
    ∃ e first rest, expand s p.binding = .ok e ∧ Marked 0 e.slots.length e.text first rest ∧
      e.slots = Node.unrollAll p.env (parse s) := by
  obtain ⟨first, rest, h⟩ := expansion_marked p hs
  exact ⟨p.expansion s, first, rest, expand_page p s, h, Node.filterMap_piecesAll p.env (parse s)⟩

/-- A loop over two entries between scalars, and inside it a key that only the page binds. -/
def loopText : Text :=
  "\x7b\x7bA\x7d\x7d\x7b?W\x7d\x7b#W\x7d-\x7b\x7bX\x7d\x7d\x7b\x7bA\x7d\x7d\x7b/W\x7d\x7b/?W\x7d\x7b\x7bA\x7d\x7d"

def loopPage : Page :=
  [("A".toList, .text "a".toList),
   ("W".toList, .entries [[("X".toList, "1".toList)], [("X".toList, "2".toList)]])]

theorem expand_unrolls_loop : '\x00' ∉ loopText ∧ ∃ e first rest,
    expand loopText loopPage.binding = .ok e ∧ Marked 0 e.slots.length e.text first rest ∧
      e.slots = [⟨"A".toList, "a".toList⟩, ⟨"X".toList, "1".toList⟩, ⟨"X".toList, "2".toList⟩,
        ⟨"A".toList, "a".toList⟩] := by
  have hs : '\x00' ∉ loopText := by decide
  obtain ⟨e, first, rest, he, hm, hu⟩ := expand_unrolls hs loopPage
  have hv : Node.unrollAll loopPage.env (parse loopText) = [⟨"A".toList, "a".toList⟩,
      ⟨"X".toList, "1".toList⟩, ⟨"X".toList, "2".toList⟩, ⟨"A".toList, "a".toList⟩] := by
    decide +kernel
  exact ⟨hs, e, first, rest, he, hm, hu.trans hv⟩

theorem expand_eq_ok_iff {s : Text} {binding : Binding} {e : Expansion} : expand s binding = .ok e ↔
    ∃ pieces, expandNodes binding .page (parse s) = .ok pieces ∧
      ⟨(strip (slotted 0 pieces)).1, pieces.filterMap Piece.slot?, (strip (slotted 0 pieces)).2⟩ = e := by
  rw [expand, Sequence.bind_eq_ok_iff]
  constructor
  · rintro ⟨pieces, hpieces, h⟩
    exact ⟨pieces, hpieces, Except.ok.inj h⟩
  · rintro ⟨pieces, hpieces, rfl⟩
    exact ⟨pieces, hpieces, rfl⟩

/-- A placeholder is left over exactly when the stretches that remain of the unrolled text, joined
where tokens were deleted, put one together. Expanding succeeds on a page, and may do so on a binding
of other values. -/
theorem hasTokens_expand_iff (s : Text) :
    (∀ p : Page, ∃ e, expand s p.binding = .ok e ∧
      (hasTokens e.text ↔ Rejoins (stretches (p.unrolled s)))) ∧
    ∀ binding e, expand s binding = .ok e → ∃ pieces, expandNodes binding .page (parse s) = .ok pieces ∧
      (hasTokens e.text ↔ Rejoins (stretches (slotted 0 pieces))) := by
  constructor
  · intro p
    exact ⟨p.expansion s, expand_page p s, hasTokens_strip_iff (p.unrolled s)⟩
  · intro binding e h
    obtain ⟨pieces, hpieces, rfl⟩ := expand_eq_ok_iff.1 h
    exact ⟨pieces, hpieces, hasTokens_strip_iff (slotted 0 pieces)⟩

/-- A number is no text to put in, so its placeholder is deleted. -/
theorem hasTokens_expand_number : ∃ e, expand "a\x7b\x7bN\x7d\x7d" [("N".toList, .int 3)] = .ok e ∧
    ∃ pieces, expandNodes [("N".toList, .int 3)] .page (parse "a\x7b\x7bN\x7d\x7d") = .ok pieces ∧
      (hasTokens e.text ↔ Rejoins (stretches (slotted 0 pieces))) := by
  have h : expand "a\x7b\x7bN\x7d\x7d" [("N".toList, .int 3)] = .ok ⟨"a", [], 1⟩ := by decide +kernel
  exact ⟨_, h, (hasTokens_expand_iff _).2 _ _ h⟩

/-- An unbound scalar between a brace and what looks like the rest of a placeholder. -/
def splitText : Text := "\x7b\x7b\x7bA\x7d\x7d\x7bB\x7d\x7d"

theorem expand_leaves_token : ∃ e, expand splitText [] = .ok e ∧ e.text = scalarText "B" ∧
    hasTokens e.text := by
  refine ⟨Page.expansion [] splitText, expand_page [] splitText, ?_⟩
  decide +kernel

end DeckMerge.Placeholder
