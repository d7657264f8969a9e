import DeckMerge.Proofs.Run.Ranges

/-!
Tokens and ranges. A token that begins and ends in different texts lies in one range and no other, and no
two neighbouring texts are in one range without a token that goes over the cut between them.
-/

namespace DeckMerge.Run

open Placeholder (Token)

variable {texts : List Text} {t : Token} {r q p : Nat × Nat} {start k n first last : Nat}

/-! ### Places in texts -/

/-- Where the text of a number begins in the joined texts. -/
def offset (texts : List Text) (k : Nat) : Nat := (texts.take k).flatten.length

/-- A character of the joined texts is one of the text of a number. -/
def LiesIn (texts : List Text) (n k : Nat) : Prop := offset texts k ≤ n ∧ n < offset texts (k + 1)

theorem offset_mono (texts : List Text) {j k : Nat} (h : j ≤ k) : offset texts j ≤ offset texts k := by
  rw [offset, offset, ← List.take_append_drop j (texts.take k), List.take_take, Nat.min_eq_left h,
    List.flatten_append, List.length_append]
  exact Nat.le_add_right _ _

theorem LiesIn.le {m : Nat} (hm : LiesIn texts m first) (hn : LiesIn texts n last) (h : m ≤ n) : first ≤ last := by
  by_contra! hlt
  have hmono : offset texts (last + 1) ≤ offset texts first := offset_mono texts hlt
  have hfirst := hm.1
  have hlast := hn.2
  omega

/-- A token stands in the joined texts from a place on. -/
def Stands (texts : List Text) (t : Token) (start : Nat) : Prop :=
  .token t start ∈ Placeholder.scan texts.flatten

theorem mem_places_iff_stands : p ∈ Placeholder.places 0 (Token.read?.findAll texts.flatten).1 ↔
    ∃ t start, Stands texts t start ∧ p = (start, start + t.text.length) := by
  rw [Placeholder.mem_places_iff (cuts_flatten texts)]
  simp only [Stands, Placeholder.scan, Placeholder.mem_spansFrom_iff (cuts_flatten texts)]
  constructor
  · rintro ⟨t, u, v, ht, heq, rfl⟩
    exact ⟨t, _, ⟨ht, u, v, heq, rfl⟩, rfl⟩
  · rintro ⟨t, _, ⟨ht, u, v, heq, rfl⟩, rfl⟩
    exact ⟨t, u, v, ht, heq, rfl⟩

/-- The cuts in ranges are those that tokens go over. -/
theorem covers_iff_stands : Covers (spanningRanges texts) k ↔
    ∃ t start, Stands texts t start ∧ start < offset texts k ∧ offset texts k < start + t.text.length := by
  have hcuts := cuts_flatten texts
  conv at hcuts => arg 2; rw [← List.take_append_drop k texts, List.flatten_append]
  rw [covers_spanningRanges_iff, Placeholder.splitsToken_iff hcuts]
  simp only [mem_places_iff_stands]
  constructor
  · rintro ⟨p, ⟨t, start, ht, rfl⟩, hp⟩
    exact ⟨t, start, ht, hp⟩
  · rintro ⟨t, start, ht, hp⟩
    exact ⟨_, ⟨t, start, ht, rfl⟩, hp⟩

/-! ### Ranges -/

/-- Two ranges are the same, or one ends before the other begins. -/
theorem apart_of_mem (hr : r ∈ spanningRanges texts) (hq : q ∈ spanningRanges texts) :
    r = q ∨ r.2 < q.1 ∨ q.2 < r.1 := by
  let R (r q : Nat × Nat) : Prop := r = q ∨ r.2 < q.1 ∨ q.2 < r.1
  have hbefore : (spanningRanges texts).Pairwise R := (pairwise_spanningRanges texts).imp fun h => .inr (.inl h)
  have hbehind : (spanningRanges texts).Pairwise (flip R) :=
    (pairwise_spanningRanges texts).imp fun h => .inr (.inr h)
  exact hbefore.forall_of_forall_of_flip (fun _ _ => .inl rfl) hbehind hr hq

/-- Cuts side by side that are all covered are in one range: a range that ends in between is followed by
none that covers the next cut. -/
theorem exists_range (hlt : first < last) (h : ∀ k, first < k → k ≤ last → Covers (spanningRanges texts) k) :
    ∃ r ∈ spanningRanges texts, r.1 ≤ first ∧ last ≤ r.2 := by
  obtain ⟨r, hr, hbegin, hend⟩ := h (first + 1) (Nat.lt_succ_self _) hlt
  refine ⟨r, hr, Nat.le_of_lt_succ hbegin, ?_⟩
  by_contra! hstop
  obtain ⟨q, hq, hqbegin, hqend⟩ := h (r.2 + 1) (by omega) hstop
  rcases apart_of_mem hr hq with rfl | hapart | hapart <;> omega

theorem existsUnique_range (hlt : first < last)
    (h : ∀ k, first < k → k ≤ last → Covers (spanningRanges texts) k) :
    ∃! r, r ∈ spanningRanges texts ∧ r.1 ≤ first ∧ last ≤ r.2 := by
  obtain ⟨r, hr, hbegin, hend⟩ := exists_range hlt h
  refine ⟨r, ⟨hr, hbegin, hend⟩, ?_⟩
  rintro q ⟨hq, hqbegin, hqend⟩
  exact (apart_of_mem hq hr).resolve_right (by omega)

/-- A token goes over every cut between the texts that it begins and ends in. -/
theorem Stands.covers (ht : Stands texts t start) (hfirst : LiesIn texts start first)
    (hlast : LiesIn texts (start + t.text.length - 1) last) (hk : first < k) (hk' : k ≤ last) :
    Covers (spanningRanges texts) k := by
  refine covers_iff_stands.2 ⟨t, start, ht, ?_, ?_⟩
  · exact Nat.lt_of_lt_of_le hfirst.2 (offset_mono texts hk)
  · have hcut := Nat.le_trans (offset_mono texts hk') hlast.1
    have hpos := List.length_pos_iff.2 t.text_ne_nil
    omega

/-- Ranges hold two texts or more, and come in order without touching. A token that begins and ends in
different texts lies in just one range, and over every cut in a range goes a token. -/
theorem spanningRanges_exact (texts : List Text) :
    (∀ r ∈ spanningRanges texts, r.1 < r.2 ∧ r.2 < texts.length) ∧
    (spanningRanges texts).Pairwise (fun r q => r.2 < q.1) ∧
    (∀ t start first last, Stands texts t start → LiesIn texts start first →
      LiesIn texts (start + t.text.length - 1) last → first ≠ last →
      ∃! r, r ∈ spanningRanges texts ∧ r.1 ≤ first ∧ last ≤ r.2) ∧
    ∀ r ∈ spanningRanges texts, ∀ k, r.1 ≤ k → k < r.2 → ∃ t start, Stands texts t start ∧
      start < offset texts (k + 1) ∧ offset texts (k + 1) < start + t.text.length := by
  refine ⟨fun r hr => lt_of_mem_spanningRanges hr, pairwise_spanningRanges texts, ?_, ?_⟩
  · intro t start first last ht hfirst hlast hne
    have hpos := List.length_pos_iff.2 t.text_ne_nil
    have hle := hfirst.le hlast (by omega)
    exact existsUnique_range (by omega) fun k hk hk' => ht.covers hfirst hlast hk hk'
  · intro r hr k hk hk'
    exact covers_iff_stands.1 ⟨r, hr, Nat.lt_succ_of_le hk, hk'⟩

/-- Two tokens over four texts, the second of which is empty. -/
def brokenTexts : List Text := ["to \x7b\x7bNA", "", "ME\x7d\x7d\x7b", "?A\x7d."]

/-- The tokens have the third text in common, and so there is one range. -/
theorem spanningRanges_exact_broken :
    Stands brokenTexts ⟨.scalar, "NAME"⟩ 3 ∧ LiesIn brokenTexts 3 0 ∧ LiesIn brokenTexts 10 2 ∧
      (∃! r, r ∈ spanningRanges brokenTexts ∧ r.1 ≤ 0 ∧ 2 ≤ r.2) ∧ (0, 3) ∈ spanningRanges brokenTexts ∧
      ∃ t start, Stands brokenTexts t start ∧ start < offset brokenTexts 3 ∧
        offset brokenTexts 3 < start + t.text.length := by
  have hstands : Stands brokenTexts ⟨.scalar, "NAME"⟩ 3 := by
    unfold Stands
    decide +kernel
  have hrange : (0, 3) ∈ spanningRanges brokenTexts := by decide +kernel
  have hfirst : LiesIn brokenTexts 3 0 := ⟨by decide, by decide⟩
  have hlast : LiesIn brokenTexts 10 2 := ⟨by decide, by decide⟩
  obtain ⟨-, -, hunique, hcrossed⟩ := spanningRanges_exact brokenTexts
  exact ⟨hstands, hfirst, hlast, hunique _ _ _ _ hstands hfirst hlast (by decide), hrange,
    hcrossed _ hrange 2 (by decide) (by decide)⟩

end DeckMerge.Run
