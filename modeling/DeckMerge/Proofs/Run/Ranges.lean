import DeckMerge.Proofs.Placeholder.Places
import DeckMerge.Run.Joining
import Mathlib.Data.List.GetD

/-!
The ranges of texts that tokens span. Two neighbouring texts are in one range exactly if a token begins
before the cut between them and ends behind it.
-/

namespace DeckMerge.Run

variable {ranges : List (Nat × Nat)} {ps : List (Nat × Nat)} {texts : List Text} {k n : Nat}

/-! ### Owners -/

theorem le_owners_getD (index : Nat) (texts : List Text) {n : Nat} (hn : n < texts.flatten.length) :
    index ≤ (owners index texts).getD n 0 := by
  induction texts generalizing index n with
  | nil => simp at hn
  | cons t ts ih =>
    rw [List.flatten_cons, List.length_append] at hn
    by_cases hlt : n < t.length
    · rw [owners, List.getD_append _ _ _ _ (by simpa using hlt)]
      simp [hlt]
    · rw [owners, List.getD_append_right _ _ _ _ (by simpa using hlt), List.length_map]
      exact Nat.le_of_succ_le (ih (index + 1) (by omega))

/-- A character comes from one of the first texts exactly if it stands in these. -/
theorem owners_getD_lt_iff (index : Nat) (hn : n < texts.flatten.length) :
    (owners index texts).getD n 0 < index + k ↔ n < (texts.take k).flatten.length := by
  induction texts generalizing index n k with
  | nil => simp at hn
  | cons t ts ih =>
    cases k with
    | zero => simpa using le_owners_getD index (t :: ts) hn
    | succ k =>
      rw [List.flatten_cons, List.length_append] at hn
      rw [List.take_succ_cons, List.flatten_cons, List.length_append]
      by_cases hlt : n < t.length
      · rw [owners, List.getD_append _ _ _ _ (by simpa using hlt)]
        simp [hlt]
        omega
      · rw [owners, List.getD_append_right _ _ _ _ (by simpa using hlt), List.length_map]
        have := ih (index + 1) (n := n - t.length) (k := k) (by omega)
        omega

/-! ### Ranges -/

/-- Ranges that do not touch, the latest first. -/
structure Stacked (ranges : List (Nat × Nat)) : Prop where
  apart : ranges.Pairwise fun r q => q.2 < r.1
  proper : ∀ r ∈ ranges, r.1 < r.2

/-- The number of texts before a cut inside a range. -/
def Covers (ranges : List (Nat × Nat)) (k : Nat) : Prop := ∃ r ∈ ranges, r.1 < k ∧ k ≤ r.2

@[simp] theorem not_covers_nil : ¬ Covers [] k := by simp [Covers]

theorem covers_cons_iff {r : Nat × Nat} : Covers (r :: ranges) k ↔ r.1 < k ∧ k ≤ r.2 ∨ Covers ranges k := by
  simp [Covers]

theorem covers_reverse_iff : Covers ranges.reverse k ↔ Covers ranges k := by
  simp [Covers]

/-- Adding a stretch that begins in the last range or behind it covers the cuts in it as well. -/
theorem addRange_spec {first last : Nat} (hs : Stacked ranges) (hle : ∀ r ∈ ranges, r.1 ≤ first)
    (h : first ≤ last) : Stacked (addRange ranges first last) ∧
      (∀ r ∈ addRange ranges first last, r.1 ≤ first) ∧
      ∀ k, Covers (addRange ranges first last) k ↔ Covers ranges k ∨ first < k ∧ k ≤ last := by
  by_cases heq : first = last
  · rw [addRange.eq_def, if_pos heq]
    exact ⟨hs, hle, fun k => ⟨.inl, fun hk => hk.resolve_right (by omega)⟩⟩
  cases ranges with
  | nil =>
    rw [addRange.eq_def, if_neg heq]
    exact ⟨⟨by simp, by simp; omega⟩, by simp, fun k => by simp [Covers]⟩
  | cons r more =>
    obtain ⟨f, l⟩ := r
    obtain ⟨hf, hapart⟩ := List.pairwise_cons.1 hs.apart
    obtain ⟨hfl, hproper⟩ := List.forall_mem_cons.1 hs.proper
    obtain ⟨hffirst, hmore⟩ := List.forall_mem_cons.1 hle
    simp only at hf hfl hffirst
    rw [addRange.eq_def, if_neg heq]
    by_cases hmeet : first ≤ l
    · simp only [if_pos hmeet]
      refine ⟨⟨List.pairwise_cons.2 ⟨hf, hapart⟩, List.forall_mem_cons.2 ⟨?_, hproper⟩⟩,
        List.forall_mem_cons.2 ⟨hffirst, hmore⟩, fun k => ?_⟩
      · simp only
        omega
      · simp only [covers_cons_iff, or_right_comm]
        exact or_congr_left (by omega)
    · simp only [if_neg hmeet]
      refine ⟨⟨List.pairwise_cons.2 ⟨?_, hs.apart⟩, List.forall_mem_cons.2 ⟨?_, hs.proper⟩⟩,
        List.forall_mem_cons.2 ⟨Nat.le_refl _, hle⟩, fun k => ?_⟩
      · refine List.forall_mem_cons.2 ⟨by simp only; omega, fun q hq => ?_⟩
        have := hf q hq
        simp only
        omega
      · simp only
        omega
      · rw [covers_cons_iff, or_comm]

theorem foldl_addRange_spec (hs : Stacked ranges) (hle : ∀ r ∈ ranges, ∀ p ∈ ps, r.1 ≤ p.1)
    (hps : ∀ p ∈ ps, p.1 ≤ p.2) (hsorted : ps.Pairwise fun p q => p.1 ≤ q.1) :
    Stacked (ps.foldl (fun ranges p => addRange ranges p.1 p.2) ranges) ∧
      ∀ k, Covers (ps.foldl (fun ranges p => addRange ranges p.1 p.2) ranges) k ↔
        Covers ranges k ∨ Covers ps k := by
  induction ps generalizing ranges with
  | nil => exact ⟨hs, fun k => by simp [Covers]⟩
  | cons p ps ih =>
    obtain ⟨hp, hsorted⟩ := List.pairwise_cons.1 hsorted
    obtain ⟨hs', hle', hcovers⟩ := addRange_spec hs (fun r hr => hle r hr p (by simp)) (hps p (by simp))
    obtain ⟨hstacked, hk⟩ := ih hs' (fun r hr q hq => Nat.le_trans (hle' r hr) (hp q hq))
      (fun q hq => hps q (by simp [hq])) hsorted
    refine ⟨hstacked, fun k => ?_⟩
    rw [List.foldl_cons, hk, hcovers, covers_cons_iff, or_assoc]

/-- The first and last text of each token. -/
def tokenRanges (texts : List Text) : List (Nat × Nat) :=
  (Placeholder.places 0 (Placeholder.Token.read?.findAll texts.flatten).1).map fun p =>
    ((owners 0 texts).getD p.1 0, (owners 0 texts).getD (p.2 - 1) 0)

theorem spanningRanges_eq (texts : List Text) : spanningRanges texts =
    ((tokenRanges texts).foldl (fun ranges p => addRange ranges p.1 p.2) []).reverse := by
  rw [tokenRanges, List.foldl_map]
  exact congrArg List.reverse (Placeholder.foldl_spansFrom (fun ranges start stop =>
    addRange ranges ((owners 0 texts).getD start 0) ((owners 0 texts).getD (stop - 1) 0)) [] 0 _ _)

theorem cuts_flatten (texts : List Text) : Placeholder.Token.read?.Cuts texts.flatten
    (Placeholder.Token.read?.findAll texts.flatten).1 (Placeholder.Token.read?.findAll texts.flatten).2 :=
  Recogniser.cuts_findAll Placeholder.Token.read?_advances _

theorem lt_length_of_mem_places {p : Nat × Nat}
    (hp : p ∈ Placeholder.places 0 (Placeholder.Token.read?.findAll texts.flatten).1) :
    p.1 < p.2 ∧ p.2 ≤ texts.flatten.length := by
  obtain ⟨t, u, v, ht, heq, rfl⟩ := (Placeholder.mem_places_iff (cuts_flatten texts) 0).1 hp
  have := List.length_pos_iff.2 t.text_ne_nil
  rw [heq]
  simp only [List.length_append]
  omega

theorem covers_tokenRanges_iff : Covers (tokenRanges texts) k ↔
    Placeholder.SplitsToken (texts.take k).flatten (texts.drop k).flatten := by
  have hcuts := cuts_flatten texts
  conv at hcuts => arg 2; rw [← List.take_append_drop k texts, List.flatten_append]
  rw [Placeholder.splitsToken_iff hcuts]
  simp only [Covers, tokenRanges, List.mem_map, exists_exists_and_eq_and]
  refine exists_congr fun p => and_congr_right fun hp => ?_
  obtain ⟨hlt, hle⟩ := lt_length_of_mem_places hp
  have hfirst := owners_getD_lt_iff (k := k) 0 (show p.1 < texts.flatten.length by omega)
  have hlast := owners_getD_lt_iff (k := k) 0 (show p.2 - 1 < texts.flatten.length by omega)
  omega

theorem owners_mono {m : Nat} (h : m ≤ n) (hn : n < texts.flatten.length) :
    (owners 0 texts).getD m 0 ≤ (owners 0 texts).getD n 0 := by
  have hm := owners_getD_lt_iff (k := (owners 0 texts).getD n 0 + 1) 0 (Nat.lt_of_le_of_lt h hn)
  have hn := owners_getD_lt_iff (k := (owners 0 texts).getD n 0 + 1) 0 hn
  omega

theorem foldl_tokenRanges_spec (texts : List Text) :
    Stacked ((tokenRanges texts).foldl (fun ranges p => addRange ranges p.1 p.2) []) ∧
      ∀ k, Covers ((tokenRanges texts).foldl (fun ranges p => addRange ranges p.1 p.2) []) k ↔
        Covers (tokenRanges texts) k := by
  have hordered : ∀ p ∈ tokenRanges texts, p.1 ≤ p.2 := by
    intro p hp
    obtain ⟨q, hq, rfl⟩ := List.mem_map.1 hp
    obtain ⟨hlt, hle⟩ := lt_length_of_mem_places hq
    exact owners_mono (by omega) (by omega)
  have hsorted : (tokenRanges texts).Pairwise fun p q => p.1 ≤ q.1 := by
    refine List.pairwise_map.2 (List.Pairwise.imp_of_mem ?_ (Placeholder.pairwise_places 0 _))
    intro p q hp hq hpq
    obtain ⟨hplt, -⟩ := lt_length_of_mem_places hp
    obtain ⟨hqlt, hqle⟩ := lt_length_of_mem_places hq
    exact owners_mono (by omega) (by omega)
  obtain ⟨hstacked, hcovers⟩ := foldl_addRange_spec ⟨.nil, by simp⟩ (by simp) hordered hsorted
  exact ⟨hstacked, fun k => by simp [hcovers]⟩

/-- A cut between two texts lies in a range exactly if a token goes over it. -/
theorem covers_spanningRanges_iff : Covers (spanningRanges texts) k ↔
    Placeholder.SplitsToken (texts.take k).flatten (texts.drop k).flatten := by
  rw [spanningRanges_eq, covers_reverse_iff, (foldl_tokenRanges_spec texts).2, covers_tokenRanges_iff]

theorem pairwise_spanningRanges (texts : List Text) :
    (spanningRanges texts).Pairwise fun r q => r.2 < q.1 := by
  rw [spanningRanges_eq]
  exact List.pairwise_reverse.2 (foldl_tokenRanges_spec texts).1.apart

theorem lt_of_mem_spanningRanges {r : Nat × Nat} (h : r ∈ spanningRanges texts) :
    r.1 < r.2 ∧ r.2 < texts.length := by
  have hproper : r.1 < r.2 := by
    rw [spanningRanges_eq, List.mem_reverse] at h
    exact (foldl_tokenRanges_spec texts).1.proper r h
  obtain ⟨t, l, x, -, -, -, hx, -, hprefix⟩ := covers_spanningRanges_iff.1 ⟨r, h, hproper, Nat.le_refl _⟩
  refine ⟨hproper, ?_⟩
  by_contra! hle
  rw [List.drop_eq_nil_of_le hle] at hprefix
  exact hx (List.prefix_nil.1 hprefix)

end DeckMerge.Run
