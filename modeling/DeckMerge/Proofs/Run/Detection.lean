import DeckMerge.Part
import DeckMerge.Proofs.Placeholder.Cleanup
import DeckMerge.Proofs.Run.Joining
import DeckMerge.Proofs.Sequence

/-!
Detecting placeholders that are split over runs. Joining runs happens for the sake of a token, which then
stands whole in one run: a text without tokens after joining is the text from before.
-/

namespace DeckMerge

namespace Run

open Placeholder

variable {d : Dialect} {linked : Nat → Prop} {rs rs' g : Runs} {s : Text}

/-! ### Joining leaves a token -/

/-- Runs whose texts have a token have one with a token of its own, or two neighbours that split one. -/
theorem hasTokens_textOf (h : hasTokens (textOf rs)) :
    (∃ r ∈ rs, hasTokens r.2.text) ∨ ∃ x y, rs = x ++ y ∧ SplitsToken (textOf x) (textOf y) := by
  rw [or_iff_not_imp_left]
  intro hnone
  rw [← flatten_map_text] at h
  obtain ⟨before, after, l, r, t, hmap, ht, htext, hl, hr, hlx, hry⟩ := rejoins_of_hasTokens_flatten h
    (by simpa only [List.forall_mem_map, not_exists, not_and] using hnone)
  obtain ⟨x, y, rfl, rfl, rfl⟩ := List.map_eq_append_iff.1 hmap
  rw [flatten_map_text] at hlx hry
  exact ⟨x, y, rfl, t, l, r, ht, htext, hl, hr, hlx, hry⟩

/-- Joining a group changes nothing, or it makes a run that has a token. -/
theorem joinGroup_eq_or (hg : Adjacent g) :
    joinGroup g = (g, 0) ∨ ∃ r ∈ (joinGroup g).1, hasTokens r.2.text := by
  obtain ⟨hjoins, hcount⟩ := joins_joinGroup hg
  by_cases hsplit : ∃ k, SplitsToken (textOf (g.take k)) (textOf (g.drop k))
  · obtain ⟨k, hsplit⟩ := hsplit
    have htext : hasTokens (textOf (joinGroup g).1) := by
      rw [hjoins.textOf_eq, ← List.take_append_drop k g, textOf_append]
      exact hsplit.hasTokens
    -- a cut of the joined runs that parts the token would be a cut that was not removed
    refine .inr ((hasTokens_textOf htext).resolve_right ?_)
    rintro ⟨x', y', heq, hcut⟩
    rw [heq] at hjoins
    obtain ⟨x, y, rfl, hx, hy, hnot⟩ := hjoins.split
    obtain ⟨hx', hy'⟩ := ne_nil_of_splitsToken hcut
    refine hnot hx' hy' ?_
    rwa [Nat.zero_add, List.take_left, List.drop_left, ← hx.textOf_eq, ← hy.textOf_eq]
  · have heq := hjoins.eq_of_not_linked (not_exists.1 hsplit)
    rw [heq] at hcount
    exact .inl (Prod.ext heq (by simp only; omega))

theorem text_infix_written {r : Text × TextRun} (h : r ∈ rs) (tail : Text) : r.2.text <:+: written rs tail := by
  obtain ⟨x, y, rfl⟩ := List.append_of_mem h
  exact ⟨written x [] ++ r.1 ++ r.2.head, r.2.tail ++ written y tail, by simp [written, TextRun.markup]⟩

theorem joinDialect_eq_or (d : Dialect) (s : Text) :
    joinDialect d s = (s, 0) ∨ hasTokens (joinDialect d s).1 := by
  have hcuts := Recogniser.cuts_findAll (TextRun.read?_advances d) s
  obtain ⟨hflatten, hadjacent, -⟩ := grouped_groups ((TextRun.read? d).findAll s).1
  rw [joinDialect_eq]
  by_cases hsame : ∀ g ∈ groups ((TextRun.read? d).findAll s).1, joinGroup g = (g, 0)
  · have hmap := List.map_congr_left hsame
    have hjoined : joined (groups ((TextRun.read? d).findAll s).1) = ((TextRun.read? d).findAll s).1 := by
      rw [joined, hmap, List.flatMap_map, List.flatMap_id', hflatten]
    have hcount := (joins_groups ((TextRun.read? d).findAll s).1).2
    rw [hjoined, Nat.add_eq_left] at hcount
    exact .inl (by rw [hjoined, hcount, ← eq_written_of_cuts hcuts])
  · simp only [not_forall] at hsame
    obtain ⟨g, hg, hne⟩ := hsame
    obtain ⟨r, hr, htokens⟩ := (joinGroup_eq_or (hadjacent g hg).2).resolve_left hne
    have hmem : r ∈ joined (groups ((TextRun.read? d).findAll s).1) :=
      List.mem_flatMap.2 ⟨_, List.mem_map_of_mem hg, hr⟩
    exact .inr (hasTokens_mono htokens (text_infix_written hmem _))

/-- Joining changes nothing, or it leaves a token. -/
theorem joinRuns_eq_or (s : Text) : joinRuns s = (s, 0) ∨ hasTokens (joinRuns s).1 := by
  have hfold : ∀ (f : Text × Nat → Dialect → Text × Nat), (∀ p d, f p d = p ∨ hasTokens (f p d).1) →
      ∀ (ds : List Dialect) p, ds.foldl f p = p ∨ hasTokens (ds.foldl f p).1 := by
    intro f hf ds
    induction ds with
    | nil => exact fun p => .inl rfl
    | cons d ds ih =>
      intro p
      rw [List.foldl_cons]
      rcases ih (f p d) with heq | htokens
      · rw [heq]
        exact hf p d
      · exact .inr htokens
  refine hfold _ (fun p d => ?_) _ _
  rcases joinDialect_eq_or d p.1 with heq | htokens
  · left
    simp [heq]
  · exact .inr htokens

end Run

/-! ### Texts without tokens -/

namespace Placeholder

variable {s : Text}

/-- A text without tokens is literal text. -/
theorem parse_of_not_hasTokens (h : ¬ hasTokens s) : parse s = if s = [] then [] else [.literal s] := by
  simp only [parse, scan, findAll_of_not_hasTokens h, spansFrom, literalSpan]
  split <;> rfl

theorem expand_of_not_hasTokens (h : ¬ hasTokens s) (binding : Binding) : expand s binding = .ok ⟨s, [], 0⟩ := by
  rw [expand, parse_of_not_hasTokens h]
  by_cases hs : s = []
  · simp [hs, expandNodes, slotted]
  · have hslotted : slotted 0 [.text s] = s := List.append_nil s
    simp only [if_neg hs, expandNodes, expandNode, Sequence.bind_ok, Sequence.pure_eq_ok, List.append_nil,
      hslotted, strip_of_not_hasTokens h]
    rfl

end Placeholder

namespace Part

def plainRuns : Text := "<a:r><a:t>\x7b\x7bA\x7d</a:t></a:r> <a:r><a:t>B\x7d</a:t></a:r>"

/-- Joining runs hides no token, and where it shows none the part is rendered as it is. -/
theorem render_untemplated (s : Text) :
    (¬ Placeholder.hasTokens (Run.joinRuns s).1 → Run.joinRuns s = (s, 0) ∧
      ∀ name binding, render name s binding = .ok ⟨s, 0, [], []⟩) ∧
    (Placeholder.hasTokens s → Placeholder.hasTokens (Run.joinRuns s).1) := by
  constructor
  · intro h
    have heq := (Run.joinRuns_eq_or s).resolve_right h
    have hs : ¬ Placeholder.hasTokens s := by rwa [heq] at h
    refine ⟨heq, fun name binding => ?_⟩
    simp [render, heq, Placeholder.expand_of_not_hasTokens hs, Run.fillSlots, Run.fillFrom, Run.joinNotes]
  · intro h
    rcases Run.joinRuns_eq_or s with heq | htokens
    · rwa [heq]
    · exact htokens

/-- A brace in one run and a brace in the next make no token. -/
theorem render_untemplated_runs : ¬ Placeholder.hasTokens (Run.joinRuns plainRuns).1 ∧
    Run.joinRuns plainRuns = (plainRuns, 0) ∧ render none plainRuns [] = .ok ⟨plainRuns, 0, [], []⟩ := by
  have h : ¬ Placeholder.hasTokens (Run.joinRuns plainRuns).1 := by decide +kernel
  obtain ⟨hjoin, hrender⟩ := (render_untemplated plainRuns).1 h
  exact ⟨h, hjoin, hrender none []⟩

end Part

end DeckMerge
