import DeckMerge.Markup.Escape
import Mathlib.Data.List.Basic

/-!
What an escaped value holds: only characters that a document may hold, and nothing that begins a tag.
-/

namespace DeckMerge.Markup

theorem isLegal_of_all {s : Text} (hs : s.all fun c => isLegal c.toNat) {c : Char} (h : c ∈ s) :
    isLegal c.toNat := List.all_eq_true.1 hs c h

theorem toNat_ofNat_of_isLegal {n : Nat} (h : isLegal n) : (Char.ofNat n).toNat = n := by
  have hvalid : n.isValidChar := by
    simp only [isLegal, Bool.or_eq_true, Bool.and_eq_true, decide_eq_true_eq] at h
    simp only [Nat.isValidChar]
    omega
  rw [Char.ofNat, dif_pos hvalid]
  rfl

theorem mem_escapeChar {c d : Char} (h : d ∈ escapeChar c) (hd : ¬ isLegal d.toNat) : d = c := by
  unfold escapeChar at h
  split at h
  case h_6 => simpa using h
  all_goals exact absurd (isLegal_of_all (by decide) h) hd

theorem isLegal_of_mem_escape {s : Text} {c : Char} (h : c ∈ escape s) : isLegal c.toNat := by
  obtain ⟨d, hd, hc⟩ := List.mem_flatMap.1 h
  have hlegal : isLegal d.toNat := (List.mem_filter.1 hd).2
  by_contra hn
  rw [mem_escapeChar hc hn] at hn
  exact hn hlegal

theorem nul_notMem_escape (s : Text) : '\x00' ∉ escape s := by
  intro h
  have := isLegal_of_mem_escape h
  revert this
  decide

theorem escape_ne_nil {s : Text} (h : sanitize s ≠ []) : escape s ≠ [] := by
  obtain ⟨c, t, ht⟩ := List.exists_cons_of_ne_nil h
  rw [escape, ht, List.flatMap_cons]
  refine List.append_ne_nil_of_left_ne_nil ?_ _
  unfold escapeChar
  split <;> exact List.cons_ne_nil _ _

theorem lt_notMem_escape (s : Text) : '<' ∉ escape s := by
  intro h
  obtain ⟨c, -, hc⟩ := List.mem_flatMap.1 h
  unfold escapeChar at hc
  split at hc
  case h_6 hlt _ _ _ => exact hlt (List.mem_singleton.1 hc).symm
  all_goals exact absurd hc (by decide)

end DeckMerge.Markup
