import DeckMerge.Proofs.Markup.Entity
import DeckMerge.Proofs.Markup.Line

/-!
Lines and line breaks. The lines of a value are what stands between its breaks, so there is one more of
them than there are breaks; and they may be escaped one by one.
-/

namespace DeckMerge

namespace Text

variable {mark : Char} {s piece : Text}

theorem mark_notMem_of_mem_splitAt (h : piece ∈ splitAt mark s) : mark ∉ piece := by
  induction s generalizing piece with
  | nil =>
    obtain rfl := List.mem_singleton.1 h
    exact List.not_mem_nil
  | cons c s ih =>
    by_cases hc : c = mark
    · subst hc
      rw [splitAt_mark] at h
      rcases List.mem_cons.1 h with rfl | h
      · exact List.not_mem_nil
      · exact ih h
    · obtain ⟨first, pieces, hsplit⟩ := exists_splitAt_eq_cons mark s
      rw [splitAt_cons_of_ne hc hsplit] at h
      rw [hsplit] at ih
      rcases List.mem_cons.1 h with rfl | h
      · rw [List.mem_cons, not_or]
        exact ⟨Ne.symm hc, ih List.mem_cons_self⟩
      · exact ih (List.mem_cons_of_mem _ h)

theorem subset_joinWith {pieces : List Text} (mark : Text) (h : piece ∈ pieces) :
    piece ⊆ joinWith mark pieces := by
  induction pieces with
  | nil => cases h
  | cons first pieces ih =>
    cases pieces with
    | nil =>
      obtain rfl := List.mem_singleton.1 h
      exact List.Subset.refl _
    | cons next pieces =>
      rw [joinWith_cons_of_ne_nil (List.cons_ne_nil _ _)]
      rcases List.mem_cons.1 h with rfl | h
      · exact List.append_assoc .. ▸ List.subset_append_left _ _
      · exact List.Subset.trans (ih h) (List.subset_append_right _ _)

/-- Every character of a piece is one of the text. -/
theorem subset_of_mem_splitAt (h : piece ∈ splitAt mark s) : piece ⊆ s := by
  have hsub := subset_joinWith [mark] h
  rwa [joinWith_splitAt] at hsub

end Text

namespace Markup

variable {v line : Text}

theorem return_notMem_normalizeBreaks (v : Text) : '\r' ∉ normalizeBreaks v := by
  fun_induction normalizeBreaks v with
  | case1 => simp
  | case2 s ih => simpa using ih
  | case3 s _ ih => simpa using ih
  | case4 c s _ hc ih => simpa [Ne.symm hc] using ih

/-- Pairs of a carriage return and a line feed first, and then the carriage returns that are left. -/
theorem normalizeBreaks_eq_replace (v : Text) :
    normalizeBreaks v = Text.replace ['\r'] ['\n'] (Text.replace ['\r', '\n'] ['\n'] v) := by
  rw [Text.replace_singleton]
  have hne : ['\r', '\n'] ≠ [] := List.cons_ne_nil _ _
  fun_induction normalizeBreaks v with
  | case1 => rw [Text.replace_nil hne, List.flatMap_nil]
  | case2 s ih =>
    have hpair := Text.replace_append_needle hne ['\n'] s
    rw [List.cons_append, List.singleton_append] at hpair
    rw [hpair, ih]
    rfl
  | case3 s hfeed ih =>
    have hfirst : ¬ ['\r', '\n'] <+: '\r' :: s := by
      rintro ⟨rest, hrest⟩
      exact hfeed rest (List.cons.inj hrest).2.symm
    rw [Text.replace_cons hne hfirst, ih]
    rfl
  | case4 c s _ hc ih =>
    have hfirst : ¬ ['\r', '\n'] <+: c :: s := by
      rw [List.cons_prefix_cons]
      exact fun h => hc h.1.symm
    rw [Text.replace_cons hne hfirst, List.flatMap_cons, if_neg hc, ih]
    rfl

/-- Whether a character begins a pair depends on the one behind it. -/
theorem count_zip_tail_cons (c : Char) (s : Text) : ((c :: s).zip s).count ('\r', '\n') =
    (s.zip s.tail).count ('\r', '\n') + if c = '\r' ∧ s.head? = some '\n' then 1 else 0 := by
  cases s with
  | nil => simp
  | cons d s => simp [List.count_cons]

theorem count_normalizeBreaks (v : Text) : (normalizeBreaks v).count '\n' + (v.zip v.tail).count ('\r', '\n') =
    v.count '\r' + v.count '\n' := by
  fun_induction normalizeBreaks v with
  | case1 => rfl
  | case2 s ih =>
    simp only [List.tail_cons, count_zip_tail_cons, List.count_cons, List.head?_cons, BEq.rfl, Char.reduceBEq,
      Char.reduceEq, and_self, false_and, Bool.false_eq_true, if_true, if_false]
    omega
  | case3 s hfeed ih =>
    have hhead : s.head? ≠ some '\n' := by
      intro h
      obtain ⟨rest, hrest⟩ := List.head?_eq_some_iff.1 h
      exact hfeed rest hrest
    simp only [List.tail_cons, count_zip_tail_cons, List.count_cons, hhead, BEq.rfl, Char.reduceBEq, and_false,
      Bool.false_eq_true, if_true, if_false]
    omega
  | case4 c s _ hc ih =>
    have hreturn : c ≠ '\r' := hc
    simp only [List.tail_cons, count_zip_tail_cons, List.count_cons, beq_iff_eq, hreturn, false_and, if_false]
    omega

theorem escape_append (s t : Text) : escape (s ++ t) = escape s ++ escape t := by
  simp [escape, sanitize]

theorem joinWith_map_escape (pieces : List Text) :
    Text.joinWith ['\n'] (pieces.map escape) = escape (Text.joinWith ['\n'] pieces) := by
  induction pieces with
  | nil => rfl
  | cons piece pieces ih =>
    cases pieces with
    | nil => rfl
    | cons next pieces =>
      have hfeed : escape ['\n'] = ['\n'] := by decide
      have hmap : (next :: pieces).map escape ≠ [] := List.cons_ne_nil _ _
      rw [List.map_cons, Text.joinWith_cons_of_ne_nil hmap, Text.joinWith_cons_of_ne_nil (List.cons_ne_nil _ _),
        ih, escape_append, escape_append, hfeed]

/-- The lines hold no break; there is one more of them than there are breaks, where a carriage return and a
line feed behind it are one; joined, they are the value with a line feed for each break; and so they are
once they have been escaped one by one. -/
theorem lines_consistent (v : Text) :
    (∀ line ∈ lines v, '\r' ∉ line ∧ '\n' ∉ line) ∧
    (hasBreak v ↔ 2 ≤ (lines v).length) ∧
    (lines v).length + (v.zip v.tail).count ('\r', '\n') = 1 + v.count '\r' + v.count '\n' ∧
    Text.joinWith ['\n'] (lines v) = Text.replace ['\r'] ['\n'] (Text.replace ['\r', '\n'] ['\n'] v) ∧
    Text.joinWith ['\n'] ((lines v).map escape) =
      escape (Text.replace ['\r'] ['\n'] (Text.replace ['\r', '\n'] ['\n'] v)) := by
  have hjoin := Text.joinWith_splitAt '\n' (normalizeBreaks v)
  rw [← normalizeBreaks_eq_replace]
  refine ⟨?_, ?_, ?_, hjoin, ?_⟩
  · intro line hline
    refine ⟨fun h => return_notMem_normalizeBreaks v (Text.subset_of_mem_splitAt hline h), ?_⟩
    exact Text.mark_notMem_of_mem_splitAt hline
  · rw [lines, Text.length_splitAt, ← mem_normalizeBreaks_iff, ← List.count_pos_iff]
    omega
  · have := count_normalizeBreaks v
    rw [lines, Text.length_splitAt]
    omega
  · rw [joinWith_map_escape, lines, hjoin]

def mixedBreaks : Text := "R & D\r\nSales\rand\n"

/-- A pair of breaks, each break by itself, and one at the end. -/
theorem lines_consistent_mixed : "R & D".toList ∈ lines mixedBreaks ∧
    ('\r' ∉ "R & D".toList ∧ '\n' ∉ "R & D".toList) ∧ 2 ≤ (lines mixedBreaks).length ∧
    (lines mixedBreaks).length = 4 ∧
    Text.joinWith ['\n'] ((lines mixedBreaks).map escape) = "R &amp; D\nSales\nand\n" := by
  obtain ⟨hunbroken, hbreak, -, -, hescaped⟩ := lines_consistent mixedBreaks
  have hline : "R & D".toList ∈ lines mixedBreaks := by decide
  exact ⟨hline, hunbroken _ hline, hbreak.1 (by decide), by decide, hescaped.trans (by decide +kernel)⟩

end Markup

end DeckMerge
