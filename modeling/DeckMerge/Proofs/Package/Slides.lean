import DeckMerge.Package.Slides
import DeckMerge.Proofs.Package.Store
import DeckMerge.Proofs.Text.Numeral
import Mathlib.Data.List.TakeDrop

/-!
The slides of a package and the name that comes after them.
-/

namespace DeckMerge.Package

variable {p : Package} {name : Text} {k : Nat}

theorem mem_slides : name ∈ p.slides ↔ name ∈ p.names ∧ isSlide name := by
  simp [slides, List.mem_mergeSort]

theorem nodup_slides (p : Package) : p.slides.Nodup := by
  rw [slides, (List.mergeSort_perm _ _).nodup_iff]
  exact p.nodup_names.filter _

theorem slideNumber?_slideName (n : Nat) : slideNumber? (slideName n) = some n := by
  have hname : "ppt/slides/slide".toList ++ (Text.ofNat n ++ ".xml".toList) = slideName n :=
    (List.append_assoc _ _ _).symm
  have hpre := List.isPrefixOf?_eq_some_iff_append_eq.2 hname
  have hspan : (Text.ofNat n ++ ".xml".toList).span Text.isDigit = (Text.ofNat n, ".xml".toList) := by
    have hdigits : ∀ c ∈ Text.ofNat n, Text.isDigit c := fun _ hc => Text.isDigit_of_mem_ofNat' hc
    have hdot : (".xml".toList).takeWhile Text.isDigit = [] ∧
        (".xml".toList).dropWhile Text.isDigit = ".xml".toList := by decide
    rw [List.span_eq_takeWhile_dropWhile, List.takeWhile_append_of_pos hdigits,
      List.dropWhile_append_of_pos hdigits, hdot.1, hdot.2, List.append_nil]
  simp only [slideNumber?, hpre, Option.bind_eq_bind, Option.bind_some, hspan]
  simp [Text.ofNat_ne_nil, Text.ofDigits_ofNat]

theorem eq_append_of_isSlide (h : isSlide name) : ∃ digits rest : Text,
    name = "ppt/slides/slide".toList ++ (digits ++ rest) ∧
      (rest = ".xml".toList ∨ rest = ".xml\n".toList) := by
  rw [isSlide, Option.isSome_iff_exists] at h
  obtain ⟨k, h⟩ := h
  simp only [slideNumber?, Option.bind_eq_bind, Option.bind_eq_some_iff] at h
  obtain ⟨tail, htail, h⟩ := h
  have hname := List.isPrefixOf?_eq_some_iff_append_eq.1 htail
  rw [List.span_eq_takeWhile_dropWhile] at h
  simp only [Option.ite_none_right_eq_some] at h
  refine ⟨tail.takeWhile Text.isDigit, tail.dropWhile Text.isDigit, ?_, h.1.2⟩
  rw [List.takeWhile_append_dropWhile, hname]

@[simp] theorem isSlide_slideName (n : Nat) : isSlide (slideName n) := by
  simp [isSlide, slideNumber?_slideName]

theorem le_foldl_max {α : Type} [LE α] [Max α] [Std.IsPreorder α] [Std.LawfulOrderSup α] {xs : List α}
    {m n : α} (h : m ∈ xs ∨ m ≤ n) : m ≤ xs.foldl max n := by
  induction xs generalizing n with
  | nil => simpa using h
  | cons x xs ih =>
    apply ih
    rcases h with h | h
    · rcases List.mem_cons.1 h with rfl | h
      · exact .inr Std.right_le_max
      · exact .inl h
    · exact .inr (Std.le_trans h Std.left_le_max)

theorem lt_nextNumber (hmem : name ∈ p.names) (hk : slideNumber? name = some k) : k < p.nextNumber := by
  have hslide : name ∈ p.slides := mem_slides.2 ⟨hmem, by simp [isSlide, hk]⟩
  exact Nat.lt_succ_of_le (le_foldl_max (.inl (List.mem_filterMap.2 ⟨name, hslide, hk⟩)))

theorem slideName_nextNumber_notMem (p : Package) : slideName p.nextNumber ∉ p.names := by
  intro hmem
  exact Nat.lt_irrefl _ (lt_nextNumber hmem (slideNumber?_slideName p.nextNumber))

/-! ### Relationships of a slide -/

theorem exists_file_of_isSlide (h : isSlide name) :
    ∃ file : Text, '/' ∉ file ∧ name = "ppt/slides".toList ++ '/' :: file := by
  rw [isSlide, Option.isSome_iff_exists] at h
  obtain ⟨k, h⟩ := h
  simp only [slideNumber?, Option.bind_eq_bind, Option.bind_eq_some_iff] at h
  obtain ⟨tail, htail, h⟩ := h
  have hname := List.isPrefixOf?_eq_some_iff_append_eq.1 htail
  rw [List.span_eq_takeWhile_dropWhile] at h
  simp only [Option.ite_none_right_eq_some] at h
  have hdigits : '/' ∉ tail.takeWhile Text.isDigit := by
    intro hmem
    have hdigit : Text.isDigit '/' := List.all_eq_true.1 List.all_takeWhile _ hmem
    exact absurd hdigit (by decide)
  have hrest : '/' ∉ tail.dropWhile Text.isDigit := by
    rcases h.1.2 with hrest | hrest <;> rw [hrest] <;> decide
  refine ⟨"slide".toList ++ tail, ?_, by rw [← hname]; rfl⟩
  rw [List.mem_append, not_or]
  refine ⟨by decide, ?_⟩
  rw [← List.takeWhile_append_dropWhile (p := Text.isDigit) (l := tail), List.mem_append, not_or]
  exact ⟨hdigits, hrest⟩

theorem breakAtLast?_append {mark : Char} {before after : Text} (h : mark ∉ after) :
    Text.breakAtLast? mark (before ++ mark :: after) = some (before, after) := by
  have hafter : ∀ c ∈ after.reverse, c != mark := by
    intro c hc
    rw [bne_iff_ne]
    rintro rfl
    exact h (List.mem_reverse.1 hc)
  have hreverse : (before ++ mark :: after).reverse = after.reverse ++ mark :: before.reverse := by simp
  rw [Text.breakAtLast?, hreverse, List.span_eq_takeWhile_dropWhile,
    List.takeWhile_append_of_pos hafter, List.dropWhile_append_of_pos hafter]
  simp

theorem relationshipsName_append {file : Text} (h : '/' ∉ file) :
    relationshipsName ("ppt/slides".toList ++ '/' :: file) =
      "ppt/slides/_rels/".toList ++ file ++ ".rels".toList := by
  rw [relationshipsName, breakAtLast?_append h]
  rfl

/-- Different slides have different relationships. -/
theorem relationshipsName_inj {other : Text} (hname : isSlide name) (hother : isSlide other)
    (h : relationshipsName name = relationshipsName other) : name = other := by
  obtain ⟨file, hfile, rfl⟩ := exists_file_of_isSlide hname
  obtain ⟨file', hfile', rfl⟩ := exists_file_of_isSlide hother
  rw [relationshipsName_append hfile, relationshipsName_append hfile'] at h
  rw [List.append_cancel_left (List.append_cancel_right h)]

end DeckMerge.Package
