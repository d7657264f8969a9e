import DeckMerge.Proofs.Run.Filling
import DeckMerge.Proofs.Run.Lines
import DeckMerge.Proofs.Run.Properties

/-!
Several values in one run. A value of several lines leaves the slots behind it in the last of its runs,
so the next value finds a plain run again; in the end the run has been cut at every line break.
-/

namespace DeckMerge.Run

open Placeholder

variable {d : Dialect} {pre post props c l : Text} {ls : List Text} {index : Nat}

/-- A slot in the text of a run, its value, and the text behind it up to the next slot. -/
structure Placed where
  index : Nat
  value : Text
  after : Text

def slotsText (ps : List Placed) : Text := ps.flatMap fun p => slotText p.index ++ p.after

/-- A number between two slots would read as a slot itself, with the NULs around it. -/
structure Placed.Literal (p : Placed) : Prop where
  no_tag : '<' ∉ p.after
  no_nul : '\x00' ∉ p.after
  not_number : ∀ n, p.after ≠ Text.ofNat n

def injectAll (part : Option Text) (label : Nat → Option Text) (s : Text) (ps : List Placed) : Text :=
  ps.foldl (fun s p => (inject s (slotText p.index) p.value part (label p.index)).1) s

/-- No properties, or one tag that closes itself and has no bracket in its attributes. -/
def SimpleProps (d : Dialect) (props : Text) : Prop :=
  props = [] ∨ ∃ attrs, Attributes attrs ∧ props = (PropsElement.empty attrs).text d

/-- The texts of the runs, in which every line break of a value has ended a run. -/
def contents (first : Text) (ps : List Placed) : List Text :=
  weaveLines first (ps.map fun p => (writtenLines p.value, p.after))

variable {p : Placed} {ps : List Placed}

/-! ### The slots that are left -/

theorem lt_notMem_slotsText (hps : ∀ p ∈ ps, p.Literal) : '<' ∉ slotsText ps := by
  intro h
  obtain ⟨p, hp, hmem⟩ := List.mem_flatMap.1 h
  have hdigit : '<' ∉ Text.ofNat p.index := Text.notMem_ofNat (by decide) p.index
  simp [slotText, hdigit, (hps p hp).no_tag] at hmem

theorem breakOn?_slotsText (hl : '\x00' ∉ l) (hps : ∀ p ∈ ps, p.Literal)
    (hindex : index ∉ ps.map Placed.index) (hpost : '\x00' ∉ post) :
    Text.breakOn? (slotText index) (l ++ slotsText ps ++ post) = none := by
  have hnul : '\x00' ∉ Text.ofNat index := Text.notMem_ofNat (by decide) index
  induction ps generalizing l with
  | nil =>
    have h := breakOn?_slotText_append (l := l ++ post) (by simp [hl, hpost]) index []
    simpa [slotsText, slotText_ne_nil] using h
  | cons p ps ih =>
    obtain ⟨hp, hps⟩ := List.forall_mem_cons.1 hps
    rw [List.map_cons, List.mem_cons, not_or] at hindex
    have hsplit : l ++ slotsText (p :: ps) ++ post =
        l ++ (slotText p.index ++ (p.after ++ slotsText ps ++ post)) := by simp [slotsText]
    rw [hsplit, breakOn?_slotText_append hl, breakOn?_slotText_mark hindex.1]
    refine ⟨?_, ih hp.no_nul hps hindex.2⟩
    cases ps with
    | nil =>
      intro h
      have hmem : '\x00' ∈ p.after ++ slotsText [] ++ post := h.subset (by simp)
      simp [slotsText, hp.no_nul, hpost] at hmem
    | cons p' ps =>
      have hbetween := append_singleton_isPrefix_iff hnul hp.no_nul
        (u := Text.ofNat p'.index ++ '\x00' :: (p'.after ++ slotsText ps ++ post))
      intro h
      exact hp.not_number index (hbetween.1 (by simpa [slotsText, slotText] using h)).symm

/-! ### The last of the runs -/

theorem Dialect.nul_notMem_runStart (d : Dialect) (h : '\x00' ∉ props) : '\x00' ∉ d.runStart props := by
  cases d <;> simp [runStart, plainTag, runTag, textTag, h]

theorem Dialect.nul_notMem_runEnd (d : Dialect) : '\x00' ∉ d.runEnd := by cases d <;> decide

theorem Dialect.nul_notMem_lineBreak (d : Dialect) (h : '\x00' ∉ props) :
    '\x00' ∉ d.lineBreak props := by
  cases d with
  | drawing =>
    by_cases hp : props = []
    · simp [hp, lineBreak_nil]
    · simp [lineBreak_of_ne_nil hp, h]
  | word => simp [lineBreak_word, h]

theorem Dialect.closed_lineBreak (d : Dialect) (x props : Text) : Closed (x ++ d.lineBreak props) := by
  have hlast : ∃ y, d.lineBreak props = y ++ ['>'] := by
    cases d with
    | drawing =>
      by_cases hp : props = []
      · exact ⟨"<a:br/", by simp [hp, lineBreak_nil]⟩
      · exact ⟨"<a:br>" ++ props ++ "</a:br", by simp [lineBreak_of_ne_nil hp]⟩
    | word => exact ⟨"<w:r>" ++ props ++ "<w:br/></w:r", by simp [lineBreak_word]⟩
  obtain ⟨y, hy⟩ := hlast
  rw [hy, ← List.append_assoc]
  exact closed_append_bracket (x ++ y)

/-- Lines in a plain run, to the last of them, are a text and the start of a plain run. -/
theorem exists_last_run (d : Dialect) (hls : ∀ l ∈ ls, '<' ∉ l ∧ '\x00' ∉ l) (hne : ls ≠ [])
    (hpre : Closed pre) (hpre' : '\x00' ∉ pre) (hprops : '\x00' ∉ props) (hc : '<' ∉ c ∧ '\x00' ∉ c) :
    ∃ pre' c', pre ++ (d.runStart props ++ c) ++ Text.joinWith (d.nextLine props) ls =
        pre' ++ (d.runStart props ++ c') ∧
      Closed pre' ∧ '\x00' ∉ pre' ∧ '<' ∉ c' ∧ '\x00' ∉ c' := by
  induction ls generalizing pre c with
  | nil => exact absurd rfl hne
  | cons l ls ih =>
    obtain ⟨hl, hls⟩ := List.forall_mem_cons.1 hls
    cases ls with
    | nil => exact ⟨pre, c ++ l, by simp [Text.joinWith], hpre, hpre', by simp [hc, hl], by simp [hc, hl]⟩
    | cons l' ls =>
      have hnul : '\x00' ∉ pre ++ d.runStart props ++ c ++ l ++ d.runEnd ++ d.lineBreak props := by
        simp [hpre', hc, hl, d.nul_notMem_runStart hprops, d.nul_notMem_runEnd,
          d.nul_notMem_lineBreak hprops]
      obtain ⟨pre', c', heq, h⟩ := ih hls (by simp)
        (d.closed_lineBreak (pre ++ d.runStart props ++ c ++ l ++ d.runEnd) props) hnul
        (c := []) (by simp)
      refine ⟨pre', c', ?_, h⟩
      rw [← heq, Text.joinWith_cons_of_ne_nil (by simp)]
      simp [Dialect.nextLine]

/-! ### All values -/

theorem injectAll_plain (hps : ∀ p ∈ ps, p.Literal) (hindex : (ps.map Placed.index).Nodup)
    (hpre : Closed pre) (hpre' : '\x00' ∉ pre) (hprops : Closed props) (hprops' : '\x00' ∉ props)
    (hread : ReadsAsProps .drawing props) (hc : '<' ∉ c ∧ '\x00' ∉ c) (hpost : '\x00' ∉ post)
    (part : Option Text) (label : Nat → Option Text) :
    injectAll part label (pre ++ Dialect.drawing.run props (c ++ slotsText ps) ++ post) ps =
      pre ++ (Dialect.drawing.runStart props ++ (c ++ ps.flatMap fun p =>
        Text.joinWith (Dialect.drawing.nextLine props) (writtenLines p.value) ++ p.after) ++
          Dialect.drawing.runEnd) ++ post := by
  induction ps generalizing pre c with
  | nil => simp [injectAll, slotsText, Dialect.run]
  | cons p ps ih =>
    obtain ⟨hp, hps⟩ := List.forall_mem_cons.1 hps
    rw [List.map_cons, List.nodup_cons] at hindex
    -- the invariant: before the slots that are left stand a text and the start of a plain run
    have hfront : '\x00' ∉ pre ++ (Dialect.drawing.runStart props ++ c) := by
      simp [hpre', hc, Dialect.drawing.nul_notMem_runStart hprops']
    have hend : '\x00' ∉ Dialect.drawing.runEnd ++ post := by
      simp [hpost, Dialect.drawing.nul_notMem_runEnd]
    have htag : '<' ∉ p.after ++ slotsText ps := by simp [hp.no_tag, lt_notMem_slotsText hps]
    have hne := slotText_ne_nil p.index
    have hfirst := Text.first_of_breakOn? hne (breakOn?_slotText hfront p.index
      ((p.after ++ slotsText ps) ++ (Dialect.drawing.runEnd ++ post)))
    have honce := (Text.breakOn?_eq_none_iff hne).1
      (breakOn?_slotsText hp.no_nul hps hindex.1 hend)
    obtain ⟨pre', c', heq, hpre₁, hpre₂, hc'⟩ := exists_last_run .drawing
      (fun _ => notMem_of_mem_writtenLines) (writtenLines_ne_nil p.value) hpre hpre' hprops' hc
    have hinject : (inject (pre ++ Dialect.drawing.run props (c ++ slotsText (p :: ps)) ++ post)
          (slotText p.index) p.value part (label p.index)).1 =
        pre' ++ Dialect.drawing.run props ((c' ++ p.after) ++ slotsText ps) ++ post := by
      have h := inject_plain hne hpre hprops hread hc.1 htag hfirst honce p.value part
        (label p.index)
      rw [heq] at h
      simpa [slotsText, Dialect.run] using h
    have hrest := ih hps hindex.2 hpre₁ hpre₂ (c := c' ++ p.after)
      (by simp [hc', hp.no_tag, hp.no_nul])
    rw [injectAll, List.foldl_cons, ← injectAll, hinject, hrest, List.flatMap_cons]
    have hjoin := congrArg (· ++ (p.after ++ (ps.flatMap fun p =>
      Text.joinWith (Dialect.drawing.nextLine props) (writtenLines p.value) ++ p.after) ++
        Dialect.drawing.runEnd ++ post)) heq
    simpa using hjoin.symm

theorem SimpleProps.readsAsProps (h : SimpleProps d props) : ReadsAsProps d props := by
  rcases h with rfl | ⟨attrs, hattrs, rfl⟩
  · exact readsAsProps_nil d
  · exact readsAsProps_empty d hattrs

theorem SimpleProps.closed (h : SimpleProps d props) : Closed props := by
  rcases h with rfl | ⟨attrs, -, rfl⟩
  · exact closed_of_notMem (by simp)
  · exact PropsElement.closed_empty d attrs

/-- Values written one after another over the slots of one run leave one run more for every line break
in them, all with the properties of the run and a break between two. The texts of the runs are that of the
run with the values in their slots, cut where the values have line breaks. -/
theorem injectAll_composes (hpre : Closed pre) (hpre' : '\x00' ∉ pre) (hprops : SimpleProps .drawing props)
    (hprops' : '\x00' ∉ props) (hc : '<' ∉ c ∧ '\x00' ∉ c) (hps : ∀ p ∈ ps, p.Literal)
    (hindex : (ps.map Placed.index).Nodup) (hpost : '\x00' ∉ post) (part : Option Text)
    (label : Nat → Option Text) :
    injectAll part label (pre ++ Dialect.drawing.run props (c ++ slotsText ps) ++ post) ps =
        pre ++ Text.joinWith (Dialect.drawing.lineBreak props)
          ((contents c ps).map (Dialect.drawing.run props)) ++ post ∧
      (contents c ps).length = 1 + (ps.map fun p => (Markup.lines p.value).length - 1).sum ∧
      ∀ mark, Text.joinWith mark (contents c ps) =
        c ++ ps.flatMap fun p => Text.joinWith mark (writtenLines p.value) ++ p.after := by
  have hne : ∀ q ∈ ps.map fun p => (writtenLines p.value, p.after), q.1 ≠ [] := by
    simp [writtenLines_ne_nil]
  refine ⟨?text, ?number, ?cut⟩
  case text =>
    rw [injectAll_plain hps hindex hpre hpre' hprops.closed hprops' hprops.readsAsProps hc hpost,
      contents, joinWith_map_weaveLines _ _ hne, List.flatMap_map]
  case number =>
    rw [contents, length_weaveLines c hne, List.map_map]
    simp [Function.comp_def, length_writtenLines]
  case cut =>
    intro mark
    rw [contents, joinWith_weaveLines mark c hne, List.flatMap_map]

/-- Three slots: two side by side, the first two with a value of several lines, and numbers left out. -/
def placedSlots : List Placed :=
  [⟨0, "a\nb", []⟩, ⟨3, "c\r\n\nd", ", "⟩, ⟨7, "e", "."⟩]

def languageProps : Text := "<a:rPr lang=\"en\"/>"

theorem injectAll_composes_language : (∀ p ∈ placedSlots, p.Literal) ∧
    SimpleProps .drawing languageProps ∧
    contents "to " placedSlots = ["to a".toList, "bc".toList, [], "d, e.".toList] ∧
    injectAll none (fun _ => none)
        ("<a:p>" ++ Dialect.drawing.run languageProps ("to " ++ slotsText placedSlots) ++ "</a:p>")
        placedSlots =
      "<a:p>" ++ Text.joinWith (Dialect.drawing.lineBreak languageProps)
        ((contents "to " placedSlots).map (Dialect.drawing.run languageProps)) ++ "</a:p>" := by
  have hps : ∀ p ∈ placedSlots, p.Literal := by
    simp only [placedSlots, List.forall_mem_cons, List.not_mem_nil, false_implies, implies_true, and_true]
    refine ⟨⟨by decide, by decide, fun n h => Text.ofNat_ne_nil n h.symm⟩,
      ⟨by decide, by decide, fun n h => ?comma⟩, ⟨by decide, by decide, fun n h => ?stop⟩⟩
    case comma => exact Text.notMem_ofNat (show ','.isDigit = false by decide) n (h ▸ by decide)
    case stop => exact Text.notMem_ofNat (show '.'.isDigit = false by decide) n (h ▸ by decide)
  have hprops : SimpleProps .drawing languageProps :=
    .inr ⟨" lang=\"en\"", ⟨by decide, by decide⟩, by decide⟩
  have hpre : Closed "<a:p>" := closed_append_bracket "<a:p"
  have hpost : '\x00' ∉ ("</a:p>" : Text) := by decide
  have hcomposes := injectAll_composes hpre (by decide) hprops (by decide) (c := "to ") (by decide) hps
    (by decide) hpost none fun _ => none
  exact ⟨hps, hprops, by decide, hcomposes.1⟩

end DeckMerge.Run
