import DeckMerge.Proofs.Run.Site

/-!
Plain runs: the opening tags bare, properties, and one text up to the run's end. A place in the text of
a plain run is located by this run, cut where it is written, exactly when its properties read as such.
-/

namespace DeckMerge.Run

variable {d : Dialect} {tag pre post props c c' x y : Text}

/-- An opening tag of nothing but its name. -/
def plainTag (tag : Text) : Text := '<' :: tag ++ ['>']

namespace Dialect

def runStart (d : Dialect) (props : Text) : Text := plainTag d.runTag ++ props ++ plainTag d.textTag

def runEnd (d : Dialect) : Text := closeTag d.textTag ++ closeTag d.runTag

def run (d : Dialect) (props content : Text) : Text := d.runStart props ++ content ++ d.runEnd

theorem lineBreak_nil : drawing.lineBreak [] = "<a:br/>" := rfl

theorem lineBreak_of_ne_nil (h : props ≠ []) :
    drawing.lineBreak props = "<a:br>" ++ props ++ "</a:br>" := if_neg h

theorem lineBreak_word (props : Text) : word.lineBreak props = "<w:r>" ++ props ++ "<w:br/></w:r>" := rfl

end Dialect

/-- What reads as the properties of a run, and as nothing else, where it stands in the run. -/
structure ReadsAsProps (d : Dialect) (props : Text) : Prop where
  no_run : (openTag d.runTag).find? props = none
  no_run_end : ¬ closeTag d.runTag <:+: props
  cut : ((Site.properties d.propsTag).find? props).getD (props, [], []) = ([], props, [])

/-! ### Tags that are not there -/

theorem find?_openTag_eq_none (h : ∀ u inner v, inner.getLast? ≠ some '/' →
    x ≠ u ++ '<' :: tag ++ inner ++ '>' :: v) : (openTag tag).find? x = none := by
  rw [Recogniser.find?_eq_none_iff (openTag_advances tag)]
  rintro t ⟨u, rfl⟩
  rw [← Option.not_isSome_iff_eq_none, Option.isSome_iff_exists]
  rintro ⟨⟨a, v⟩, hr⟩
  obtain ⟨inner, -, hlast, rfl, rfl⟩ := openTag_eq_some_iff.1 hr
  exact h u inner v hlast (by simp)

theorem find?_openTag_of_notMem (h : '<' ∉ x) : (openTag tag).find? x = none :=
  find?_openTag_eq_none fun u inner v _ heq => h (heq ▸ by simp)

theorem find?_openTag_cons (h : openTag tag ('<' :: x) = none) (hx : '<' ∉ x) :
    (openTag tag).find? ('<' :: x) = none := by
  simp [Recogniser.find?, h, find?_openTag_of_notMem hx]

theorem not_closeTag_isInfix_of_notMem (h : '<' ∉ x) : ¬ closeTag tag <:+: x :=
  fun hi => h (hi.subset (by simp [closeTag_eq]))

theorem closed_plainTag (tag : Text) : Closed (plainTag tag) := closed_append_bracket ('<' :: tag)

theorem closed_closeTag (tag : Text) : Closed (closeTag tag) :=
  closed_append_bracket ('<' :: '/' :: tag)

namespace Dialect

theorem find?_run_text (d : Dialect) (hc : '<' ∉ c) :
    (openTag d.runTag).find? (plainTag d.textTag ++ c) = none := by
  cases d <;> exact find?_openTag_cons rfl (by simp [textTag, hc])

theorem find?_run_textEnd (d : Dialect) (hc : '<' ∉ c) :
    (openTag d.runTag).find? (c ++ closeTag d.textTag) = none := by
  have hend : (openTag d.runTag).find? (closeTag d.textTag) = none := by cases d <;> rfl
  rw [Recogniser.find?_append_of_eq_none
    (openTag_staysIn (closed_of_notMem hc) d.notMem_runTag) (find?_openTag_of_notMem hc), hend]
  rfl

theorem not_runEnd_isInfix_text (d : Dialect) (hc : '<' ∉ c) :
    ¬ closeTag d.runTag <:+: plainTag d.textTag ++ c := by
  rw [closeTag_isInfix_append d.notMem_runTag (closed_plainTag _), not_or]
  exact ⟨by cases d <;> decide, not_closeTag_isInfix_of_notMem hc⟩

theorem not_runEnd_isInfix_textEnd (d : Dialect) (hc : '<' ∉ c) :
    ¬ closeTag d.runTag <:+: c ++ closeTag d.textTag := by
  rw [closeTag_isInfix_append d.notMem_runTag (closed_of_notMem hc), not_or]
  exact ⟨not_closeTag_isInfix_of_notMem hc, by cases d <;> decide⟩

end Dialect

/-! ### Tags that are there -/

theorem openTag_plainTag (tag y : Text) : openTag tag (plainTag tag ++ y) = some (plainTag tag, y) :=
  openTag_eq_some_iff.2 ⟨[], attributes_nil, by simp, by simp [plainTag], rfl⟩

theorem find?_plainTag (tag y : Text) :
    (openTag tag).find? (plainTag tag ++ y) = some ([], plainTag tag, y) :=
  Recogniser.find?_of_read (by simp [plainTag]) (openTag_plainTag tag y)

/-- Behind a closed text, a bare tag is the last one if none follows it. -/
theorem findLast?_plainTag (htag : '>' ∉ tag) (hx : Closed x) (hy : (openTag tag).find? y = none) :
    (openTag tag).findLast? (x ++ (plainTag tag ++ y)) = some (x, plainTag tag, y) := by
  have hlast : (openTag tag).findLast? (plainTag tag ++ y) = some ([], plainTag tag, y) := by
    rw [Recogniser.findLast?_of_find? (openTag_advances tag) (openTag_verbatim tag)
      (find?_plainTag tag y), Recogniser.findLast?_of_find?_eq_none hy]
  simpa using Recogniser.findLast?_append_of_eq_some (openTag_advances tag) (openTag_verbatim tag)
    (openTag_staysIn hx htag) hlast

namespace Dialect

theorem breakOn?_run_end (d : Dialect) (hc : '<' ∉ c) (post : Text) :
    Text.breakOn? (closeTag d.runTag) (c ++ (d.runEnd ++ post)) =
      some (c ++ closeTag d.textTag, post) := by
  have hclosed := (closed_of_notMem hc).append (closed_closeTag d.textTag)
  have hsplit : c ++ (d.runEnd ++ post) =
      (c ++ closeTag d.textTag) ++ (closeTag d.runTag ++ post) := by simp [runEnd]
  rw [hsplit, breakOn?_closeTag_append d.notMem_runTag hclosed (d.not_runEnd_isInfix_textEnd hc),
    Text.breakOn?_of_isPrefix (closeTag_ne_nil _)]
  simp

theorem breakOn?_text_end (d : Dialect) (hc : '<' ∉ c) :
    Text.breakOn? (closeTag d.textTag) (c ++ closeTag d.textTag) = some (c, []) := by
  have hfound := Text.breakOn?_of_isPrefix (closeTag_ne_nil d.textTag) []
  rw [List.append_nil] at hfound
  rw [breakOn?_closeTag_append d.notMem_textTag (closed_of_notMem hc)
    (not_closeTag_isInfix_of_notMem hc), hfound]
  simp

/-! ### A place in a plain run -/

theorem findLast?_run_plain (d : Dialect) (hpre : Closed pre) (hprops : Closed props)
    (hread : (openTag d.runTag).find? props = none) (hc : '<' ∉ c) :
    (openTag d.runTag).findLast? (pre ++ (d.runStart props ++ c)) =
      some (pre, plainTag d.runTag, props ++ (plainTag d.textTag ++ c)) := by
  have hnone : (openTag d.runTag).find? (props ++ (plainTag d.textTag ++ c)) = none := by
    rw [Recogniser.find?_append_of_eq_none (openTag_staysIn hprops d.notMem_runTag) hread,
      d.find?_run_text hc]
    rfl
  have hstart : d.runStart props ++ c = plainTag d.runTag ++ (props ++ (plainTag d.textTag ++ c)) := by
    simp [runStart]
  rw [hstart, findLast?_plainTag d.notMem_runTag hpre hnone]

end Dialect

namespace Site

/-- A place in the text of a plain run is located by this run if its properties read as such. -/
theorem locate_plain (hpre : Closed pre) (hprops : Closed props) (hread : ReadsAsProps d props)
    (hc : '<' ∉ c) (hc' : '<' ∉ c') (post : Text) :
    locate d (pre ++ (d.runStart props ++ c)) (c' ++ (d.runEnd ++ post)) =
      .ok ⟨d, pre, plainTag d.runTag, [], props, [], plainTag d.textTag, c, c', [], post⟩ := by
  have hnoend : ¬ closeTag d.runTag <:+: props ++ (plainTag d.textTag ++ c) := by
    rw [closeTag_isInfix_append d.notMem_runTag hprops, not_or]
    exact ⟨hread.no_run_end, d.not_runEnd_isInfix_text hc⟩
  exact locate_eq_ok_iff.2 ⟨_, _, props, d.findLast?_run_plain hpre hprops hread.no_run hc, hnoend,
    d.breakOn?_run_end hc' post, d.find?_run_textEnd hc',
    findLast?_plainTag d.notMem_textTag hprops (find?_openTag_of_notMem hc),
    not_closeTag_isInfix_of_notMem hc, d.breakOn?_text_end hc', hread.cut, rfl⟩

end Site

end DeckMerge.Run
