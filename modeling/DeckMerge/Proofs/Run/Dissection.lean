import DeckMerge.Proofs.Run.Plain
import DeckMerge.Proofs.Text.Forms

/-!
Which run is found around a place. One is found exactly if a run, and a text in it, begin before the place
and end behind it; then the text is cut at the innermost of them, with nothing lost or doubled.
-/

namespace DeckMerge

/-! ### Stretches of a text -/

namespace Text

variable {x needle : Text} {c : Char}

/-- What stands from one offset to another. -/
def between (s : Text) (i j : Nat) : Text := (s.take j).drop i

theorem between_append (x y z : Text) :
    between (x ++ y ++ z) x.length (x.length + y.length) = y := by
  rw [between, ← List.length_append, List.take_left, List.drop_left]

/-- A text is the stretches before, within and behind two offsets. -/
theorem take_append_between {i j : Nat} (h : i ≤ j) (s : Text) :
    s.take i ++ s.between i j ++ s.drop j = s := by
  have hfront : s.take i = (s.take j).take i := by rw [List.take_take, Nat.min_eq_left h]
  rw [between, hfront, List.take_append_drop, List.take_append_drop]

/-- A needle that begins with a character of its own is found behind a text that does not hold it. -/
theorem breakOn?_append_needle (hc : c ∉ needle) (hx : ¬ c :: needle <:+: x) (y : Text) :
    breakOn? (c :: needle) (x ++ c :: needle ++ y) = some (x, y) := by
  rw [breakOn?_eq_some_iff (List.cons_ne_nil c needle)]
  refine ⟨rfl, fun b r heq => ?_⟩
  by_contra hlt
  rw [List.append_assoc, List.append_assoc] at heq
  rcases append_cases heq with ⟨w, rfl, -⟩ | ⟨w, hw, rfl, hr⟩
  · exact hlt (by simp)
  · -- the occurrence would begin in `x`: it ends there, or its rest begins like the needle
    rcases append_cases hr with ⟨v, rfl, -⟩ | ⟨v, hv, hneedle, hrest⟩
    · exact hx ⟨b, v, by simp⟩
    · obtain ⟨c', w, rfl⟩ := List.exists_cons_of_ne_nil hw
      obtain ⟨c'', v, rfl⟩ := List.exists_cons_of_ne_nil hv
      obtain ⟨rfl, rfl⟩ := List.cons.inj hneedle
      obtain ⟨rfl, -⟩ := List.cons.inj hrest
      exact hc (by simp)

end Text

namespace Run

variable {d : Dialect} {tag a s x y : Text}

/-! ### Opening tags -/

/-- An opening tag, which does not close itself. -/
def IsOpening (tag a : Text) : Prop :=
  ∃ inner, Attributes inner ∧ inner.getLast? ≠ some '/' ∧ a = '<' :: tag ++ inner ++ ['>']

/-- No tag of this name opens or closes in the text. -/
structure Tagless (tag x : Text) : Prop where
  no_opening : ∀ a, IsOpening tag a → ¬ a <:+: x
  no_closing : ¬ closeTag tag <:+: x

theorem openTag_eq_some_iff_isOpening {rest : Text} :
    openTag tag s = some (a, rest) ↔ IsOpening tag a ∧ s = a ++ rest := by
  rw [openTag_eq_some_iff]
  constructor
  · rintro ⟨inner, hinner, hlast, ha, hs⟩
    exact ⟨⟨inner, hinner, hlast, ha⟩, hs⟩
  · rintro ⟨⟨inner, hinner, hlast, ha⟩, hs⟩
    exact ⟨inner, hinner, hlast, ha, hs⟩

theorem IsOpening.ne_nil (h : IsOpening tag a) : a ≠ [] := by
  obtain ⟨inner, -, -, rfl⟩ := h
  simp

/-- An opening tag ends at its first bracket. -/
theorem IsOpening.exists_front (h : IsOpening tag a) (htag : '>' ∉ tag) :
    ∃ front, '>' ∉ front ∧ a = front ++ ['>'] := by
  obtain ⟨inner, hinner, -, rfl⟩ := h
  have := hinner.notMem
  exact ⟨'<' :: tag ++ inner, by simp_all, rfl⟩

theorem find?_openTag_eq_none_iff :
    (openTag tag).find? x = none ↔ ∀ a, IsOpening tag a → ¬ a <:+: x := by
  rw [Recogniser.find?_eq_none_iff (openTag_advances tag)]
  constructor
  · rintro h a ha ⟨u, v, rfl⟩
    have hread : openTag tag (a ++ v) = some (a, v) := openTag_eq_some_iff_isOpening.2 ⟨ha, rfl⟩
    rw [h (a ++ v) ⟨u, by simp⟩] at hread
    cases hread
  · rintro h t ⟨u, rfl⟩
    rw [Option.eq_none_iff_forall_ne_some]
    rintro ⟨a, rest⟩ hread
    obtain ⟨ha, rfl⟩ := openTag_eq_some_iff_isOpening.1 hread
    exact h a ha ⟨u, rest, by simp⟩

/-- Behind an opening tag that no other one follows, the search for the last one ends: it finds this tag,
or one that begins earlier and, its own bracket missing, ends with it. -/
theorem exists_findLast?_openTag (htag : '>' ∉ tag) (ha : IsOpening tag a)
    (hy : (openTag tag).find? y = none) (x : Text) :
    ∃ before a', (openTag tag).findLast? (x ++ (a ++ y)) = some (before, a', y) := by
  have hr := openTag_advances tag
  have hv := openTag_verbatim tag
  induction hn : x.length using Nat.strongRecOn generalizing x with
  | ind n ih =>
    have hread : openTag tag (a ++ y) = some (a, y) := openTag_eq_some_iff_isOpening.2 ⟨ha, rfl⟩
    obtain ⟨b, a', rest, hfind, w, rfl⟩ :=
      Recogniser.exists_find?_of_read (by simp [ha.ne_nil]) hread x
    obtain ⟨t, ht⟩ := Recogniser.exists_read_of_find? hfind
    obtain ⟨ha', -⟩ := openTag_eq_some_iff_isOpening.1 ht
    have heq : a' ++ rest = w ++ (a ++ y) := by
      have := hv.find? hfind
      simpa using this.symm
    rw [Recogniser.findLast?_of_find? hr hv hfind]
    rcases Text.append_cases heq with ⟨v, rfl, rfl⟩ | ⟨v, hv', rfl, hrest⟩
    · have hpos := List.length_pos_iff.2 ha'.ne_nil
      obtain ⟨before, a'', hlast⟩ := ih v.length (by simp only [← hn, List.length_append]; omega) v rfl
      rw [hlast]
      exact ⟨_, a'', rfl⟩
    · -- both tags reach over the same text without a bracket, so they end at the same one
      obtain ⟨front, hfront, rfl⟩ := ha.exists_front htag
      obtain ⟨front', hfront', heq'⟩ := ha'.exists_front htag
      obtain ⟨v, c, rfl⟩ : ∃ v' c, v = v' ++ [c] := by
        rcases List.eq_nil_or_concat v with rfl | ⟨v', c, rfl⟩
        · exact absurd rfl hv'
        · exact ⟨v', c, by simp⟩
      rw [← List.append_assoc] at heq'
      obtain ⟨rfl, hc⟩ := List.append_inj' heq' rfl
      obtain rfl : c = '>' := by simpa using hc
      rw [List.mem_append, not_or] at hfront'
      obtain ⟨-, rfl⟩ := bracket_inj hfront hfront'.2 (s := y) (t := rest) (by simpa using hrest)
      rw [Recogniser.findLast?_of_find?_eq_none hy]
      exact ⟨_, _, rfl⟩

theorem breakOn?_append_closeTag (htag : '<' ∉ tag) (hx : ¬ closeTag tag <:+: x) (y : Text) :
    Text.breakOn? (closeTag tag) (x ++ closeTag tag ++ y) = some (x, y) := by
  rw [closeTag_eq] at hx ⊢
  exact Text.breakOn?_append_needle (by simp [htag]) hx y

namespace Dialect

theorem lt_notMem_runTag (d : Dialect) : '<' ∉ d.runTag := by cases d <;> decide

end Dialect

/-! ### Dissections -/

namespace Site

variable {before after body inside head h₁ h₂ : Text} {i j : Nat} {r : Site}

/-- A text is cut at a run of the dialect around the place from `i` to `j`: the pieces of a site are
the text of the run in their order, where what stands before its text element beside its properties is cut
in two at them. Between the tags of the run and the place no other run begins or ends, and between that of
the text element and the place no other text. -/
structure Dissects (d : Dialect) (s : Text) (i j : Nat) (r : Site) (h₁ h₂ : Text) : Prop where
  dialect_eq : r.dialect = d
  head_eq : r.head = h₁ ++ h₂
  run_open : IsOpening d.runTag r.runOpen
  text_open : IsOpening d.textTag r.textOpen
  run_eq : s.between r.start (r.stop (j - i)) = r.runOpen ++ h₁ ++ r.props ++ h₂ ++ r.textOpen
    ++ r.textBefore ++ s.between i j ++ r.textAfter ++ closeTag d.textTag ++ r.tail
    ++ closeTag d.runTag
  before_eq : s.take i =
    s.take r.start ++ (r.runOpen ++ h₁ ++ r.props ++ h₂ ++ r.textOpen ++ r.textBefore)
  after_eq : s.drop j = r.textAfter ++ closeTag d.textTag ++ r.tail ++ closeTag d.runTag
    ++ s.drop (r.stop (j - i))
  run_before : Tagless d.runTag (h₁ ++ r.props ++ h₂ ++ r.textOpen ++ r.textBefore)
  run_after : Tagless d.runTag (r.textAfter ++ closeTag d.textTag ++ r.tail)
  text_before : Tagless d.textTag r.textBefore

theorem Located.run_before (h : Located d before after r body inside head) :
    Tagless d.runTag (r.headBefore ++ r.props ++ r.headAfter ++ r.textOpen ++ r.textBefore) := by
  obtain ⟨-, hnone⟩ := Recogniser.exists_read_of_findLast? (openTag_advances _) (openTag_verbatim _) h.run
  rw [← h.head_eq, ← h.body_eq]
  exact ⟨find?_openTag_eq_none_iff.1 hnone, h.run_open⟩

theorem Located.run_after (h : Located d before after r body inside head) :
    Tagless d.runTag (r.textAfter ++ closeTag d.textTag ++ r.tail) := by
  rw [← Text.eq_append_of_breakOn? (closeTag_ne_nil _) h.text_end]
  exact ⟨find?_openTag_eq_none_iff.1 h.no_run,
    (Text.first_of_breakOn? (closeTag_ne_nil _) h.run_end).not_isInfix_before (closeTag_ne_nil _)⟩

theorem Located.text_before (h : Located d before after r body inside head) :
    Tagless d.textTag r.textBefore := by
  obtain ⟨-, hnone⟩ := Recogniser.exists_read_of_findLast? (openTag_advances _) (openTag_verbatim _) h.text
  exact ⟨find?_openTag_eq_none_iff.1 hnone, h.text_open⟩

theorem isOpening_of_findLast? {tag rest : Text}
    (h : (openTag tag).findLast? s = some (before, a, rest)) : IsOpening tag a := by
  obtain ⟨⟨t, ht⟩, -⟩ := Recogniser.exists_read_of_findLast? (openTag_advances _) (openTag_verbatim _) h
  exact (openTag_eq_some_iff_isOpening.1 ht).1

/-- The text of the run that a site was cut from, with what stands at the place. -/
def markup (r : Site) (token : Text) : Text :=
  r.runOpen ++ r.headBefore ++ r.props ++ r.headAfter ++ r.textOpen ++ r.textBefore ++ token ++ r.rest

theorem stop_eq (r : Site) (token : Text) : r.stop token.length = r.start + (r.markup token).length := by
  simp only [stop, start, markup, List.length_append]
  omega

theorem Located.dissects (hle : i ≤ j) (hs : j ≤ s.length)
    (h : Located d (s.take i) (s.drop j) r body inside head) :
    Dissects d s i j r r.headBefore r.headAfter := by
  obtain ⟨token, htoken⟩ : ∃ token, s.between i j = token := ⟨_, rfl⟩
  have hlength : token.length = j - i := by
    simp only [← htoken, Text.between, List.length_drop, List.length_take]
    omega
  have hcut : s = r.preceding ++ r.markup token ++ r.following := by
    rw [← Text.take_append_between hle s, h.before_eq, h.after_eq, htoken]
    simp [markup]
  have hstop : r.stop (j - i) = r.preceding.length + (r.markup token).length := by
    rw [← hlength, stop_eq, start]
  have htake : s.take r.start = r.preceding := by
    rw [start, hcut, List.append_assoc, List.take_left]
  have hdrop : s.drop (r.stop (j - i)) = r.following := by
    rw [hstop, hcut, ← List.length_append, List.drop_left]
  have hrun : s.between r.start (r.stop (j - i)) = r.markup token := by
    rw [hstop, hcut]
    exact Text.between_append _ _ _
  obtain rfl := h.dialect
  refine ⟨rfl, rfl, isOpening_of_findLast? h.run, isOpening_of_findLast? h.text, ?_, ?_, ?_, h.run_before,
    h.run_after, h.text_before⟩
  · rw [hrun, htoken]
    simp [markup, rest]
  · rw [htake, h.before_eq]
    simp
  · rw [hdrop, h.after_eq]
    simp [rest]

/-- Where a run can be dissected, one is found. Its opening tags need not be the given ones, which may end
a tag that begins before them. -/
theorem Dissects.exists_located (h : Dissects d s i j r h₁ h₂) :
    ∃ r body inside head, Located d (s.take i) (s.drop j) r body inside head := by
  obtain ⟨preceding, runOpen, hrun⟩ := exists_findLast?_openTag d.notMem_runTag h.run_open
    (find?_openTag_eq_none_iff.2 h.run_before.no_opening) (s.take r.start)
  obtain ⟨head, textOpen, htext⟩ := exists_findLast?_openTag d.notMem_textTag h.text_open
    (find?_openTag_eq_none_iff.2 h.text_before.no_opening) (h₁ ++ r.props ++ h₂)
  have hend := breakOn?_append_closeTag d.lt_notMem_runTag h.run_after.no_closing
    (s.drop (r.stop (j - i)))
  obtain ⟨textAfter, tail, htextEnd⟩ : ∃ textAfter tail, Text.breakOn? (closeTag d.textTag)
      (r.textAfter ++ closeTag d.textTag ++ r.tail) = some (textAfter, tail) := by
    cases hbreak : Text.breakOn? (closeTag d.textTag) (r.textAfter ++ closeTag d.textTag ++ r.tail) with
    | some p => exact ⟨p.1, p.2, rfl⟩
    | none => exact absurd ⟨r.textAfter, r.tail, rfl⟩ ((Text.breakOn?_eq_none_iff (closeTag_ne_nil _)).1 hbreak)
  obtain ⟨⟨headBefore, props, headAfter⟩, hprops⟩ :
      ∃ p, ((properties d.propsTag).find? head).getD (head, [], []) = p := ⟨_, rfl⟩
  have hbefore : s.take i = s.take r.start ++
      (r.runOpen ++ (h₁ ++ r.props ++ h₂ ++ r.textOpen ++ r.textBefore)) := by simp [h.before_eq]
  have hbody : h₁ ++ r.props ++ h₂ ++ (r.textOpen ++ r.textBefore) =
      h₁ ++ r.props ++ h₂ ++ r.textOpen ++ r.textBefore := by simp
  rw [← hbefore] at hrun
  rw [← h.after_eq] at hend
  rw [hbody] at htext
  exact ⟨⟨d, preceding, runOpen, headBefore, props, headAfter, textOpen, r.textBefore, textAfter, tail, _⟩,
    _, _, head, hrun, h.run_before.no_closing, hend,
    find?_openTag_eq_none_iff.2 h.run_after.no_opening, htext, h.text_before.no_closing, htextEnd, hprops,
    rfl⟩

theorem Dissects.lineRuns_eq (h : Dissects d s i j r [] h₂) (v : Text) :
    s.take r.start ++ r.lineRuns [v] ++ s.drop (r.stop (j - i)) =
      s.take i ++ Markup.escape v ++ s.drop j := by
  obtain rfl := h.dialect_eq
  rw [h.before_eq, h.after_eq]
  simp [lineRuns, fill, rest, Text.joinWith, h.head_eq]

/-- A run is located exactly if the text can be dissected at one around the place, and the site is then
such a dissection; where the properties come first in it, one line in the place of the run is the line in
the place itself. -/
theorem locate_dissects (d : Dialect) (hle : i ≤ j) (hs : j ≤ s.length) :
    match locate d (s.take i) (s.drop j) with
    | .ok r => (∃ h₁ h₂, Dissects d s i j r h₁ h₂) ∧
      ∀ h₂, Dissects d s i j r [] h₂ → ∀ v, s.take r.start ++ r.lineRuns [v] ++ s.drop (r.stop (j - i)) =
        s.take i ++ Markup.escape v ++ s.drop j
    | .error _ => ∀ r h₁ h₂, ¬ Dissects d s i j r h₁ h₂ := by
  cases hlocate : locate d (s.take i) (s.drop j) with
  | ok r =>
    obtain ⟨body, inside, head, hlocated⟩ := locate_eq_ok_iff.1 hlocate
    exact ⟨⟨_, _, hlocated.dissects hle hs⟩, fun _ h v => h.lineRuns_eq v⟩
  | error o =>
    intro r h₁ h₂ h
    have hok := locate_eq_ok_iff.2 h.exists_located.choose_spec
    rw [hlocate] at hok
    cases hok

/-- A letter with two runs, of which the second one has properties. -/
def letter : Text :=
  "<a:p><a:r><a:t>Dear</a:t></a:r><a:r x=\"1\"><a:rPr b=\"1\"/><a:t>Ms \x7b\x7bNAME_1\x7d\x7d!</a:t></a:r></a:p>"

def letterSite : Site where
  dialect := .drawing
  preceding := "<a:p><a:r><a:t>Dear</a:t></a:r>"
  runOpen := "<a:r x=\"1\">"
  headBefore := []
  props := "<a:rPr b=\"1\"/>"
  headAfter := []
  textOpen := "<a:t>"
  textBefore := "Ms "
  textAfter := "!"
  tail := []
  following := "</a:p>"

/-- The placeholder is in the second run, whose properties come first in it. -/
theorem locate_dissects_letter : 64 ≤ 74 ∧ 74 ≤ letter.length ∧
    locate .drawing (letter.take 64) (letter.drop 74) = .ok letterSite ∧
    Dissects .drawing letter 64 74 letterSite [] [] ∧
    letter.take letterSite.start ++ letterSite.lineRuns ["Ada"] ++ letter.drop (letterSite.stop 10) =
      letter.take 64 ++ "Ada" ++ letter.drop 74 := by
  have hle : 74 ≤ letter.length := by decide
  have hlocate : locate .drawing (letter.take 64) (letter.drop 74) = .ok letterSite := by decide +kernel
  have h := locate_dissects .drawing (s := letter) (i := 64) (by decide) hle
  rw [hlocate] at h
  obtain ⟨⟨h₁, h₂, hdissects⟩, hlines⟩ := h
  obtain ⟨rfl, rfl⟩ : h₁ = [] ∧ h₂ = [] := List.append_eq_nil_iff.1 hdissects.head_eq.symm
  exact ⟨by decide, hle, hlocate, hdissects, hlines [] hdissects "Ada"⟩

end Site

end Run

end DeckMerge
