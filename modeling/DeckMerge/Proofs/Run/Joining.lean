import DeckMerge.Proofs.Run.Groups
import DeckMerge.Proofs.Run.Reading
import DeckMerge.Proofs.Text.Forms

/-!
Joining the runs of a text. What is written reads as the joined runs and nothing else, so the tokens that
were split are whole and joining again changes nothing.
-/

namespace DeckMerge.Run

open TextRun (read? Spelled)

variable {d d' : Dialect} {linked : Nat → Prop} {index : Nat} {rs rs' : Runs} {s s' tail gap rest rest' w x y : Text}
  {q r : TextRun} {c : Char}

/-- The text of runs, of what stands before each and of what follows the last. -/
def written (rs : Runs) (tail : Text) : Text := rs.flatMap (fun p => p.1 ++ p.2.markup) ++ tail

theorem written_cons (gap : Text) (r : TextRun) (rs : Runs) (tail : Text) :
    written ((gap, r) :: rs) tail = gap ++ (r.markup ++ written rs tail) := by
  simp [written]

/-! ### What is read in the joined text -/

theorem eq_written_of_cuts (h : (read? d).Cuts s rs tail) : s = written rs tail := by
  induction h with
  | tail => rfl
  | form _ hread _ ih =>
    obtain ⟨-, rfl⟩ := TextRun.read?_spelled hread
    rw [written_cons, ← ih]

theorem spelled_of_cuts (h : (read? d).Cuts s rs tail) : ∀ r ∈ rs, r.2.Spelled d := by
  induction h with
  | tail => simp
  | form _ hread _ ih => exact List.forall_mem_cons.2 ⟨(TextRun.read?_spelled hread).1, ih⟩

theorem cuts_of_append {followers : Runs} (h : (read? d).Cuts s (followers ++ rs) tail) :
    ∃ s', s' <:+ s ∧ (read? d).Cuts s' rs tail := by
  induction followers generalizing s with
  | nil => exact ⟨s, List.suffix_refl s, h⟩
  | cons f followers ih =>
    cases h with
    | form _ hread hrest =>
      obtain ⟨-, rfl⟩ := TextRun.read?_spelled hread
      obtain ⟨s', hs', h'⟩ := ih hrest
      exact ⟨s', hs'.trans ((List.suffix_append _ _).trans (List.suffix_append _ _)), h'⟩

/-- Whether a run begins before another does not depend on the text in the other. -/
theorem bare_of_head_eq (hq : q.Spelled d) (hr : r.Spelled d) (hhead : q.head = r.head)
    (h : (read? d).Bare gap (q.markup ++ rest)) : (read? d).Bare gap (r.markup ++ rest') := by
  intro v hv hsuffix
  rw [Option.eq_none_iff_forall_ne_some]
  rintro ⟨p, rest₁⟩ hread
  obtain ⟨hp, heq⟩ := TextRun.read?_spelled hread
  have hnone := h v hv hsuffix
  rcases hp.seam hr (show _ = v ++ r.markup ++ rest' by simpa using heq.symm) with ⟨x, hx⟩ | ⟨hphead, -, -, -⟩
  · -- the run ends before the text of the other one
    have heq' : v ++ (q.markup ++ rest) = p.markup ++ (x ++ q.text ++ q.tail ++ rest) := by
      have hfront : v ++ q.head = p.markup ++ x := by rw [hhead, hx]
      rw [TextRun.markup, ← List.append_assoc v, ← List.append_assoc v, ← List.append_assoc v, hfront]
      simp
    rw [heq', hp.read?_markup] at hnone
    simp at hnone
  · -- the run is the other one with more before it
    have hp' : Spelled d ⟨p.head, q.text, q.tail⟩ := ⟨hp.head, hq.text, hq.tail⟩
    have heq' : v ++ (q.markup ++ rest) = TextRun.markup ⟨p.head, q.text, q.tail⟩ ++ rest := by
      simp [TextRun.markup, hphead, hhead]
    rw [heq', hp'.read?_markup] at hnone
    simp at hnone

theorem TextRun.Spelled.absorb {followers : Runs} (hr : r.Spelled d) (hf : ∀ f ∈ followers, f.2.Spelled d) :
    (r.absorb followers).Spelled d := by
  refine ⟨hr.head, ?_, hr.tail⟩
  have htext := hr.text
  have htexts : ∀ f ∈ followers, '<' ∉ f.2.text := fun f hmem => (hf f hmem).text
  simp only [TextRun.absorb, textOf, List.mem_append, List.mem_flatMap]
  rintro (h | ⟨f, hmem, h⟩)
  · exact htext h
  · exact htexts f hmem h

/-- The joined text is cut at the joined runs. -/
theorem Joins.cuts (h : Joins linked index rs rs') (hs : (read? d).Cuts s rs tail) :
    (read? d).Cuts (written rs' tail) rs' tail := by
  induction h generalizing s with
  | nil =>
    cases hs with
    | tail hbare => exact .tail hbare
  | @block index gap run followers rest rest' _ _ _ _ ih =>
    have hspelled := spelled_of_cuts hs
    cases hs with
    | form hbare hread hfollowers =>
      obtain ⟨hrun, rfl⟩ := TextRun.read?_spelled hread
      obtain ⟨s', -, hs'⟩ := cuts_of_append hfollowers
      have habsorb : (run.absorb followers).Spelled d :=
        hrun.absorb fun f hf => hspelled f (by simp [hf])
      rw [written_cons]
      exact .form (bare_of_head_eq hrun habsorb rfl hbare) (habsorb.read?_markup _) (ih hs')

/-! ### The other vocabulary -/

/-- No run begins in a text without tags and the closing tag behind it. -/
theorem not_infix_closing (hx : '<' ∉ x) (hy : '<' ∉ y) : ¬ '<' :: d.runTag <:+: x ++ '<' :: '/' :: y := by
  intro h
  rw [List.infix_append_iff_ne_nil] at h
  rcases h with h | h | ⟨l, r, hl, -, heq, hsuffix, -⟩
  · exact hx (h.subset (by simp))
  · rcases List.infix_cons_iff.1 h with h | h
    · cases d <;> simp [Dialect.runTag] at h
    · have := h.subset (List.mem_cons_self ..)
      simp_all
  · obtain ⟨c, l, rfl⟩ := List.exists_cons_of_ne_nil hl
    obtain ⟨rfl, -⟩ := List.cons.inj heq
    exact hx (hsuffix.subset (by simp))

/-- A run that begins in the text of these begins before the text of the first or behind it. -/
theorem infix_run (hr : r.Spelled d) (h : '<' :: d'.runTag <:+: gap ++ (r.markup ++ rest)) :
    '<' :: d'.runTag <:+: gap ++ r.head ∨ '<' :: d'.runTag <:+: rest := by
  have htag : '>' ∉ '<' :: d'.runTag := by simp [d'.notMem_runTag]
  obtain ⟨v, textTag, htext, hhead⟩ := hr.head.eq_append
  obtain ⟨p, -, rfl⟩ := htext.bracketed d.notMem_textTag
  obtain ⟨b, hb, htail⟩ := hr.tail
  have hblank : '<' ∉ b := hb.notMem (by decide)
  have hs : gap ++ (r.markup ++ rest) = (gap ++ v ++ p) ++ '>' :: ((r.text ++ '<' :: '/' :: d.textTag) ++
      '>' :: ((b ++ '<' :: '/' :: d.runTag) ++ '>' :: rest)) := by
    simp [TextRun.markup, hhead, htail, TextRun.ending_eq]
  rw [hs] at h
  rcases Text.infix_append_cons htag h with h | h
  · exact .inl (h.trans ⟨[], ['>'], by simp [hhead]⟩)
  rcases Text.infix_append_cons htag h with h | h
  · exact absurd h (not_infix_closing hr.text (by cases d <;> decide))
  rcases Text.infix_append_cons htag h with h | h
  · exact absurd h (not_infix_closing hblank (by cases d <;> decide))
  · exact .inr h

theorem Joins.holds_tag (h : Joins linked index rs rs') (hs : (read? d).Cuts s rs tail)
    (htag : '<' :: d'.runTag <:+: written rs' tail) : '<' :: d'.runTag <:+: s := by
  induction h generalizing s with
  | nil => rwa [eq_written_of_cuts hs]
  | @block index gap run followers rest rest' _ _ _ _ ih =>
    have hspelled := spelled_of_cuts hs
    cases hs with
    | @form _ _ rest₁ _ _ _ _ hread hfollowers =>
      obtain ⟨hrun, rfl⟩ := TextRun.read?_spelled hread
      obtain ⟨s', hsuffix, hs'⟩ := cuts_of_append hfollowers
      have habsorb : (run.absorb followers).Spelled d :=
        hrun.absorb fun f hf => hspelled f (by simp [hf])
      rw [written_cons] at htag
      rcases infix_run habsorb htag with h | h
      · exact h.trans ⟨[], run.text ++ run.tail ++ rest₁, by simp [TextRun.markup, TextRun.absorb]⟩
      · exact (ih hs' h).trans (hsuffix.trans ((List.suffix_append _ _).trans (List.suffix_append _ _))).isInfix

/-- Only the runs of this vocabulary begin in the text. -/
def Speaks (d : Dialect) (s : Text) : Prop := ∀ d' ≠ d, ¬ '<' :: d'.runTag <:+: s

theorem TextRun.Spelled.isPrefix (h : r.Spelled d) : '<' :: d.runTag <+: r.markup := by
  obtain ⟨runTag, blanks, props, blanks', textTag, hrun, -, -, -, -, hhead⟩ := h.head
  obtain ⟨t, rfl⟩ := hrun.cons
  exact ⟨t ++ blanks ++ props ++ blanks' ++ textTag ++ r.text ++ r.tail, by simp [TextRun.markup, hhead]⟩

theorem findAll_of_not_infix (h : ¬ '<' :: d'.runTag <:+: s) : (read? d').findAll s = ([], s) := by
  refine Recogniser.Cuts.findAll_eq (TextRun.read?_advances d') (.tail fun v _ hsuffix => ?_)
  rw [Option.eq_none_iff_forall_ne_some]
  rintro ⟨r, rest⟩ hread
  obtain ⟨hr, heq⟩ := TextRun.read?_spelled hread
  rw [List.append_nil] at heq
  refine h ((hr.isPrefix.trans ?_).isInfix.trans hsuffix.isInfix)
  exact heq ▸ List.prefix_append _ _

theorem joinDialect_eq (d : Dialect) (s : Text) : joinDialect d s =
    (written (joined (groups ((read? d).findAll s).1)) ((read? d).findAll s).2,
      removed (groups ((read? d).findAll s).1)) := rfl

theorem joinDialect_of_not_infix (h : ¬ '<' :: d'.runTag <:+: s) : joinDialect d' s = (s, 0) := by
  rw [joinDialect_eq, findAll_of_not_infix h]
  simp [groups, joined, removed, written]

/-! ### Joining -/

theorem joins_joinDialect (d : Dialect) (s : Text) : ∃ rs rs' tail, (read? d).Cuts s rs tail ∧
    (read? d).Cuts (joinDialect d s).1 rs' tail ∧ Joins (Linked rs) 0 rs rs' ∧
    rs'.length + (joinDialect d s).2 = rs.length := by
  have hcuts := Recogniser.cuts_findAll (TextRun.read?_advances d) s
  obtain ⟨hjoins, hcount⟩ := joins_groups ((read? d).findAll s).1
  exact ⟨_, _, _, hcuts, hjoins.cuts hcuts, hjoins, hcount⟩

theorem Speaks.joinDialect (h : Speaks d s) : Speaks d (joinDialect d s).1 := by
  intro d' hd' htag
  obtain ⟨rs, rs', tail, hs, hs', hjoins, -⟩ := joins_joinDialect d s
  rw [eq_written_of_cuts hs'] at htag
  exact h d' hd' (hjoins.holds_tag hs htag)

theorem joinRuns_eq (h : Speaks d s) : joinRuns s = joinDialect d s := by
  cases d with
  | drawing =>
    have h' := joinDialect_of_not_infix (h.joinDialect .word (by simp))
    simp [joinRuns, Dialect.all, h']
  | word =>
    have h' := joinDialect_of_not_infix (h .drawing (by simp))
    simp [joinRuns, Dialect.all, h']

def runsOf (d : Dialect) (s : Text) : Runs := ((read? d).findAll s).1

/-- What follows the last run. -/
def behindRuns (d : Dialect) (s : Text) : Text := ((read? d).findAll s).2

/-- What joining the split runs of a text keeps and what it reaches, with this many runs less. -/
structure Joined (d : Dialect) (s s' : Text) (n : Nat) : Prop where
  before : s = written (runsOf d s) (behindRuns d s)
  after : s' = written (runsOf d s') (behindRuns d s)
  /-- The first run of a block keeps what stands before it, its tags and its properties. -/
  blocks : Joins (Linked (runsOf d s)) 0 (runsOf d s) (runsOf d s')
  text : textOf (runsOf d s') = textOf (runsOf d s)
  count : (runsOf d s').length + n = (runsOf d s).length
  whole : ∀ k, ¬ Linked (runsOf d s') k

theorem joined_joinDialect (d : Dialect) (s : Text) : Joined d s (joinDialect d s).1 (joinDialect d s).2 := by
  obtain ⟨rs, rs', tail, hs, hs', hjoins, hcount⟩ := joins_joinDialect d s
  have hrs := hs.findAll_eq (TextRun.read?_advances d)
  have hrs' := hs'.findAll_eq (TextRun.read?_advances d)
  constructor
  case before => simpa [runsOf, behindRuns, hrs] using eq_written_of_cuts hs
  case after => simpa only [runsOf, behindRuns, hrs, hrs'] using eq_written_of_cuts hs'
  case blocks => simpa only [runsOf, hrs, hrs'] using hjoins
  case text => simpa only [runsOf, hrs, hrs'] using hjoins.textOf_eq
  case count => simpa only [runsOf, hrs, hrs'] using hcount
  case whole => simpa only [runsOf, hrs'] using hjoins.not_linked

theorem joinDialect_again (d : Dialect) (s : Text) :
    joinDialect d (joinDialect d s).1 = ((joinDialect d s).1, 0) := by
  obtain ⟨rs, rs', tail, -, hs', hjoins, -⟩ := joins_joinDialect d s
  obtain ⟨hjoined, hremoved⟩ := joined_groups_of_not_linked hjoins.not_linked
  conv_lhs => rw [joinDialect_eq, hs'.findAll_eq (TextRun.read?_advances d)]
  rw [hjoined, hremoved, ← eq_written_of_cuts hs']

/-- Joining the split runs of a text that speaks one vocabulary keeps everything but the cuts that parted a
token, leaves no other such cut, and has nothing to do a second time. -/
theorem joinRuns_joined (h : Speaks d s) : Joined d s (joinRuns s).1 (joinRuns s).2 ∧
    (∀ d' ≠ d, runsOf d' s = [] ∧ runsOf d' (joinRuns s).1 = []) ∧
    joinRuns (joinRuns s).1 = ((joinRuns s).1, 0) := by
  have hnext : Speaks d (joinRuns s).1 := by
    rw [joinRuns_eq h]
    exact h.joinDialect
  refine ⟨?_, fun d' hd' => ⟨?_, ?_⟩, ?_⟩
  · rw [joinRuns_eq h]
    exact joined_joinDialect d s
  · rw [runsOf, findAll_of_not_infix (h d' hd')]
  · rw [runsOf, findAll_of_not_infix (hnext d' hd')]
  · rw [joinRuns_eq hnext, joinRuns_eq h]
    exact joinDialect_again d s

def splitToken : Text :=
  "<a:r><a:rPr b=\"1\"/><a:t>\x7b\x7bNA</a:t></a:r> <a:r><a:t>ME\x7d\x7d</a:t></a:r>".toList

theorem speaks_splitToken : Speaks .drawing splitToken := by
  intro d' hd'
  obtain rfl : d' = .word := by cases d' <;> simp_all
  decide +kernel

theorem joinRuns_joined_split : Speaks .drawing splitToken ∧
    joinRuns splitToken = ("<a:r><a:rPr b=\"1\"/><a:t>\x7b\x7bNAME\x7d\x7d</a:t></a:r>".toList, 1) ∧
    Joined .drawing splitToken (joinRuns splitToken).1 (joinRuns splitToken).2 :=
  ⟨speaks_splitToken, by decide +kernel, (joinRuns_joined speaks_splitToken).1⟩

end DeckMerge.Run
