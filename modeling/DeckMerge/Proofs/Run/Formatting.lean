import DeckMerge.Proofs.Run.Lines
import DeckMerge.Proofs.Run.Properties

/-!
Properties on every line. A run whose properties read as such is written again with all of them for each
line of a value, and so is every break; a run whose properties are cut wrongly is not.
-/

namespace DeckMerge.Run

variable {d : Dialect} {pre post props c c' token value s after head body inside : Text} {r : Site}

/-! ### A place in a run of any properties -/

theorem Dialect.length_lineBreak_le {props' : Text} (h : props'.length ≤ props.length) :
    (Dialect.drawing.lineBreak props').length ≤ (Dialect.drawing.lineBreak props).length := by
  by_cases hp : props = []
  · obtain rfl : props' = [] := List.length_eq_zero_iff.1 (by simpa [hp] using h)
    rw [hp]
  · have hpos := List.length_pos_iff.2 hp
    by_cases hp' : props' = []
    · simp [hp', lineBreak_nil, lineBreak_of_ne_nil hp]
    · simpa [lineBreak_of_ne_nil hp, lineBreak_of_ne_nil hp'] using h

/-- The last run that begins before the place is the plain one, or it begins in the properties. -/
theorem Dialect.exists_findLast?_run (d : Dialect) (hpre : Closed pre) (hprops : Closed props)
    (hc : '<' ∉ c) : ∃ before runOpen props', Closed props' ∧
      (openTag d.runTag).findLast? (pre ++ (d.runStart props ++ c)) =
        some (before, runOpen, props' ++ (plainTag d.textTag ++ c)) ∧
      (runOpen = plainTag d.runTag ∧ props' = props ∧ (openTag d.runTag).find? props = none ∨
        runOpen.length + props'.length ≤ props.length) := by
  cases hf : (openTag d.runTag).find? props with
  | none => exact ⟨_, _, props, hprops, d.findLast?_run_plain hpre hprops hf hc, .inl ⟨rfl, rfl, rfl⟩⟩
  | some p =>
    have hadv := openTag_advances d.runTag
    have hverb := openTag_verbatim d.runTag
    obtain ⟨before, runOpen, props', hlast⟩ :
        ∃ before runOpen props', (openTag d.runTag).findLast? props = some (before, runOpen, props') := by
      obtain ⟨before₁, a₁, rest₁⟩ := p
      rw [Recogniser.findLast?_of_find? hadv hverb hf]
      rcases (openTag d.runTag).findLast? rest₁ with _ | ⟨before₂, a₂, rest₂⟩ <;> exact ⟨_, _, _, rfl⟩
    have hsplit := hverb.findLast? hadv hlast
    have hstart : pre ++ (d.runStart props ++ c) =
        (pre ++ plainTag d.runTag) ++ (props ++ (plainTag d.textTag ++ c)) := by simp [runStart]
    refine ⟨(pre ++ plainTag d.runTag) ++ before, runOpen, props', ?closed, ?last, .inr ?short⟩
    case closed => exact hprops.suffix ⟨before ++ runOpen, hsplit.symm⟩
    case last =>
      rw [hstart]
      refine Recogniser.findLast?_append_of_eq_some hadv hverb
        (openTag_staysIn (hpre.append (closed_plainTag _)) d.notMem_runTag) ?_
      rw [Recogniser.findLast?_append_of_eq_none hadv hverb
        (openTag_staysIn hprops d.notMem_runTag) (d.find?_run_text hc), hlast]
      rfl
    case short =>
      rw [hsplit]
      simp only [List.length_append]
      omega

/-- A place in a plain run is located with these properties between the lines only if they read as
such. -/
theorem Site.Located.readsAsProps (hpre : Closed pre) (hprops : Closed props) (hc : '<' ∉ c)
    (h : Located .drawing (pre ++ (Dialect.drawing.runStart props ++ c)) after r body inside head)
    (hnext : r.nextLine = Dialect.drawing.nextLine props) : ReadsAsProps .drawing props := by
  obtain ⟨before, runOpen, props', hprops', hlast, hcases⟩ :=
    Dialect.drawing.exists_findLast?_run hpre hprops hc
  obtain ⟨-, rfl, rfl⟩ : before = r.preceding ∧ runOpen = r.runOpen ∧
      props' ++ (plainTag Dialect.drawing.textTag ++ c) = body := by simpa [hlast] using h.run
  have htext := h.text
  rw [findLast?_plainTag Dialect.drawing.notMem_textTag hprops' (find?_openTag_of_notMem hc)] at htext
  obtain ⟨rfl, htextOpen, -⟩ : props' = head ∧ plainTag Dialect.drawing.textTag = r.textOpen ∧
      c = r.textBefore := by simpa using htext
  -- what is written between lines is as long as with all properties, so none of them were cut off
  have hlen := congrArg List.length hnext
  simp only [Site.nextLine, Dialect.nextLine, Dialect.runStart, Dialect.runEnd, h.dialect,
    ← htextOpen, List.length_append] at hlen
  have hle := h.length_props_le
  rcases hcases with ⟨hplain, rfl, hnone⟩ | hshort
  · have hbreak := Dialect.length_lineBreak_le hle
    rw [hplain] at hlen
    obtain ⟨hbefore, hwhole, hafter⟩ := h.props_eq_head (by omega)
    refine ⟨hnone, fun hend => h.run_open (hend.trans List.infix_append_left), ?_⟩
    have hcut := h.props
    rwa [hbefore, hwhole, hafter] at hcut
  · have hle' : r.props.length ≤ props.length := by omega
    have hbreak := Dialect.length_lineBreak_le hle'
    have : (plainTag Dialect.drawing.runTag).length = 5 := by decide
    omega

/-! ### Lines in a run of any properties -/

section Once

variable {before mark : Text}

/-- The value over the only occurrence of a token is in lines, with this mark between them, only if a
run is located there and this is what it writes between lines. -/
theorem exists_located_of_inject (ht : token ≠ []) (hv : Markup.hasBreak value)
    (hfirst : Text.First token s before after) (honce : ¬ token <:+: after) (hmark : '<' ∈ mark)
    (part label : Option Text) (h : (inject s token value part label).1 =
      before ++ Text.joinWith mark (writtenLines value) ++ after) :
    ∃ r body inside head, Site.Located r.dialect before after r body inside head ∧ r.nextLine = mark := by
  have hlines : 1 < (writtenLines value).length := by
    rw [length_writtenLines]
    exact Markup.one_lt_length_lines hv
  rw [inject_of_hasBreak ht hv hfirst honce] at h
  cases hsite : siteAt before after Dialect.all with
  | error os =>
    -- the value as it is holds no tag, but the mark does
    rw [hsite] at h
    have heq : Markup.escape value = Text.joinWith mark (writtenLines value) := by simpa using h
    obtain ⟨l, more, hjoin⟩ := exists_joinWith hlines
    refine absurd ?_ (Markup.lt_notMem_escape value)
    rw [heq, hjoin]
    simp [hmark]
  | ok r =>
    rw [hsite] at h
    obtain ⟨d, hd⟩ := exists_locate_of_siteAt hsite
    obtain ⟨body, inside, head, hl⟩ := Site.locate_eq_ok_iff.1 hd
    have hsame := List.append_cancel_right h
    rw [Site.fill, ← List.append_assoc] at hsame
    have hlen : (r.preceding ++ (r.runOpen ++ r.props ++ r.head ++ r.textOpen ++ r.textBefore)).length =
        before.length := by
      rw [hl.before_eq]
      simp only [Site.head, List.length_append]
      omega
    obtain rfl := hl.dialect
    exact ⟨r, body, inside, head, hl, joinWith_inj hlines (List.append_inj hsame hlen).2⟩

end Once

/-- The lines are written with these properties between them exactly if they read as such. -/
theorem inject_plain_iff (ht : token ≠ []) (hv : Markup.hasBreak value) (hpre : Closed pre)
    (hprops : Closed props) (hc : '<' ∉ c) (hc' : '<' ∉ c')
    (hfirst : Text.First token s (pre ++ (Dialect.drawing.runStart props ++ c))
      (c' ++ (Dialect.drawing.runEnd ++ post)))
    (honce : ¬ token <:+: c' ++ (Dialect.drawing.runEnd ++ post)) (part label : Option Text) :
    (inject s token value part label).1 = pre ++ (Dialect.drawing.runStart props ++ c) ++
        Text.joinWith (Dialect.drawing.nextLine props) (writtenLines value) ++
          (c' ++ (Dialect.drawing.runEnd ++ post)) ↔
      ReadsAsProps .drawing props := by
  constructor
  · intro h
    have hmark : '<' ∈ Dialect.drawing.nextLine props := by
      simp [Dialect.nextLine, Dialect.runEnd, closeTag_eq]
    obtain ⟨r, body, inside, head, hl, hnext⟩ :=
      exists_located_of_inject ht hv hfirst honce hmark part label h
    have hdrawing : r.dialect = .drawing := by
      cases hd : r.dialect with
      | drawing => rfl
      | word =>
        rw [Site.nextLine, hd] at hnext
        simp [Dialect.nextLine, Dialect.runEnd, closeTag_eq, Dialect.textTag] at hnext
    rw [hdrawing] at hl
    exact hl.readsAsProps hpre hprops hc hnext
  · intro hread
    exact inject_plain ht hpre hprops hread hc hc' hfirst honce value part label

/-- A value of several lines over the only occurrence of a token in a plain run gives one run for each
line, all with the run's properties as they are spelled, and so with the breaks between: exactly when the
properties are spelled readably. -/
theorem inject_formatting_iff {e : PropsElement} {before after : Text} (he : e.Spelled) (ht : token ≠ [])
    (hv : Markup.hasBreak value) (hpre : Closed pre) (hbefore : '<' ∉ before) (hafter : '<' ∉ after)
    (honce : Text.Once token (pre ++ (Dialect.drawing.runStart (e.text .drawing) ++ before))
      (after ++ (Dialect.drawing.runEnd ++ post))) (part label : Option Text) :
    (weaveLines before [(writtenLines value, after)]).length = (Markup.lines value).length ∧
      ((inject (pre ++ Dialect.drawing.run (e.text .drawing) (before ++ token ++ after) ++ post) token
          value part label).1 =
        pre ++ Text.joinWith (Dialect.drawing.lineBreak (e.text .drawing))
          ((weaveLines before [(writtenLines value, after)]).map
            (Dialect.drawing.run (e.text .drawing))) ++ post ↔ e.Readable .drawing) := by
  have hne : ∀ p ∈ [(writtenLines value, after)], p.1 ≠ [] := by simp [writtenLines_ne_nil]
  constructor
  · have hlines := List.length_pos_iff.2 (Markup.lines_ne_nil value)
    rw [length_weaveLines before hne]
    simp only [List.map_cons, List.map_nil, List.sum_cons, List.sum_nil, length_writtenLines]
    omega
  · have htext : pre ++ Dialect.drawing.run (e.text .drawing) (before ++ token ++ after) ++ post =
        pre ++ (Dialect.drawing.runStart (e.text .drawing) ++ before) ++ token ++
          (after ++ (Dialect.drawing.runEnd ++ post)) := by simp [Dialect.run]
    rw [← readsAsProps_iff .drawing he, htext, joinWith_map_weaveLines _ _ hne,
      ← inject_plain_iff ht hv hpre (e.closed_text he) hbefore hafter honce.first
        (honce.not_isInfix ht) part label]
    simp

def paragraphStart : Text := "<a:p xmlns:a=\"urn:a\">"

def paragraphEnd : Text := "</a:p>"

/-- Properties with a slash in an attribute, and a bracket in one of a child. -/
def fontProps : PropsElement := .full " lang=\"a/b\"" "<a:latin typeface=\"A > B\"/>" []

theorem inject_formatting_font : fontProps.Spelled ∧ fontProps.Readable .drawing ∧
    (weaveLines "to " [(writtenLines quotingValue, ".")]).length = 2 ∧
    (inject (paragraphStart ++ Dialect.drawing.run (fontProps.text .drawing)
        ("to " ++ quotedToken ++ ".") ++ paragraphEnd) quotedToken quotingValue none none).1 =
      paragraphStart ++ Text.joinWith (Dialect.drawing.lineBreak (fontProps.text .drawing))
        ((weaveLines "to " [(writtenLines quotingValue, ".")]).map
          (Dialect.drawing.run (fontProps.text .drawing))) ++ paragraphEnd := by
  have hspelled : fontProps.Spelled :=
    ⟨by decide, by decide, closed_append_bracket "<a:latin typeface=\"A > B\"/", by simp⟩
  have hreadable : fontProps.Readable .drawing :=
    ⟨by decide, by decide +kernel, by decide +kernel, by decide +kernel, rfl⟩
  have hpre : Closed paragraphStart := closed_append_bracket "<a:p xmlns:a=\"urn:a\""
  have hbreak : Markup.hasBreak quotingValue := by decide
  have honce : Text.Once quotedToken
      (paragraphStart ++ (Dialect.drawing.runStart (fontProps.text .drawing) ++ "to "))
      ("." ++ (Dialect.drawing.runEnd ++ paragraphEnd)) :=
    (Text.once_iff_breakOn? (by decide)).2 (by decide +kernel)
  obtain ⟨hlength, hiff⟩ :=
    inject_formatting_iff hspelled (by decide) hbreak hpre (by decide) (by decide) honce none none
  exact ⟨hspelled, hreadable, hlength, hiff.2 hreadable⟩

/-- Properties with a bracket in an attribute. -/
def bracketProps : PropsElement := .empty " lang=\"a>b\""

def twoLines : Text := "one\ntwo"

/-- Only the first line keeps them, and the break has none. -/
theorem inject_formatting_bracket : bracketProps.Spelled ∧
    Text.Once quotedToken
      (paragraphStart ++ (Dialect.drawing.runStart (bracketProps.text .drawing) ++ []))
      ([] ++ (Dialect.drawing.runEnd ++ paragraphEnd)) ∧
    (inject (paragraphStart ++ Dialect.drawing.run (bracketProps.text .drawing)
        ([] ++ quotedToken ++ []) ++ paragraphEnd) quotedToken twoLines none none).1 ≠
      paragraphStart ++ Text.joinWith (Dialect.drawing.lineBreak (bracketProps.text .drawing))
        ((weaveLines [] [(writtenLines twoLines, [])]).map
          (Dialect.drawing.run (bracketProps.text .drawing))) ++ paragraphEnd ∧
    (inject (paragraphStart ++ Dialect.drawing.run (bracketProps.text .drawing)
        ([] ++ quotedToken ++ []) ++ paragraphEnd) quotedToken twoLines none none).1 =
      paragraphStart ++ "<a:r><a:rPr lang=\"a>b\"/><a:t>one</a:t></a:r><a:br/>" ++
        "<a:r><a:t>two</a:t></a:r>" ++ paragraphEnd := by
  refine ⟨⟨by decide, by decide⟩, (Text.once_iff_breakOn? (by decide)).2 ?_, ?_, ?_⟩ <;> decide +kernel

end DeckMerge.Run
