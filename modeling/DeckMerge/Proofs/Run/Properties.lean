import DeckMerge.Proofs.Run.Plain

/-!
Properties as documents spell them: one tag that closes itself, or a start tag, content and an end tag.
They read as properties unless a bracket in an attribute, a blank in the end tag or a tag that is none
in the content leads the search astray.
-/

namespace DeckMerge.Run

variable {d : Dialect} {tag attrs content blanks p u v x : Text}

inductive PropsElement
  | empty (attrs : Text)
  | full (attrs content blanks : Text)

def startTag (tag attrs : Text) : Text := '<' :: tag ++ attrs ++ ['>']

def endTag (tag blanks : Text) : Text := '<' :: '/' :: tag ++ blanks ++ ['>']

namespace PropsElement

def text (d : Dialect) : PropsElement → Text
  | empty attrs => '<' :: d.propsTag ++ attrs ++ ['/', '>']
  | full attrs content blanks =>
    startTag d.propsTag attrs ++ content ++ endTag d.propsTag blanks

/-- What a document may have: no tag begins in the attributes, and those of the content end in it. -/
def Spelled : PropsElement → Prop
  | empty attrs => '<' ∉ attrs ∧ attrs.head?.all Text.isBlank
  | full attrs content blanks => '<' ∉ attrs ∧ attrs.head?.all Text.isBlank ∧ Closed content ∧
      ∀ c ∈ blanks, Text.isBlank c

/-- What is read as it is spelled. A bracket in the attributes is taken for the end of the tag. -/
def Readable (d : Dialect) : PropsElement → Prop
  | empty attrs => '>' ∉ attrs
  | full attrs content blanks => (attrs.takeWhile (· != '>')).getLast? ≠ some '/' ∧
      (openTag d.runTag).find? content = none ∧ ¬ closeTag d.runTag <:+: content ∧
      ¬ closeTag d.propsTag <:+: content ∧ blanks = []

end PropsElement

theorem endTag_nil (tag : Text) : endTag tag [] = closeTag tag := by simp [endTag, closeTag_eq]

/-! ### Where properties are cut -/

theorem cut_iff (hx : x ≠ []) : ((Site.properties tag).find? x).getD (x, [], []) = ([], x, []) ↔
    Site.properties tag x = some (x, []) := by
  constructor
  · intro h
    cases x with
    | nil => exact absurd rfl hx
    | cons c x =>
      cases hr : Site.properties tag (c :: x) with
      | some q => simpa [Recogniser.find?, hr, Prod.ext_iff] using h
      | none => cases hf : (Site.properties tag).find? x <;> simp [Recogniser.find?, hr, hf] at h
  · intro h
    rw [Recogniser.find?_of_read hx h, Option.getD_some]

/-! ### One tag -/

/-- The only bracket of a tag without one in its attributes is its last character. -/
theorem bracket_last (hp : '>' ∉ p) (h : u ++ '>' :: v = p ++ ['/', '>']) : u = p ++ ['/'] ∧ v = [] := by
  rcases List.eq_nil_or_concat v with rfl | ⟨v, c, rfl⟩
  · have heq : u ++ ['>'] = (p ++ ['/']) ++ ['>'] := by simpa using h
    exact ⟨List.append_cancel_right heq, rfl⟩
  · have heq : (u ++ '>' :: v) ++ [c] = (p ++ ['/']) ++ ['>'] := by simpa using h
    obtain ⟨hfront, -⟩ := List.append_inj' heq rfl
    have hmem : '>' ∈ p ++ ['/'] := by simp [← hfront]
    simp [hp] at hmem

theorem Dialect.propsTag_eq (d : Dialect) : d.propsTag = d.runTag ++ ['P', 'r'] := by
  cases d <;> rfl

theorem Dialect.lt_notMem_propsTag (d : Dialect) : '<' ∉ d.propsTag := by cases d <;> decide

theorem Dialect.getLast?_runTag (d : Dialect) (u : Text) : (u ++ d.runTag).getLast? = some 'r' := by
  have hlast : d.runTag.getLast? = some 'r' := by cases d <;> decide
  rw [List.getLast?_append, hlast, Option.some_or]

theorem Dialect.getLast?_propsTag (d : Dialect) (u : Text) :
    (u ++ d.propsTag).getLast? = some 'r' := by
  simp [d.propsTag_eq]

theorem find?_run_selfClosing (d : Dialect) (hp : '>' ∉ p) :
    (openTag d.runTag).find? (p ++ ['/', '>']) = none := by
  refine find?_openTag_eq_none fun u inner v hlast heq => ?_
  obtain ⟨hfront, -⟩ := bracket_last hp heq.symm
  have hslash : (u ++ '<' :: d.runTag ++ inner).getLast? = some '/' := by
    rw [hfront, List.getLast?_concat]
  rw [List.getLast?_append] at hslash
  cases hinner : inner.getLast? with
  | none =>
    have htag := d.getLast?_runTag (u ++ ['<'])
    rw [hinner, Option.none_or] at hslash
    rw [List.append_assoc, List.singleton_append, hslash] at htag
    simp at htag
  | some c =>
    rw [hinner, Option.some_or] at hslash
    exact hlast (hinner.trans hslash)

theorem not_runEnd_isInfix_selfClosing (d : Dialect) (hp : '>' ∉ p) :
    ¬ closeTag d.runTag <:+: p ++ ['/', '>'] := by
  rintro ⟨u, v, h⟩
  obtain ⟨hfront, -⟩ := bracket_last (u := u ++ '<' :: '/' :: d.runTag) (v := v) hp
    (by simpa [closeTag_eq] using h)
  have hlast := d.getLast?_runTag (u ++ ['<', '/'])
  rw [List.append_assoc, List.cons_append, List.cons_append, List.nil_append, hfront,
    List.getLast?_concat] at hlast
  simp at hlast

theorem readsAsProps_nil (d : Dialect) : ReadsAsProps d [] where
  no_run := find?_openTag_of_notMem (by simp)
  no_run_end := not_closeTag_isInfix_of_notMem (by simp)
  cut := by cases d <;> rfl

theorem readsAsProps_empty (d : Dialect) (hattrs : Attributes attrs) :
    ReadsAsProps d ((PropsElement.empty attrs).text d) where
  no_run := find?_run_selfClosing d (by simp [d.notMem_propsTag, hattrs.notMem])
  no_run_end := not_runEnd_isInfix_selfClosing d (by simp [d.notMem_propsTag, hattrs.notMem])
  cut := by
    refine (cut_iff (by simp [PropsElement.text])).2 (Site.properties_of_emptyTag ?_)
    exact emptyTag_eq_some_iff.2 ⟨attrs, hattrs, rfl, by simp⟩

theorem notMem_of_properties_empty (d : Dialect)
    (h : Site.properties d.propsTag ((PropsElement.empty attrs).text d) =
      some ((PropsElement.empty attrs).text d, [])) : '>' ∉ attrs := by
  cases he : emptyTag d.propsTag ((PropsElement.empty attrs).text d) with
  | some q =>
    rw [Site.properties_of_emptyTag he] at h
    obtain ⟨inner, hinner, heq, -⟩ := emptyTag_eq_some_iff.1 (he.trans h)
    obtain rfl : attrs = inner := by simpa [PropsElement.text] using heq
    exact hinner.notMem
  | none =>
    obtain ⟨inner, content, t, -, -, -, hend⟩ := (Site.properties_eq_some_iff he).1 h
    have heq : ('<' :: d.propsTag ++ attrs ++ ['/']) ++ ['>'] =
        ('<' :: d.propsTag ++ inner ++ ['>'] ++ content ++ ['<', '/'] ++ d.propsTag) ++ ['>'] := by
      simpa [PropsElement.text, closeTag_eq] using hend
    have hlast := congrArg List.getLast? (List.append_cancel_right heq)
    rw [List.getLast?_concat, d.getLast?_propsTag] at hlast
    simp at hlast

/-! ### A start tag, content and an end tag -/

theorem lt_notMem_of_isBlank (h : ∀ c ∈ blanks, Text.isBlank c) : '<' ∉ blanks :=
  fun hmem => absurd (h '<' hmem) (by decide)

theorem closed_startTag (tag attrs : Text) : Closed (startTag tag attrs) :=
  closed_append_bracket ('<' :: tag ++ attrs)

/-- A start tag up to its first bracket, and what is left of it. -/
theorem startTag_eq (tag attrs : Text) : ∃ w, (∀ c ∈ w, c ∈ attrs ∨ c = '>') ∧
    startTag tag attrs = '<' :: tag ++ attrs.takeWhile (· != '>') ++ '>' :: w := by
  by_cases h : '>' ∈ attrs
  · obtain ⟨p, t, rfl, hp⟩ := List.eq_append_cons_of_mem h
    have hspan := span_bracket hp t
    rw [List.span_eq_takeWhile_dropWhile, Prod.mk.injEq] at hspan
    refine ⟨t ++ ['>'], ?_, by rw [hspan.1]; simp [startTag]⟩
    simp only [List.mem_append, List.mem_cons, List.not_mem_nil, or_false]
    tauto
  · have hspan := span_of_notMem h
    rw [List.span_eq_takeWhile_dropWhile, Prod.mk.injEq] at hspan
    exact ⟨[], by simp, by rw [hspan.1]; simp [startTag]⟩

theorem attributes_takeWhile (h : attrs.head?.all Text.isBlank) :
    Attributes (attrs.takeWhile (· != '>')) where
  notMem hmem := by simpa using List.mem_takeWhile_imp hmem
  blank := by
    cases attrs with
    | nil => rfl
    | cons c attrs => by_cases hc : c = '>' <;> simp_all

theorem emptyTag_bracket (tag : Text) (hattrs : Attributes attrs) (x : Text) :
    emptyTag tag ('<' :: tag ++ attrs ++ '>' :: x) = none ↔ attrs.getLast? ≠ some '/' := by
  rw [← not_iff_not, not_not, ← ne_eq, Option.ne_none_iff_exists']
  simp only [Prod.exists, emptyTag_eq_some_iff]
  constructor
  · rintro ⟨a, rest, inner, hinner, rfl, heq⟩
    have hcut : attrs ++ '>' :: x = (inner ++ ['/']) ++ '>' :: rest := by simpa using heq
    obtain ⟨rfl, -⟩ := bracket_inj hattrs.notMem (by simp [hinner.notMem]) hcut
    exact List.getLast?_concat
  · intro hslash
    obtain ⟨inner, rfl⟩ := List.getLast?_eq_some_iff.1 hslash
    exact ⟨_, x, inner, hattrs.of_append, rfl, by simp⟩

/-- A tag with something behind it reads as properties to the end if it does not close itself and its
end tag is found there. -/
theorem properties_bracket_iff (hattrs : Attributes attrs) (hx : x ≠ []) :
    Site.properties tag ('<' :: tag ++ attrs ++ '>' :: x) =
        some ('<' :: tag ++ attrs ++ '>' :: x, []) ↔
      attrs.getLast? ≠ some '/' ∧ ∃ y, Text.breakOn? (closeTag tag) x = some (y, []) := by
  have htag := emptyTag_bracket tag hattrs x
  cases he : emptyTag tag ('<' :: tag ++ attrs ++ '>' :: x) with
  | some q =>
    have hslash : ¬ attrs.getLast? ≠ some '/' := by
      rw [← htag, he]
      simp
    rw [Site.properties_of_emptyTag he]
    refine iff_of_false ?_ fun h => hslash h.1
    intro hq
    obtain ⟨inner, hinner, hempty, -⟩ := emptyTag_eq_some_iff.1 (he.trans hq)
    have hcut : attrs ++ '>' :: x = (inner ++ ['/']) ++ '>' :: [] := by simpa using hempty
    exact hx (bracket_inj hattrs.notMem (by simp [hinner.notMem]) hcut).2
  | none =>
    rw [Site.properties_eq_some_iff he, and_iff_right (htag.1 he)]
    constructor
    · rintro ⟨inner, y, t, hinner, hsplit, hbreak, -⟩
      have hcut : attrs ++ '>' :: x = inner ++ '>' :: t := by simpa using hsplit
      obtain ⟨-, rfl⟩ := bracket_inj hattrs.notMem hinner.notMem hcut
      exact ⟨y, hbreak⟩
    · rintro ⟨y, hbreak⟩
      have hy := Text.eq_append_of_breakOn? (closeTag_ne_nil tag) hbreak
      exact ⟨attrs, y, x, hattrs, rfl, hbreak, by rw [hy]; simp⟩

/-- The end of the properties is the end of the text if it has no blanks and stands nowhere before. -/
theorem breakOn?_propsEnd_iff (d : Dialect) (hx : Closed x) (hblanks : ∀ c ∈ blanks, Text.isBlank c) :
    (∃ y, Text.breakOn? (closeTag d.propsTag) (x ++ endTag d.propsTag blanks) = some (y, [])) ↔
      ¬ closeTag d.propsTag <:+: x ∧ blanks = [] := by
  have hne := closeTag_ne_nil d.propsTag
  constructor
  · rintro ⟨y, h⟩
    have hfirst := Text.first_of_breakOn? hne h
    refine ⟨?before, ?blanks⟩
    case before =>
      -- an end tag in `x` would be found first, and leave the last one over
      rintro ⟨u, v, rfl⟩
      have hle := hfirst.leftmost u (v ++ endTag d.propsTag blanks) (by simp)
      have hlen := congrArg List.length hfirst.eq_append
      have hpos : 0 < (endTag d.propsTag blanks).length := by simp [endTag]
      simp only [List.length_append, List.length_nil] at hlen
      omega
    case blanks =>
      -- what is found ends in the name and a bracket, so no blank stands between these
      rcases List.eq_nil_or_concat blanks with rfl | ⟨b, c, rfl⟩
      · rfl
      · have heq : (x ++ '<' :: '/' :: d.propsTag ++ b ++ [c]) ++ ['>'] =
            (y ++ ['<', '/'] ++ d.propsTag) ++ ['>'] := by
          simpa [endTag, closeTag_eq] using hfirst.eq_append
        have hlast := congrArg List.getLast? (List.append_cancel_right heq)
        rw [List.getLast?_concat, d.getLast?_propsTag] at hlast
        obtain rfl := Option.some.inj hlast
        exact absurd (hblanks 'r' (by simp)) (by decide)
  · rintro ⟨hnot, rfl⟩
    have hfound := Text.breakOn?_of_isPrefix hne []
    rw [List.append_nil] at hfound
    rw [endTag_nil, breakOn?_closeTag_append d.notMem_propsTag hx hnot, hfound]
    exact ⟨_, rfl⟩

theorem properties_full_iff (d : Dialect) (h : (PropsElement.full attrs content blanks).Spelled) :
    Site.properties d.propsTag ((PropsElement.full attrs content blanks).text d) =
        some ((PropsElement.full attrs content blanks).text d, []) ↔
      (attrs.takeWhile (· != '>')).getLast? ≠ some '/' ∧ ¬ closeTag d.propsTag <:+: content ∧
        blanks = [] := by
  obtain ⟨hlt, hblank, hcontent, hblanks⟩ := h
  obtain ⟨w, hmem, hw⟩ := startTag_eq d.propsTag attrs
  have hltw : '<' ∉ w := fun hin => by simpa [hlt] using hmem '<' hin
  have hnotw : ¬ closeTag d.propsTag <:+: w := not_closeTag_isInfix_of_notMem hltw
  have hend := breakOn?_propsEnd_iff d ((closed_of_notMem hltw).append hcontent) hblanks
  rw [closeTag_isInfix_append d.notMem_propsTag (closed_of_notMem hltw), or_iff_right hnotw,
    List.append_assoc] at hend
  have htext : (PropsElement.full attrs content blanks).text d =
      '<' :: d.propsTag ++ attrs.takeWhile (· != '>') ++
        '>' :: (w ++ (content ++ endTag d.propsTag blanks)) := by
    rw [PropsElement.text, hw]
    simp
  rw [htext, properties_bracket_iff (attributes_takeWhile hblank) (by simp [endTag]), hend]

/-! ### Runs in properties -/

theorem not_closeTag_isInfix_cons (h : ¬ closeTag tag <+: '<' :: x) (hx : '<' ∉ x) :
    ¬ closeTag tag <:+: '<' :: x := by
  rw [List.infix_cons_iff, not_or]
  exact ⟨h, not_closeTag_isInfix_of_notMem hx⟩

namespace Dialect

theorem find?_run_startTag (d : Dialect) (hattrs : '<' ∉ attrs) :
    (openTag d.runTag).find? (startTag d.propsTag attrs) = none := by
  have hx : '<' ∉ d.propsTag ++ attrs ++ ['>'] := by simp [d.lt_notMem_propsTag, hattrs]
  cases d <;> exact find?_openTag_cons rfl hx

theorem find?_run_endTag (d : Dialect) (hblanks : '<' ∉ blanks) :
    (openTag d.runTag).find? (endTag d.propsTag blanks) = none := by
  have hx : '<' ∉ '/' :: d.propsTag ++ blanks ++ ['>'] := by simp [d.lt_notMem_propsTag, hblanks]
  cases d <;> exact find?_openTag_cons rfl hx

theorem not_runEnd_isInfix_startTag (d : Dialect) (hattrs : '<' ∉ attrs) :
    ¬ closeTag d.runTag <:+: startTag d.propsTag attrs := by
  refine not_closeTag_isInfix_cons ?_ (by simp [d.lt_notMem_propsTag, hattrs])
  have hslash : ¬ ['/'] <+: d.runTag ++ ('P' :: 'r' :: attrs ++ ['>']) := by cases d <;> simp [runTag]
  intro h
  refine hslash ((List.prefix_append ['/'] (d.runTag ++ ['>'])).trans ?_)
  simpa [closeTag_eq, d.propsTag_eq] using h

theorem not_runEnd_isInfix_endTag (d : Dialect) (hblanks : '<' ∉ blanks) :
    ¬ closeTag d.runTag <:+: endTag d.propsTag blanks := by
  refine not_closeTag_isInfix_cons ?_ (by simp [d.lt_notMem_propsTag, hblanks])
  simp [closeTag_eq, d.propsTag_eq]

end Dialect

theorem find?_run_full_iff (d : Dialect) (h : (PropsElement.full attrs content blanks).Spelled) :
    (openTag d.runTag).find? ((PropsElement.full attrs content blanks).text d) = none ↔
      (openTag d.runTag).find? content = none := by
  obtain ⟨hlt, -, hcontent, hblanks⟩ := h
  have hstart := openTag_staysIn (closed_startTag d.propsTag attrs) d.notMem_runTag
  rw [PropsElement.text, List.append_assoc,
    Recogniser.find?_append_of_eq_none hstart (d.find?_run_startTag hlt), Option.map_eq_none_iff]
  have hstay := openTag_staysIn hcontent d.notMem_runTag
  cases hf : (openTag d.runTag).find? content with
  | none =>
    rw [Recogniser.find?_append_of_eq_none hstay hf,
      d.find?_run_endTag (lt_notMem_of_isBlank hblanks)]
    simp
  | some q => simp [Recogniser.find?_append_of_eq_some (openTag_advances _) hstay hf]

theorem runEnd_isInfix_full_iff (d : Dialect) (h : (PropsElement.full attrs content blanks).Spelled) :
    closeTag d.runTag <:+: (PropsElement.full attrs content blanks).text d ↔
      closeTag d.runTag <:+: content := by
  obtain ⟨hlt, -, hcontent, hblanks⟩ := h
  rw [PropsElement.text, List.append_assoc,
    closeTag_isInfix_append d.notMem_runTag (closed_startTag d.propsTag attrs),
    closeTag_isInfix_append d.notMem_runTag hcontent, or_iff_right (d.not_runEnd_isInfix_startTag hlt),
    or_iff_left (d.not_runEnd_isInfix_endTag (lt_notMem_of_isBlank hblanks))]

/-! ### What reads as properties -/

theorem PropsElement.closed_empty (d : Dialect) (attrs : Text) : Closed ((empty attrs).text d) := by
  simpa [text] using closed_append_bracket ('<' :: d.propsTag ++ attrs ++ ['/'])

theorem PropsElement.closed_text (e : PropsElement) (h : e.Spelled) : Closed (e.text d) := by
  cases e with
  | empty attrs => exact closed_empty d attrs
  | full attrs content blanks =>
    exact ((closed_startTag _ _).append h.2.2.1).append (closed_append_bracket _)

theorem PropsElement.text_ne_nil (e : PropsElement) : e.text d ≠ [] := by
  cases e <;> simp [text, startTag]

/-- An element reads as the properties of its run exactly when it is spelled readably. -/
theorem readsAsProps_iff (d : Dialect) {e : PropsElement} (h : e.Spelled) :
    ReadsAsProps d (e.text d) ↔ e.Readable d := by
  cases e with
  | empty attrs =>
    constructor
    · intro hread
      exact notMem_of_properties_empty d ((cut_iff (PropsElement.text_ne_nil _)).1 hread.cut)
    · exact fun hnot => readsAsProps_empty d ⟨hnot, h.2⟩
  | full attrs content blanks =>
    rw [PropsElement.Readable, ← find?_run_full_iff d h, ← runEnd_isInfix_full_iff d h]
    constructor
    · rintro ⟨hrun, hend, hcut⟩
      obtain ⟨hslash, hprops, hblanks⟩ :=
        (properties_full_iff d h).1 ((cut_iff (PropsElement.text_ne_nil _)).1 hcut)
      exact ⟨hslash, hrun, hend, hprops, hblanks⟩
    · rintro ⟨hslash, hrun, hend, hprops, hblanks⟩
      exact ⟨hrun, hend, (cut_iff (PropsElement.text_ne_nil _)).2
        ((properties_full_iff d h).2 ⟨hslash, hprops, hblanks⟩)⟩

end DeckMerge.Run
