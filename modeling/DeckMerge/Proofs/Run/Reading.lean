import DeckMerge.Proofs.Run.TextRun

/-!
Runs of properties and one text are read exactly as they are spelled.
-/

namespace DeckMerge.Run.TextRun

variable {d : Dialect} {mark stop tag a s head rest : Text} {r : TextRun}

theorem mem_readsUpTo_cons {c : Char} : (a, rest) ∈ readsUpTo mark stop (c :: s) ↔
    (a = mark ∧ c :: s = mark ++ rest) ∨
      ¬ stop <+: c :: s ∧ ∃ a', a = c :: a' ∧ (a', rest) ∈ readsUpTo mark stop s := by
  have hhere : c :: s = mark ++ rest ↔ mark.isPrefixOf? (c :: s) = some rest := by
    rw [List.isPrefixOf?_eq_some_iff_append_eq, eq_comm]
  have hstop : stop.isPrefixOf (c :: s) = true ↔ stop <+: c :: s := by simp
  rw [readsUpTo, hhere, ← hstop]
  by_cases hp : stop.isPrefixOf (c :: s) = true
  · cases mark.isPrefixOf? (c :: s) <;> simp [hp, eq_comm]
  · cases mark.isPrefixOf? (c :: s) <;> simp [hp, eq_comm, and_comm]

theorem mem_readsUpTo_iff (hmark : mark ≠ []) : (a, rest) ∈ readsUpTo mark stop s ↔
    ∃ content, a = content ++ mark ∧ s = content ++ mark ++ rest ∧
      ∀ u, u ≠ [] → u <:+ content → ¬ stop <+: u ++ mark ++ rest := by
  induction s generalizing a with
  | nil => simp [readsUpTo, hmark]
  | cons c s ih =>
    rw [mem_readsUpTo_cons]
    constructor
    · rintro (⟨rfl, hs⟩ | ⟨hp, a', rfl, hmem⟩)
      · exact ⟨[], rfl, hs, fun u hu hsuffix => absurd (List.suffix_nil.1 hsuffix) hu⟩
      · obtain ⟨content, rfl, rfl, hno⟩ := ih.1 hmem
        refine ⟨c :: content, rfl, rfl, fun u hu hsuffix => ?_⟩
        rcases List.suffix_cons_iff.1 hsuffix with rfl | hsuffix
        · exact hp
        · exact hno u hu hsuffix
    · rintro ⟨content, rfl, heq, hno⟩
      cases content with
      | nil => exact .inl ⟨rfl, heq⟩
      | cons c' content =>
        obtain ⟨rfl, rfl⟩ := List.cons.inj heq
        refine .inr ⟨hno (c :: content) (by simp) (List.suffix_refl _), content ++ mark, rfl, ?_⟩
        exact ih.2 ⟨content, rfl, rfl, fun u hu hs => hno u hu (hs.trans (List.suffix_cons c content))⟩

/-- The end of a run does not begin in one text and go on in a closing tag. -/
theorem closeTag_runTag_isPrefix_iff {u : Text} (hu : u ≠ []) (tag s : Text) :
    closeTag d.runTag <+: u ++ closeTag tag ++ s ↔ closeTag d.runTag <+: u := by
  refine ⟨?_, fun h => (h.trans (List.prefix_append _ _)).trans (List.prefix_append _ _)⟩
  rintro ⟨t, ht⟩
  rw [List.append_assoc] at ht
  rcases List.append_eq_append_iff.1 ht with ⟨w, rfl, -⟩ | ⟨w, hw, hrest⟩
  · exact List.prefix_append _ _
  · cases w with
    | nil => simp [hw]
    | cons c w =>
      obtain ⟨c', u, rfl⟩ := List.exists_cons_of_ne_nil hu
      obtain ⟨rfl, -⟩ : '<' = c ∧ _ := List.cons.inj hrest
      have hrunEnd : '/' :: d.runTag ++ ['>'] = u ++ '<' :: w := (List.cons.inj hw).2
      exact absurd (show '<' ∈ '/' :: d.runTag ++ ['>'] by simp [hrunEnd]) d.lt_notMem_runEnd

theorem mem_readsUpTo_props_iff : (a, rest) ∈ readsUpTo (closeTag d.propsTag) (closeTag d.runTag) s ↔
    ∃ content, ¬ closeTag d.runTag <:+: content ∧ a = content ++ closeTag d.propsTag ∧
      s = content ++ closeTag d.propsTag ++ rest := by
  rw [mem_readsUpTo_iff (closeTag_ne_nil _)]
  constructor
  · rintro ⟨content, ha, hs, hno⟩
    refine ⟨content, ?_, ha, hs⟩
    rw [List.infix_iff_prefix_suffix]
    rintro ⟨u, hp, hsuffix⟩
    have hu : u ≠ [] := fun hnil => closeTag_ne_nil d.runTag (List.prefix_nil.1 (hnil ▸ hp))
    exact hno u hu hsuffix ((closeTag_runTag_isPrefix_iff hu _ _).2 hp)
  · rintro ⟨content, hno, ha, hs⟩
    refine ⟨content, ha, hs, fun u hu hsuffix hp => hno ?_⟩
    exact ((closeTag_runTag_isPrefix_iff hu _ _).1 hp).isInfix.trans hsuffix.isInfix

theorem emptyTag_eq_none (h : IsOpenTag tag a) (htag : '>' ∉ tag) (rest : Text) :
    emptyTag tag (a ++ rest) = none := by
  rw [Option.eq_none_iff_forall_ne_some]
  rintro ⟨a', rest'⟩ h'
  obtain ⟨⟨attrs, hattrs, rfl⟩, heq⟩ := emptyTag_iff.1 h'
  obtain ⟨inner, hinner, hlast, rfl⟩ := h
  have hp := hinner.notMem
  have hq := hattrs.notMem
  obtain ⟨hfront, -⟩ := bracket_inj (p := '<' :: tag ++ inner) (q := '<' :: tag ++ attrs ++ ['/'])
    (by simp_all) (by simp_all) (s := rest) (t := rest') (by simpa using heq)
  obtain rfl : inner = attrs ++ ['/'] := by simpa using hfront
  exact hlast (by simp)

theorem mem_readsProps_iff : (a, rest) ∈ readsProps d s ↔ PropsSpelled d a ∧ s = a ++ rest := by
  constructor
  · intro h
    rcases List.mem_append.1 h with h | h
    · split at h
      case h_1 r he =>
        obtain rfl := List.mem_singleton.1 h
        obtain ⟨ha, hs⟩ := emptyTag_iff.1 he
        exact ⟨.empty ha, hs⟩
      case h_2 =>
        split at h
        case h_2 => simp at h
        case h_1 tag' rest' ho =>
          obtain ⟨⟨read, rest''⟩, hmem, heq⟩ := List.mem_map.1 h
          obtain ⟨rfl, rfl⟩ := Prod.mk.inj heq
          obtain ⟨content, hno, rfl, rfl⟩ := mem_readsUpTo_props_iff.1 hmem
          obtain ⟨htag, rfl⟩ := openTag_iff.1 ho
          exact ⟨by simpa using PropsSpelled.full htag hno, by simp⟩
    · obtain ⟨rfl, rfl⟩ := Prod.mk.inj (List.mem_singleton.1 h)
      exact ⟨.none, rfl⟩
  · rintro ⟨hprops, rfl⟩
    rw [readsProps]
    cases hprops with
    | none => simp
    | empty ha => simp [emptyTag_iff.2 ⟨ha, rfl⟩]
    | @full tag content htag hno =>
      have he := emptyTag_eq_none htag d.notMem_propsTag (content ++ closeTag d.propsTag ++ rest)
      have ho : openTag d.propsTag (tag ++ (content ++ closeTag d.propsTag ++ rest)) =
          some (tag, content ++ closeTag d.propsTag ++ rest) := openTag_iff.2 ⟨htag, rfl⟩
      rw [List.append_assoc tag, List.append_assoc tag, he, ho]
      refine List.mem_append_left _ (List.mem_map.2 ⟨(content ++ closeTag d.propsTag, rest), ?_, by simp⟩)
      exact mem_readsUpTo_props_iff.2 ⟨content, hno, rfl, by simp⟩

theorem span_blank (s : Text) : ∃ b t, s.span Text.isBlank = (b, t) ∧ Blank b ∧ s = b ++ t := by
  refine ⟨s.takeWhile Text.isBlank, s.dropWhile Text.isBlank, List.span_eq_takeWhile_dropWhile _ _, ?_,
    List.takeWhile_append_dropWhile.symm⟩
  exact fun c hc => List.mem_takeWhile_imp hc

/-- The front of a text up to its first tag. -/
theorem span_text (s : Text) : ∃ t u, s.span (· != '<') = (t, u) ∧ '<' ∉ t ∧ s = t ++ u := by
  refine ⟨s.takeWhile (· != '<'), s.dropWhile (· != '<'), List.span_eq_takeWhile_dropWhile _ _, ?_,
    List.takeWhile_append_dropWhile.symm⟩
  intro hmem
  simpa using List.mem_takeWhile_imp hmem

theorem span_text_lt {t : Text} (ht : '<' ∉ t) (s : Text) :
    (t ++ '<' :: s).span (· != '<') = (t, '<' :: s) := by
  refine span_cons (fun c hc => ?_) (by decide) s
  simpa using fun h : c = '<' => ht (h ▸ hc)

theorem span_blank_lt {b : Text} (hb : Blank b) (s : Text) :
    (b ++ '<' :: s).span Text.isBlank = (b, '<' :: s) :=
  span_cons hb (by decide) s

theorem readContent?_eq_some_iff : readContent? d head s = some (r, rest) ↔ ∃ b textTag, Blank b ∧
    IsOpenTag d.textTag textTag ∧ r.head = head ++ b ++ textTag ∧ '<' ∉ r.text ∧
      (∃ b', Blank b' ∧ r.tail = ending d b') ∧ s = b ++ textTag ++ r.text ++ r.tail ++ rest := by
  constructor
  · intro h
    obtain ⟨b, s₁, hspan, hb, rfl⟩ := span_blank s
    simp only [readContent?, hspan, Option.bind_eq_bind, Option.bind_eq_some_iff, Prod.exists,
      List.isPrefixOf?_eq_some_iff_append_eq] at h
    obtain ⟨textTag, s₂, ho, h⟩ := h
    obtain ⟨htag, rfl⟩ := openTag_iff.1 ho
    obtain ⟨t, s₃, htext, ht, rfl⟩ := span_text s₂
    rw [htext] at h
    obtain ⟨s₄, rfl, h⟩ := h
    obtain ⟨b', s₅, hblank, hb', rfl⟩ := span_blank s₄
    rw [hblank] at h
    obtain ⟨s₆, rfl, h⟩ := h
    obtain ⟨rfl, rfl⟩ := Prod.mk.inj (Option.some.inj h)
    exact ⟨b, textTag, hb, htag, rfl, ht, ⟨b', hb', rfl⟩, by simp⟩
  · rintro ⟨b, textTag, hb, htag, hhead, htext, ⟨b', hb', htail⟩, rfl⟩
    obtain ⟨t, rfl⟩ := htag.cons
    have htag' : openTag d.textTag ('<' :: (d.textTag ++ t) ++
          (r.text ++ (closeTag d.textTag ++ (b' ++ (closeTag d.runTag ++ rest))))) =
        some ('<' :: (d.textTag ++ t), r.text ++ (closeTag d.textTag ++ (b' ++ (closeTag d.runTag ++ rest)))) :=
      openTag_iff.2 ⟨htag, rfl⟩
    have hblank := span_blank_lt hb (d.textTag ++ t ++
      (r.text ++ (closeTag d.textTag ++ (b' ++ (closeTag d.runTag ++ rest)))))
    have hspan := span_text_lt htext ('/' :: d.textTag ++ ['>'] ++ (b' ++ (closeTag d.runTag ++ rest)))
    have hblank' := span_blank_lt hb' ('/' :: d.runTag ++ ['>'] ++ rest)
    have hs : b ++ '<' :: (d.textTag ++ t) ++ r.text ++ r.tail ++ rest = b ++ '<' :: (d.textTag ++ t ++
        (r.text ++ (closeTag d.textTag ++ (b' ++ (closeTag d.runTag ++ rest))))) := by
      simp [htail, ending]
    simp only [readContent?, hs, hblank, Option.bind_eq_bind, Option.bind_eq_some_iff, Prod.exists,
      List.isPrefixOf?_eq_some_iff_append_eq]
    refine ⟨_, _, htag', b' ++ (closeTag d.runTag ++ rest), ?_, rest, ?_, ?_⟩
    · exact congrArg Prod.snd hspan.symm
    · exact congrArg Prod.snd hblank'.symm
    · have htext' : (List.span (· != '<') (r.text ++ (closeTag d.textTag ++ (b' ++ (closeTag d.runTag ++ rest))))).1 =
        r.text := congrArg Prod.fst hspan
      have hb'' : (List.span Text.isBlank (b' ++ (closeTag d.runTag ++ rest))).1 = b' := congrArg Prod.fst hblank'
      simp only [htext', hb'', ← hhead]
      rw [show closeTag d.textTag ++ b' ++ closeTag d.runTag = r.tail from htail.symm]
      rfl

theorem read?_spelled (h : read? d s = some (r, rest)) : r.Spelled d ∧ s = r.markup ++ rest := by
  simp only [read?, Option.bind_eq_bind, Option.bind_eq_some_iff, Prod.exists] at h
  obtain ⟨runTag, s₁, ho, h⟩ := h
  obtain ⟨hrun, rfl⟩ := openTag_iff.1 ho
  obtain ⟨b, s₂, hspan, hb, rfl⟩ := span_blank s₁
  rw [hspan] at h
  obtain ⟨⟨props, s₃⟩, hmem, h⟩ := List.exists_of_findSome?_eq_some h
  obtain ⟨hprops, rfl⟩ := mem_readsProps_iff.1 hmem
  obtain ⟨b', textTag, hb', htag, hhead, htext, htail, rfl⟩ := readContent?_eq_some_iff.1 h
  refine ⟨⟨⟨runTag, b, props, b', textTag, hrun, hb, hprops, hb', htag, by simp [hhead]⟩, htext, htail⟩, ?_⟩
  simp [markup, hhead]

theorem Spelled.length_head_lt (h : r.Spelled d) : r.head.length < r.markup.length := by
  obtain ⟨b, -, htail⟩ := h.tail
  simp only [markup, htail, ending, closeTag_eq, List.length_append, List.length_cons]
  omega

/-- A text begins with one run at most. -/
theorem Spelled.inj {q : TextRun} {rest' : Text} (hq : q.Spelled d) (hr : r.Spelled d)
    (h : q.markup ++ rest' = r.markup ++ rest) : q = r ∧ rest' = rest := by
  rcases hq.seam hr (v := []) h with ⟨x, hx⟩ | ⟨hhead, htext, htail, hrest⟩
  · rcases hr.seam hq (v := []) h.symm with ⟨x', hx'⟩ | ⟨hhead, -⟩
    · have hlen := congrArg List.length hx
      have hlen' := congrArg List.length hx'
      have := hq.length_head_lt
      have := hr.length_head_lt
      simp only [List.nil_append, List.length_append] at hlen hlen'
      omega
    · have hlen := congrArg List.length hx
      have := hq.length_head_lt
      simp only [List.nil_append, List.length_append, hhead] at hlen this
      omega
  · cases q
    cases r
    exact ⟨by simp_all, hrest⟩

theorem read?_isSome {runTag b props t s' : Text} (hrun : IsOpenTag d.runTag runTag) (hb : Blank b)
    (hprops : PropsSpelled d props) (ht : '<' :: t = props ++ s')
    (h : (readContent? d (runTag ++ b ++ props) s').isSome) : (read? d (runTag ++ b ++ '<' :: t)).isSome := by
  have ho : openTag d.runTag (runTag ++ (b ++ '<' :: t)) = some (runTag, b ++ '<' :: t) :=
    openTag_iff.2 ⟨hrun, rfl⟩
  have hmem := (mem_readsProps_iff (d := d)).2 ⟨hprops, ht⟩
  simp only [read?, List.append_assoc runTag, ho, Option.bind_eq_bind, Option.bind_some, span_blank_lt hb]
  exact List.findSome?_isSome_iff.2 ⟨(props, s'), hmem, by simpa using h⟩

theorem Spelled.read?_isSome (hr : r.Spelled d) (rest : Text) : (read? d (r.markup ++ rest)).isSome := by
  obtain ⟨runTag, b, props, b', textTag, hrun, hb, hprops, hb', htag, hhead⟩ := hr.head
  obtain ⟨t, ht⟩ := htag.cons
  by_cases hne : props = []
  · have hcontent : readContent? d (runTag ++ (b ++ b') ++ []) ([] ++ textTag ++ r.text ++ r.tail ++ rest) =
        some (r, rest) := readContent?_eq_some_iff.2
      ⟨[], textTag, by simp [Blank], htag, by simp [hhead, hne], hr.text, hr.tail, rfl⟩
    have hsome := TextRun.read?_isSome hrun (hb.append hb') .none (t := d.textTag ++ t ++ r.text ++ r.tail ++ rest)
      (by simp [ht]) (Option.isSome_iff_exists.2 ⟨_, hcontent⟩)
    simpa [markup, hhead, hne, ht] using hsome
  · obtain ⟨u, rfl⟩ := hprops.cons hne
    have hcontent : readContent? d (runTag ++ b ++ '<' :: u) (b' ++ textTag ++ r.text ++ r.tail ++ rest) =
        some (r, rest) := readContent?_eq_some_iff.2
      ⟨b', textTag, hb', htag, by simp [hhead], hr.text, hr.tail, rfl⟩
    have hsome := TextRun.read?_isSome hrun hb hprops (t := u ++ b' ++ textTag ++ r.text ++ r.tail ++ rest)
      (by simp) (Option.isSome_iff_exists.2 ⟨_, hcontent⟩)
    simpa [markup, hhead] using hsome

/-- A run is read where a text begins with one, as it is spelled. -/
theorem read?_eq_some_iff : read? d s = some (r, rest) ↔ r.Spelled d ∧ s = r.markup ++ rest := by
  refine ⟨read?_spelled, ?_⟩
  rintro ⟨hr, rfl⟩
  obtain ⟨⟨q, rest'⟩, h⟩ := Option.isSome_iff_exists.1 (hr.read?_isSome rest)
  obtain ⟨hq, heq⟩ := read?_spelled h
  obtain ⟨rfl, rfl⟩ := hq.inj hr heq.symm
  exact h

theorem Spelled.read?_markup (h : r.Spelled d) (rest : Text) : read? d (r.markup ++ rest) = some (r, rest) :=
  read?_eq_some_iff.2 ⟨h, rfl⟩

theorem read?_advances (d : Dialect) : (read? d).Advances := by
  intro s r rest h
  obtain ⟨hr, rfl⟩ := read?_spelled h
  have := hr.length_head_lt
  simp only [List.length_append]
  omega

end DeckMerge.Run.TextRun
