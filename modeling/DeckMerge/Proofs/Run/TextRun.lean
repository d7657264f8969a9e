import DeckMerge.Proofs.Run.Site
import DeckMerge.Run.Joining

/-!
How runs of properties and one text are spelled. Such a run is read in one way, whatever follows it, and
whether one is read at a place does not depend on the text in a run further on.
-/

namespace DeckMerge.Run

variable {d : Dialect} {tag a s t u w x y z rest rest' b : Text} {c : Char}

/-! ### Cutting at a character -/

theorem append_of_notMem (hx : c ∉ x) (h : x ++ s = y ++ c :: t) : ∃ z, y = x ++ z ∧ s = z ++ c :: t := by
  rcases List.append_eq_append_iff.1 h with ⟨z, rfl, hs⟩ | ⟨z, rfl, hz⟩
  · exact ⟨z, rfl, hs⟩
  · cases z with
    | nil => exact ⟨[], by simp, by simpa using hz.symm⟩
    | cons c' z =>
      obtain ⟨rfl, -⟩ := List.cons.inj hz
      simp at hx

theorem cons_append_of_notMem (hx : c ∉ x) (h : x ++ c :: s = y ++ c :: t) :
    (y = x ∧ s = t) ∨ ∃ z, y = x ++ c :: z ∧ s = z ++ c :: t := by
  obtain ⟨z, rfl, hz⟩ := append_of_notMem hx h
  cases z with
  | nil => exact .inl ⟨by simp, (List.cons.inj hz).2⟩
  | cons c' z =>
    obtain ⟨rfl, rfl⟩ := List.cons.inj hz
    exact .inr ⟨z, rfl, rfl⟩

theorem span_cons {p : Char → Bool} (hx : ∀ c' ∈ x, p c') (hc : p c = false) (s : Text) :
    (x ++ c :: s).span p = (x, c :: s) := by
  rw [List.span_eq_takeWhile_dropWhile, List.takeWhile_append_of_pos hx,
    List.dropWhile_append_of_pos hx]
  simp [hc]

/-! ### Spellings -/

def Blank (s : Text) : Prop := ∀ c ∈ s, Text.isBlank c

theorem Blank.notMem (h : Blank b) (hc : Text.isBlank c = false) : c ∉ b :=
  fun hmem => by simpa [hc] using h c hmem

theorem Blank.append (hb : Blank b) (hs : Blank s) : Blank (b ++ s) := by
  intro c hc
  exact (List.mem_append.1 hc).elim (hb c) (hs c)

def IsOpenTag (tag a : Text) : Prop :=
  ∃ inner, Attributes inner ∧ inner.getLast? ≠ some '/' ∧ a = '<' :: tag ++ inner ++ ['>']

def IsEmptyTag (tag a : Text) : Prop :=
  ∃ attrs, Attributes attrs ∧ a = '<' :: tag ++ attrs ++ ['/', '>']

theorem openTag_iff : openTag tag s = some (a, rest) ↔ IsOpenTag tag a ∧ s = a ++ rest := by
  rw [openTag_eq_some_iff]
  constructor
  · rintro ⟨inner, hinner, hlast, ha, hs⟩
    exact ⟨⟨inner, hinner, hlast, ha⟩, hs⟩
  · rintro ⟨⟨inner, hinner, hlast, ha⟩, hs⟩
    exact ⟨inner, hinner, hlast, ha, hs⟩

theorem emptyTag_iff : emptyTag tag s = some (a, rest) ↔ IsEmptyTag tag a ∧ s = a ++ rest := by
  rw [emptyTag_eq_some_iff]
  constructor
  · rintro ⟨attrs, hattrs, ha, hs⟩
    exact ⟨⟨attrs, hattrs, ha⟩, hs⟩
  · rintro ⟨⟨attrs, hattrs, ha⟩, hs⟩
    exact ⟨attrs, hattrs, ha, hs⟩

/-- The first bracket of the text is its end. -/
def Bracketed (a : Text) : Prop := ∃ p, '>' ∉ p ∧ a = p ++ ['>']

theorem IsOpenTag.bracketed (htag : '>' ∉ tag) (h : IsOpenTag tag a) : Bracketed a := by
  obtain ⟨inner, hinner, -, rfl⟩ := h
  have := hinner.notMem
  exact ⟨'<' :: tag ++ inner, by simp_all, rfl⟩

theorem IsEmptyTag.bracketed (htag : '>' ∉ tag) (h : IsEmptyTag tag a) : Bracketed a := by
  obtain ⟨attrs, hattrs, rfl⟩ := h
  have := hattrs.notMem
  exact ⟨'<' :: tag ++ attrs ++ ['/'], by simp_all, by simp⟩

theorem bracketed_closeTag (htag : '>' ∉ tag) : Bracketed (closeTag tag) :=
  ⟨'<' :: '/' :: tag, by simp [htag], rfl⟩

/-- What ends at the first bracket lies in a text that has one. -/
theorem Bracketed.within (ha : Bracketed a) (hw : '>' ∈ w) (h : a ++ x = w ++ y) :
    ∃ z, w = a ++ z ∧ x = z ++ y := by
  obtain ⟨p, hp, rfl⟩ := ha
  obtain ⟨p', z, rfl, hp'⟩ := List.eq_append_cons_of_mem hw
  obtain ⟨rfl, rfl⟩ := bracket_inj hp hp' (s := x) (t := z ++ y) (by simpa using h)
  exact ⟨z, by simp, rfl⟩

/-- The properties of a run as they may be spelled. -/
inductive PropsSpelled (d : Dialect) : Text → Prop
  | none : PropsSpelled d []
  | empty {a : Text} : IsEmptyTag d.propsTag a → PropsSpelled d a
  | full {a content : Text} : IsOpenTag d.propsTag a → ¬ closeTag d.runTag <:+: content →
    PropsSpelled d (a ++ content ++ closeTag d.propsTag)

namespace TextRun

/-- What comes before the text of a run: its tag, properties and the tag of the text. -/
def HeadSpelled (d : Dialect) (head : Text) : Prop :=
  ∃ runTag blanks props blanks' textTag, IsOpenTag d.runTag runTag ∧ Blank blanks ∧
    PropsSpelled d props ∧ Blank blanks' ∧ IsOpenTag d.textTag textTag ∧
    head = runTag ++ blanks ++ props ++ blanks' ++ textTag

def ending (d : Dialect) (blanks : Text) : Text :=
  closeTag d.textTag ++ blanks ++ closeTag d.runTag

/-- A run as it may be spelled, around a text without tags. -/
structure Spelled (d : Dialect) (r : TextRun) : Prop where
  head : HeadSpelled d r.head
  text : '<' ∉ r.text
  tail : ∃ blanks, Blank blanks ∧ r.tail = ending d blanks

theorem ending_eq (d : Dialect) (b : Text) : ending d b = '<' :: ('/' :: d.textTag ++ ['>'] ++ b) ++
    '<' :: ('/' :: d.runTag ++ ['>']) := by
  simp [ending, closeTag_eq]

end TextRun

/-! ### A text that goes on with the text and the end of a run -/

section Seam

open TextRun

/-- Behind the front of a run, a text goes on with the run's text and its end. -/
def GoesOn (d : Dialect) (y : Text) : Prop :=
  ∃ t b rest, '<' ∉ t ∧ Blank b ∧ y = t ++ ending d b ++ rest

theorem Dialect.lt_notMem_textEnd (d : Dialect) (hb : Blank b) : '<' ∉ '/' :: d.textTag ++ ['>'] ++ b := by
  have := hb.notMem (show Text.isBlank '<' = false by decide)
  cases d <;> simp_all [Dialect.textTag]

theorem Dialect.lt_notMem_runEnd (d : Dialect) : '<' ∉ '/' :: d.runTag ++ ['>'] := by
  cases d <;> decide

/-- Blanks before a tag that closes nothing lie in what comes before the run's text. -/
theorem GoesOn.blanks (hy : GoesOn d y) (hw : w ≠ [] → '>' ∈ w) (hb : Blank b) (hc : c ≠ '/')
    (h : b ++ '<' :: c :: x = w ++ y) : ∃ z, z ≠ [] ∧ w = b ++ z ∧ '<' :: c :: x = z ++ y := by
  by_cases hnil : w = []
  · obtain ⟨t, b', rest, ht, hb', rfl⟩ := hy
    have h' : b ++ '<' :: c :: x = t ++ '<' :: ('/' :: d.textTag ++ ['>'] ++ b' ++
        '<' :: ('/' :: d.runTag ++ ['>']) ++ rest) := by
      simpa [hnil, ending_eq] using h
    rcases cons_append_of_notMem (hb.notMem (show Text.isBlank '<' = false by decide)) h' with ⟨-, heq⟩ | ⟨z, rfl, -⟩
    · exact absurd (List.cons.inj heq).1 hc
    · simp at ht
  · obtain ⟨w₀, w₁, rfl⟩ := List.append_of_mem (hw hnil)
    obtain ⟨z, rfl, hz⟩ := append_of_notMem (t := w₁ ++ y) (hb.notMem (show Text.isBlank '>' = false by decide))
      (by simpa using h)
    exact ⟨z ++ '>' :: w₁, by simp, by simp, by simpa using hz⟩

theorem Dialect.propsEnd_ne (d : Dialect) (s t : Text) :
    '/' :: d.propsTag ++ ['>'] ++ s ≠ '/' :: d.textTag ++ ['>'] ++ t := by
  cases d <;> simp [Dialect.propsTag, Dialect.textTag]

theorem Dialect.propsEnd_ne_runEnd (d : Dialect) (s t : Text) :
    '/' :: d.propsTag ++ ['>'] ++ s ≠ '/' :: d.runTag ++ ['>'] ++ t := by
  cases d <;> simp [Dialect.propsTag, Dialect.runTag]

/-- Properties end before the run does, so they lie in what comes before the run's text. -/
theorem GoesOn.content {content : Text} (hy : GoesOn d y) (hw : ∀ z, z ≠ [] → z <:+ w → '>' ∈ z)
    (hcontent : ¬ closeTag d.runTag <:+: content) (h : content ++ closeTag d.propsTag ++ x = w ++ y) :
    ∃ z, w = content ++ closeTag d.propsTag ++ z ∧ x = z ++ y := by
  rw [List.append_assoc] at h
  rcases List.append_eq_append_iff.1 h with ⟨v, rfl, hv⟩ | ⟨v, rfl, hv⟩
  · by_cases hnil : v = []
    · obtain ⟨t, b, rest, ht, hb, rfl⟩ := hy
      have hv' : t ++ '<' :: ('/' :: d.textTag ++ ['>'] ++ (b ++ '<' :: ('/' :: d.runTag ++ ['>']) ++ rest)) =
          [] ++ '<' :: ('/' :: d.propsTag ++ ['>'] ++ x) := by
        simpa [hnil, ending_eq, closeTag_eq] using hv.symm
      rcases cons_append_of_notMem ht hv' with ⟨-, heq⟩ | ⟨z, hz, -⟩
      · exact absurd heq.symm (d.propsEnd_ne _ _)
      · simp at hz
    · obtain ⟨z, rfl, hz⟩ := (bracketed_closeTag d.notMem_propsTag).within
        (hw v hnil (List.suffix_append _ _)) hv
      exact ⟨z, by simp, hz⟩
  · -- the content would reach over the end of the run
    obtain ⟨t, b, rest, ht, hb, rfl⟩ := hy
    have hv₁ : t ++ '<' :: ('/' :: d.textTag ++ ['>'] ++ b ++ '<' :: ('/' :: d.runTag ++ ['>'] ++ rest)) =
        v ++ '<' :: ('/' :: d.propsTag ++ ['>'] ++ x) := by
      simpa [ending_eq, closeTag_eq] using hv
    rcases cons_append_of_notMem ht hv₁ with ⟨-, heq⟩ | ⟨v₁, rfl, hv₂⟩
    · exact absurd (heq.symm.trans (by simp)) (d.propsEnd_ne x (b ++ '<' :: ('/' :: d.runTag ++ ['>'] ++ rest)))
    rcases cons_append_of_notMem (d.lt_notMem_textEnd hb) hv₂ with ⟨-, heq⟩ | ⟨v₂, rfl, hv₃⟩
    · exact absurd heq.symm (d.propsEnd_ne_runEnd _ _)
    obtain ⟨v₃, rfl, -⟩ := append_of_notMem d.lt_notMem_runEnd hv₃
    refine absurd ⟨w ++ (t ++ '<' :: ('/' :: d.textTag ++ ['>'] ++ b)), v₃, ?_⟩ hcontent
    simp [closeTag_eq]

theorem Dialect.textTag_cons (d : Dialect) : ∃ c t, d.textTag = c :: t ∧ c ≠ '/' := by
  cases d <;> exact ⟨_, _, rfl, by decide⟩

theorem Dialect.propsTag_cons (d : Dialect) : ∃ c t, d.propsTag = c :: t ∧ c ≠ '/' := by
  cases d <;> exact ⟨_, _, rfl, by decide⟩

theorem IsOpenTag.cons (h : IsOpenTag tag a) : ∃ t, a = '<' :: (tag ++ t) := by
  obtain ⟨inner, -, -, rfl⟩ := h
  exact ⟨inner ++ ['>'], by simp⟩

theorem IsEmptyTag.cons (h : IsEmptyTag tag a) : ∃ t, a = '<' :: (tag ++ t) := by
  obtain ⟨attrs, -, rfl⟩ := h
  exact ⟨attrs ++ ['/', '>'], by simp⟩

theorem PropsSpelled.cons {props : Text} (h : PropsSpelled d props) (hne : props ≠ []) :
    ∃ t, props = '<' :: t := by
  cases h with
  | none => exact absurd rfl hne
  | empty ha =>
    obtain ⟨t, rfl⟩ := ha.cons
    exact ⟨_, rfl⟩
  | full ha hcontent =>
    obtain ⟨t, rfl⟩ := ha.cons
    exact ⟨_, rfl⟩

/-- Blanks and a tag that stand before the text of a run. -/
theorem GoesOn.blanksTag {tag' : Text} (hy : GoesOn d y) (hw : ∀ z, z ≠ [] → z <:+ w → '>' ∈ z)
    (hb : Blank b) (ha : Bracketed a) (hcons : ∃ c t t', tag' = c :: t ∧ c ≠ '/' ∧ a = '<' :: (tag' ++ t'))
    (h : b ++ a ++ x = w ++ y) : ∃ z, w = b ++ a ++ z ∧ x = z ++ y := by
  obtain ⟨c, t, t', rfl, hc, rfl⟩ := hcons
  obtain ⟨z, hz, rfl, hrest⟩ := hy.blanks (hw w · (List.suffix_refl w)) hb hc (x := t ++ t' ++ x)
    (by simpa using h)
  obtain ⟨z', rfl, hx⟩ := ha.within (hw z hz (List.suffix_append _ _)) (x := x) (by simpa using hrest)
  exact ⟨z', by simp, hx⟩

/-- Blanks and properties, if any, that stand before the text of a run. -/
theorem GoesOn.props {props : Text} (hy : GoesOn d y) (hw : ∀ z, z ≠ [] → z <:+ w → '>' ∈ z)
    (hb : Blank b) (hprops : PropsSpelled d props) (hne : props ≠ []) (h : b ++ props ++ x = w ++ y) :
    ∃ z, w = b ++ props ++ z ∧ x = z ++ y := by
  obtain ⟨c, t, hcons, hc⟩ := d.propsTag_cons
  cases hprops with
  | none => exact absurd rfl hne
  | empty ha =>
    obtain ⟨t', ha'⟩ := ha.cons
    exact hy.blanksTag hw hb (ha.bracketed d.notMem_propsTag) ⟨c, t, t', hcons, hc, ha'⟩ h
  | @full a content ha hcontent =>
    obtain ⟨t', ha'⟩ := ha.cons
    obtain ⟨z, rfl, hz⟩ := hy.blanksTag hw hb (ha.bracketed d.notMem_propsTag) ⟨c, t, t', hcons, hc, ha'⟩
      (x := content ++ closeTag d.propsTag ++ x) (by simpa using h)
    obtain ⟨z', rfl, hx⟩ := hy.content (fun v hv hs => hw v hv (hs.trans (List.suffix_append _ _)))
      hcontent hz
    exact ⟨z', by simp, hx⟩

/-- The front of a run that begins before the front of another lies in what comes before the other's text. -/
theorem GoesOn.head {head : Text} (hy : GoesOn d y) (hw : ∀ z, z ≠ [] → z <:+ w → '>' ∈ z) (hne : w ≠ [])
    (hhead : HeadSpelled d head) (h : head ++ x = w ++ y) : ∃ z, w = head ++ z ∧ x = z ++ y := by
  obtain ⟨runTag, blanks, props, blanks', textTag, hrun, hblanks, hprops, hblanks', htext, rfl⟩ := hhead
  obtain ⟨c, t, hcons, hc⟩ := d.textTag_cons
  obtain ⟨t', htext'⟩ := htext.cons
  have hbracketed := htext.bracketed d.notMem_textTag
  obtain ⟨z₁, rfl, h₁⟩ := (hrun.bracketed d.notMem_runTag).within (hw w hne (List.suffix_refl w))
    (x := blanks ++ props ++ (blanks' ++ textTag ++ x)) (by simpa using h)
  have hw₁ : ∀ z, z ≠ [] → z <:+ z₁ → '>' ∈ z :=
    fun z hz hs => hw z hz (hs.trans (List.suffix_append _ _))
  by_cases hnone : props = []
  · obtain ⟨z₂, rfl, h₂⟩ := hy.blanksTag hw₁ (hblanks.append hblanks') hbracketed
      ⟨c, t, t', hcons, hc, htext'⟩ (x := x) (by simpa [hnone] using h₁)
    exact ⟨z₂, by simp [hnone], h₂⟩
  · obtain ⟨z₂, rfl, h₂⟩ := hy.props hw₁ hblanks hprops hnone h₁
    obtain ⟨z₃, rfl, h₃⟩ := hy.blanksTag (fun z hz hs => hw₁ z hz (hs.trans (List.suffix_append _ _)))
      hblanks' hbracketed ⟨c, t, t', hcons, hc, htext'⟩ h₂
    exact ⟨z₃, by simp, h₃⟩

end Seam

namespace TextRun

variable {q r : TextRun} {v : Text}

theorem Spelled.goesOn (h : r.Spelled d) (rest : Text) : GoesOn d (r.text ++ r.tail ++ rest) := by
  obtain ⟨b, hb, htail⟩ := h.tail
  exact ⟨r.text, b, rest, h.text, hb, by rw [htail]⟩

/-- The front of a run ends with the tag of the text. -/
theorem HeadSpelled.eq_append {head : Text} (h : HeadSpelled d head) :
    ∃ x textTag, IsOpenTag d.textTag textTag ∧ head = x ++ textTag := by
  obtain ⟨_, _, _, _, textTag, _, _, _, _, htext, rfl⟩ := h
  exact ⟨_, textTag, htext, rfl⟩

theorem HeadSpelled.ne_nil {head : Text} (h : HeadSpelled d head) : head ≠ [] := by
  obtain ⟨x, textTag, htext, rfl⟩ := h.eq_append
  obtain ⟨t, rfl⟩ := htext.cons
  simp

theorem HeadSpelled.bracket_mem {head z : Text} (h : HeadSpelled d head) (v : Text) (hz : z ≠ [])
    (hs : z <:+ v ++ head) : '>' ∈ z := by
  obtain ⟨x, textTag, ⟨inner, -, -, rfl⟩, rfl⟩ := h.eq_append
  obtain ⟨u, hu⟩ := hs
  obtain ⟨z', c, rfl⟩ := List.eq_nil_or_concat z |>.resolve_left hz
  have hlast : (u ++ z') ++ [c] = (v ++ x ++ '<' :: d.textTag ++ inner) ++ ['>'] := by simpa using hu
  obtain ⟨-, hc⟩ := List.append_inj' hlast rfl
  obtain rfl := (List.cons.inj hc).1
  simp

/-- The front of a run does not end inside the tag of a text. -/
theorem HeadSpelled.tag_suffix {head z : Text} (h : HeadSpelled d head) (ha : IsOpenTag d.textTag a)
    (hz : z ≠ []) (heq : head ++ z = x ++ a) : ∃ z', z = z' ++ a := by
  rcases List.append_eq_append_iff.1 heq with ⟨z', -, rfl⟩ | ⟨p, rfl, rfl⟩
  · exact ⟨z', rfl⟩
  · by_cases hp : p = []
    · exact ⟨[], by simp [hp]⟩
    · obtain ⟨w, -, hw⟩ := (ha.bracketed d.notMem_textTag).within (h.bracket_mem [] hp (List.suffix_append x p))
        (x := []) (List.append_nil _)
      exact absurd (List.append_eq_nil_iff.1 hw.symm).2 hz

/-- A run that ends before the text of another ends before the tag of that text. -/
theorem Spelled.text_tail {z : Text} (hq : q.Spelled d) (ha : IsOpenTag d.textTag a)
    (h : q.text ++ q.tail ++ rest' = z ++ a ++ y) : ∃ z', z = q.text ++ q.tail ++ z' := by
  obtain ⟨b, hb, htail⟩ := hq.tail
  obtain ⟨t', rfl⟩ := ha.cons
  obtain ⟨c, t, htag, hc⟩ := d.textTag_cons
  have h₁ : q.text ++ '<' :: ('/' :: d.textTag ++ ['>'] ++ b ++ '<' :: ('/' :: d.runTag ++ ['>'] ++ rest')) =
      z ++ '<' :: c :: (t ++ t' ++ y) := by
    simpa [htail, ending_eq, htag] using h
  rcases cons_append_of_notMem hq.text h₁ with ⟨-, heq⟩ | ⟨z₁, rfl, h₂⟩
  · exact absurd (List.cons.inj heq).1.symm hc
  rcases cons_append_of_notMem (d.lt_notMem_textEnd hb) h₂ with ⟨-, heq⟩ | ⟨z₂, rfl, h₃⟩
  · exact absurd (List.cons.inj heq).1.symm hc
  obtain ⟨z₃, rfl, -⟩ := append_of_notMem d.lt_notMem_runEnd h₃
  exact ⟨z₃, by simp [htail, ending_eq]⟩

/-- A run read before the text of another run or at its front: it ends before that text, or it is that
run with more before it. -/
theorem Spelled.seam (hq : q.Spelled d) (hr : r.Spelled d) (h : q.markup ++ rest' = v ++ r.markup ++ rest) :
    (∃ x, v ++ r.head = q.markup ++ x) ∨
      q.head = v ++ r.head ∧ q.text = r.text ∧ q.tail = r.tail ∧ rest' = rest := by
  obtain ⟨z, hz, hrest⟩ := (hr.goesOn rest).head (w := v ++ r.head)
    (fun z hz hs => hr.head.bracket_mem v hz hs) (by simp [hr.head.ne_nil]) hq.head
    (x := q.text ++ q.tail ++ rest') (by simpa [markup] using h)
  obtain ⟨x, textTag, htext, hhead⟩ := hr.head.eq_append
  by_cases hnil : z = []
  · right
    obtain ⟨b, hb, htail⟩ := hq.tail
    obtain ⟨b', hb', htail'⟩ := hr.tail
    have h₁ : q.text ++ '<' :: ('/' :: d.textTag ++ ['>'] ++ b ++ '<' :: ('/' :: d.runTag ++ ['>'] ++ rest')) =
        r.text ++ '<' :: ('/' :: d.textTag ++ ['>'] ++ b' ++ '<' :: ('/' :: d.runTag ++ ['>'] ++ rest)) := by
      simpa [hnil, htail, htail', ending_eq] using hrest
    rcases cons_append_of_notMem hq.text h₁ with ⟨htexts, h₂⟩ | ⟨z', hz', -⟩
    · rcases cons_append_of_notMem (d.lt_notMem_textEnd hb) h₂ with ⟨hb'', h₃⟩ | ⟨z', hz', -⟩
      · obtain rfl : b' = b := List.append_cancel_left hb''
        exact ⟨by simpa [hnil] using hz.symm, htexts.symm, by rw [htail, htail'],
          List.append_cancel_left h₃⟩
      · exact absurd (hz' ▸ d.lt_notMem_textEnd hb') (by simp)
    · exact absurd (hz' ▸ hr.text) (by simp)
  · left
    obtain ⟨z', rfl⟩ := hq.head.tag_suffix htext hnil (x := v ++ x) (by simpa [hhead] using hz.symm)
    obtain ⟨z'', rfl⟩ := hq.text_tail htext (y := r.text ++ r.tail ++ rest) (by simpa using hrest)
    exact ⟨z'' ++ textTag, by simpa [markup] using hz⟩

end TextRun

end DeckMerge.Run
