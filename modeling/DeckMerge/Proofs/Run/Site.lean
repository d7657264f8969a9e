import DeckMerge.Proofs.Run.Tag
import DeckMerge.Run.Site

/-!
Taking a run apart. The pieces of a site are the text, so writing them again loses nothing; and a run
that is written plainly, with properties that read as such, is found as it is written.
-/

namespace DeckMerge.Run

namespace Dialect

theorem notMem_runTag (d : Dialect) : '>' ∉ d.runTag := by cases d <;> decide

theorem notMem_textTag (d : Dialect) : '>' ∉ d.textTag := by cases d <;> decide

theorem notMem_propsTag (d : Dialect) : '>' ∉ d.propsTag := by cases d <;> decide

end Dialect

namespace Site

variable {d : Dialect} {before after body inside head tag s a rest : Text} {r : Site}

/-! ### Properties -/

theorem properties_of_emptyTag (h : emptyTag tag s = some (a, rest)) :
    properties tag s = some (a, rest) := by
  rw [properties, h]

theorem properties_eq_some_iff (h : emptyTag tag s = none) : properties tag s = some (a, rest) ↔
    ∃ inner content t, Attributes inner ∧ s = '<' :: tag ++ inner ++ '>' :: t ∧
      Text.breakOn? (closeTag tag) t = some (content, rest) ∧
      a = '<' :: tag ++ inner ++ ['>'] ++ content ++ closeTag tag := by
  simp only [properties, h, Option.bind_eq_bind, Option.bind_eq_some_iff,
    List.isPrefixOf?_eq_some_iff_append_eq, Prod.exists, readAttributes?_eq_some_iff]
  constructor
  · rintro ⟨u, rfl, inner, t, ⟨hinner, rfl⟩, content, rest', hbreak, heq⟩
    obtain ⟨rfl, rfl⟩ := Prod.mk.inj (Option.some.inj heq)
    exact ⟨inner, content, t, hinner, by simp, hbreak, rfl⟩
  · rintro ⟨inner, content, t, hinner, rfl, hbreak, rfl⟩
    exact ⟨inner ++ '>' :: t, by simp, inner, t, ⟨hinner, rfl⟩, content, rest, hbreak, rfl⟩

theorem properties_verbatim (tag : Text) : (properties tag).Verbatim := by
  intro s a rest h
  cases he : emptyTag tag s with
  | some p =>
    obtain ⟨a', rest'⟩ := p
    rw [properties_of_emptyTag he] at h
    obtain ⟨rfl, rfl⟩ := Prod.mk.inj (Option.some.inj h)
    obtain ⟨attrs, -, -, rfl⟩ := emptyTag_eq_some_iff.1 he
    rfl
  | none =>
    obtain ⟨inner, content, t, -, rfl, hbreak, rfl⟩ := (properties_eq_some_iff he).1 h
    rw [Text.eq_append_of_breakOn? (closeTag_ne_nil tag) hbreak]
    simp

/-! ### Locating -/

/-- What the run around a place is made of: the last run that begins before the place and does not end
there, up to its end behind the place; and in it the last text that begins before the place. -/
structure Located (d : Dialect) (before after : Text) (r : Site) (body inside head : Text) : Prop where
  run : (openTag d.runTag).findLast? before = some (r.preceding, r.runOpen, body)
  run_open : ¬ closeTag d.runTag <:+: body
  run_end : Text.breakOn? (closeTag d.runTag) after = some (inside, r.following)
  no_run : (openTag d.runTag).find? inside = none
  text : (openTag d.textTag).findLast? body = some (head, r.textOpen, r.textBefore)
  text_open : ¬ closeTag d.textTag <:+: r.textBefore
  text_end : Text.breakOn? (closeTag d.textTag) inside = some (r.textAfter, r.tail)
  props : ((properties d.propsTag).find? head).getD (head, [], []) =
    (r.headBefore, r.props, r.headAfter)
  dialect : r.dialect = d

theorem locate_eq_ok_iff :
    locate d before after = .ok r ↔ ∃ body inside head, Located d before after r body inside head := by
  constructor
  · intro h
    simp only [locate] at h
    split at h
    case h_1 => simp at h
    case h_2 preceding runOpen body hrun =>
    split at h
    case isTrue => simp at h
    case isFalse hrunOpen =>
    split at h
    case h_1 => simp at h
    case h_2 inside following hrunEnd =>
    split at h
    case isTrue => simp at h
    case isFalse hnoRun =>
    split at h
    case h_1 => simp at h
    case h_2 head textOpen textBefore htext =>
    split at h
    case isTrue => simp at h
    case isFalse htextOpen =>
    split at h
    case h_1 => simp at h
    case h_2 textAfter tail htextEnd =>
    obtain rfl := Except.ok.inj h
    rw [Text.holds_iff] at hrunOpen htextOpen
    exact ⟨body, inside, head, hrun, hrunOpen, hrunEnd, by simpa using hnoRun, htext, htextOpen,
      htextEnd, rfl, rfl⟩
  · rintro ⟨body, inside, head, h⟩
    obtain rfl := h.dialect
    have hrunOpen : body.holds (closeTag r.dialect.runTag) = false := by
      simpa [← Text.holds_iff] using h.run_open
    have htextOpen : r.textBefore.holds (closeTag r.dialect.textTag) = false := by
      simpa [← Text.holds_iff] using h.text_open
    simp only [locate, h.run, hrunOpen, h.run_end, h.no_run, h.text, htextOpen, h.text_end, h.props,
      Option.isSome_none, Bool.false_eq_true, if_false]

namespace Located

theorem head_eq (h : Located d before after r body inside head) :
    head = r.headBefore ++ r.props ++ r.headAfter := by
  have hp := h.props
  cases hf : (properties d.propsTag).find? head with
  | none =>
    rw [hf] at hp
    obtain ⟨hbefore, hprops, hafter⟩ : head = r.headBefore ∧ [] = r.props ∧ [] = r.headAfter := by
      simpa using hp
    simp [← hbefore, ← hprops, ← hafter]
  | some p =>
    rw [hf] at hp
    obtain rfl : p = (r.headBefore, r.props, r.headAfter) := hp
    exact (properties_verbatim d.propsTag).find? hf

theorem length_props_le (h : Located d before after r body inside head) :
    r.props.length ≤ head.length := by
  rw [h.head_eq]
  simp only [List.length_append]
  omega

theorem props_eq_head (h : Located d before after r body inside head)
    (hlen : r.props.length = head.length) :
    r.headBefore = [] ∧ r.props = head ∧ r.headAfter = [] := by
  have hhead := h.head_eq
  have hsum := congrArg List.length hhead
  simp only [List.length_append] at hsum
  have hbefore : r.headBefore = [] := List.length_eq_zero_iff.1 (by omega)
  have hafter : r.headAfter = [] := List.length_eq_zero_iff.1 (by omega)
  exact ⟨hbefore, by rw [hhead, hbefore, hafter]; simp, hafter⟩

theorem body_eq (h : Located d before after r body inside head) :
    body = head ++ r.textOpen ++ r.textBefore :=
  (openTag_verbatim d.textTag).findLast? (openTag_advances d.textTag) h.text

theorem before_eq (h : Located d before after r body inside head) :
    before = r.preceding ++ r.runOpen ++ r.headBefore ++ r.props ++ r.headAfter ++ r.textOpen
      ++ r.textBefore := by
  have hrun := (openTag_verbatim d.runTag).findLast? (openTag_advances d.runTag) h.run
  simp [hrun, h.body_eq, h.head_eq]

/-- What follows the place is the rest of the run and what follows the run. -/
theorem after_eq (h : Located d before after r body inside head) :
    after = r.rest ++ r.following := by
  obtain rfl := h.dialect
  have hrun := Text.eq_append_of_breakOn? (closeTag_ne_nil _) h.run_end
  have htext := Text.eq_append_of_breakOn? (closeTag_ne_nil _) h.text_end
  simp [hrun, htext, Site.rest]

end Located

end Site

end DeckMerge.Run
