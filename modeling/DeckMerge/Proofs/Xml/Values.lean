import DeckMerge.Markup.Line
import DeckMerge.Proofs.Markup.Escape
import DeckMerge.Proofs.Xml.Encoding

/-!
Values in documents. A needle that stands in data alone is replaced by escaped values there, and the text
reads as the document with the values in its place, unless some data hold the end of a section then.
-/

namespace DeckMerge.Xml

open Text (OneLine replace withLineFeeds)

variable {s t v x y needle : Text} {e : Encoding} {ps : List Piece} {a : Source} {d : Document}

/-! ### Before the first bracket -/

theorem LaidElement.exists_opening {es : Entities} {depth : Nat} {node : Tree}
    (h : LaidElement es depth ps node) : ∃ u qs, ps = .markup ('<' :: (u ++ ['>'])) :: qs := by
  have hlast : ∀ {name u : Text} {as : List (Text × Text)} {b : Bool}, TagRest es u (as, b) →
      ∃ w, openingTag name u = .markup ('<' :: (w ++ ['>'])) := by
    intro name u as b hu
    obtain ⟨w, rfl⟩ := hu.last
    exact ⟨name ++ w, by simp [openingTag]⟩
  cases h with
  | empty _ hu =>
    obtain ⟨w, hw⟩ := hlast hu
    exact ⟨w, [], by rw [hw]⟩
  | content _ hu =>
    obtain ⟨w, hw⟩ := hlast hu
    exact ⟨w, _, by rw [hw]⟩

/-- A needle in data stands behind the root's first tag. -/
theorem Cut.not_isInfix_before (h : Cut ps a) (hneedle : Unmarked needle)
    (hps : ∀ u, .markup u ∈ ps → ¬ needle <:+: u) {b b' : Text} (hb : '>' ∉ b)
    (heq : joined ps = b ++ '>' :: b') : ¬ needle <:+: b := by
  cases h with
  | @intro front back p ps root after _ hroot _ =>
    obtain ⟨u, qs, rfl⟩ := hroot.exists_opening
    have htext : front ++ '<' :: u ++ '>' :: (joined qs ++ back) = b ++ '>' :: b' := by
      rw [← heq]
      simp
    have hprefix : b <+: front ++ '<' :: u := by
      rcases List.append_eq_append_iff.1 htext with ⟨w, rfl, hw⟩ | ⟨w, hw, -⟩
      · cases w with
        | nil => exact ⟨[], by simp⟩
        | cons c w =>
          obtain ⟨rfl, -⟩ := List.cons.inj hw
          simp at hb
      · exact ⟨w, hw.symm⟩
    have hmem : '<' ∉ needle := fun hmem => (hneedle _ hmem).1 rfl
    intro hin
    rcases Text.infix_append_cons hmem (hin.trans hprefix.isInfix) with hfront | htag
    · exact hps front List.mem_cons_self hfront
    · refine hps ('<' :: (u ++ ['>'])) (by simp) (htag.trans ⟨['<'], ['>'], ?_⟩)
      simp

/-! ### Filling documents -/

/-- A text whose markup does not hold the needle is an outline of its document, filled with the needle, and
reads as the outline filled with other values once these are written for the needle; where some data hold
the end of a section then, it is no document. -/
theorem Cut.exists_document (h : Cut ps a) (hneedle : Unmarked needle) (hne : needle ≠ [])
    (hps : ∀ u, .markup u ∈ ps → ¬ needle <:+: u) (hd : Document.ofText? (joined ps) = some d) :
    ∃ o : Document, o.fill needle = d ∧ ∀ x y, Spells x y →
      (StaysOpen needle x ps → Document.ofText? (replace needle x (joined ps)) = some (o.fill y)) ∧
      (¬ StaysOpen needle x ps → Document.ofText? (replace needle x (joined ps)) = none) := by
  obtain ⟨root, hroot, hfill⟩ := h.exists_outline hneedle hne hps
  obtain ⟨r, hr⟩ := exists_document_fill a.prolog root a.after
  have hself : readSource (joined ps) = some ⟨a.prolog, root.fill needle, a.after⟩ := by
    rw [h.read, hroot]
  rw [hr needle _ hself] at hd
  obtain ⟨o, rfl, ho⟩ := Option.map_eq_some_iff.1 hd
  refine ⟨o, ho, fun x y hxy => ⟨fun hopen => ?_, fun hclosed => ?_⟩⟩
  · rw [hr y _ (hfill x y hxy hopen)]
    rfl
  · rw [Document.ofText?, Document.check, h.refused hneedle hne hps hxy hclosed]
    rfl

/-! ### Values -/

theorem isAscii_escapeChar {c : Char} (hc : c.toNat < 0x80) : IsAscii (Markup.escapeChar c) := by
  unfold Markup.escapeChar
  split
  case h_6 => simpa [IsAscii] using hc
  all_goals decide

theorem escapeChar_wide {c : Char} (hc : ¬ c.toNat < 0x80) : Markup.escapeChar c = [c] := by
  unfold Markup.escapeChar
  split
  case h_6 => rfl
  all_goals exact absurd (by decide) hc

/-- An escaped value spells the value in every encoding. -/
theorem Encoding.spells_escape (hx : e.reads (Markup.escape v) = some x)
    (hy : e.reads (Markup.sanitize v) = some y) : Spells x y := by
  cases e with
  | utf8 =>
    rw [reads_utf8, Option.some.injEq] at hx hy
    rw [← hx, ← hy]
    exact Xml.spells_escape v
  | ascii =>
    obtain ⟨-, rfl⟩ := reads_ascii_eq_some_iff.1 hx
    obtain ⟨-, rfl⟩ := reads_ascii_eq_some_iff.1 hy
    exact Xml.spells_escape v
  | latin =>
    rw [reads_latin, Option.some.injEq] at hx hy
    rw [← hx, ← hy, Markup.escape]
    have hlegal : ∀ c ∈ Markup.sanitize v, isLegal c := fun c hc => (List.mem_filter.1 hc).2
    generalize Markup.sanitize v = s at hlegal
    induction s with
    | nil => exact .nil
    | cons c s ih =>
      obtain ⟨hc, hs⟩ := List.forall_mem_cons.1 hlegal
      rw [List.flatMap_cons, octetText_append, octetText_cons]
      refine Spells.append ?_ (ih hs)
      by_cases hascii : c.toNat < 0x80
      · rw [octetText_of_isAscii (isAscii_escapeChar hascii), octetText_singleton hascii]
        exact spells_escapeChar hc
      · rw [escapeChar_wide hascii]
        obtain ⟨-, hwide⟩ := octetText_wide hascii
        refine spells_self (List.all_eq_true.2 fun d hd => ?_) (List.all_eq_true.2 fun d hd => ?_)
        · have hge := (hwide d hd).1
          have hne : ∀ m : Char, m.toNat < 0x80 → d ≠ m := by
            rintro m hm rfl
            omega
          simp [isPlain, hne '<' (by decide), hne '&' (by decide)]
        · obtain ⟨hge, hlt⟩ := hwide d hd
          have hspan : 0x20 ≤ d.toNat ∧ d.toNat ≤ 0xd7ff := by omega
          simp [isLegal, Markup.isLegal, hspan]

theorem oneLine_escape (hv : ¬ Markup.hasBreak v) : OneLine (Markup.escape v) := by
  intro c hc
  obtain ⟨d, hd, hcd⟩ := List.mem_flatMap.1 hc
  have hd : d ∈ v := List.mem_of_mem_filter hd
  have hbreak : d ≠ '\r' ∧ d ≠ '\n' := by
    simp only [Markup.hasBreak, List.any_eq_true, Bool.or_eq_true, decide_eq_true_eq, not_exists, not_and,
      not_or] at hv
    exact (hv d hd).symm
  unfold Markup.escapeChar at hcd
  split at hcd
  case h_6 => rwa [List.mem_singleton.1 hcd]
  all_goals exact (show OneLine _ by decide) c hcd

/-- No end of a line comes from octets of other characters. -/
theorem Encoding.oneLine_reads (hs : OneLine s) (h : e.reads s = some t) : OneLine t := by
  cases e with
  | utf8 => rwa [← Option.some.inj ((reads_utf8 s).symm.trans h)]
  | ascii =>
    obtain ⟨-, rfl⟩ := reads_ascii_eq_some_iff.1 h
    exact hs
  | latin =>
    rw [reads_latin, Option.some.injEq] at h
    subst h
    induction s with
    | nil => exact hs
    | cons c s ih =>
      obtain ⟨hc, hs⟩ := List.forall_mem_cons.1 hs
      rw [octetText_cons]
      refine List.forall_mem_append.2 ⟨fun d hd => ?_, ih hs⟩
      by_cases hascii : c.toNat < 0x80
      · rw [octetText_singleton hascii, List.mem_singleton] at hd
        rwa [hd]
      · have hge := ((octetText_wide hascii).2 d hd).1
        constructor <;> rintro rfl <;> exact absurd hge (by decide)

/-! ### Texts that are read in an encoding -/

theorem Encoding.isInfix_reads_iff {w : Text} (hw : IsAscii w) (h : e.reads s = some t) :
    w <:+: t ↔ w <:+: s := by
  cases e with
  | utf8 => rw [← Option.some.inj ((reads_utf8 s).symm.trans h)]
  | ascii =>
    obtain ⟨-, rfl⟩ := reads_ascii_eq_some_iff.1 h
    exact Iff.rfl
  | latin =>
    rw [← Option.some.inj ((reads_latin s).symm.trans h)]
    exact isInfix_octetText_iff hw

theorem Encoding.eq_nil_of_reads (h : e.reads s = some []) : s = [] := by
  cases e with
  | utf8 => exact Option.some.inj ((reads_utf8 s).symm.trans h)
  | ascii => exact (reads_ascii_eq_some_iff.1 h).2.symm
  | latin =>
    rw [reads_latin, Option.some.injEq] at h
    cases s with
    | nil => rfl
    | cons c s =>
      rw [octetText_cons, List.append_eq_nil_iff] at h
      by_cases hc : c.toNat < 0x80
      · rw [octetText_singleton hc] at h
        cases h.1
      · exact absurd h.1 (octetText_wide hc).1

theorem Encoding.reads_append {a b : Text} {c : Char} (hc : c.toNat < 0x80)
    (h : e.reads (a ++ c :: b) = some t) :
    ∃ a' b', e.reads a = some a' ∧ e.reads b = some b' ∧ t = a' ++ c :: b' := by
  cases e with
  | utf8 => exact ⟨a, b, reads_utf8 a, reads_utf8 b, (Option.some.inj ((reads_utf8 _).symm.trans h)).symm⟩
  | ascii =>
    obtain ⟨hs, rfl⟩ := reads_ascii_eq_some_iff.1 h
    obtain ⟨ha, hb⟩ := List.forall_mem_append.1 hs
    exact ⟨a, b, reads_ascii_eq_some_iff.2 ⟨ha, rfl⟩,
      reads_ascii_eq_some_iff.2 ⟨(List.forall_mem_cons.1 hb).2, rfl⟩, rfl⟩
  | latin =>
    refine ⟨octetText a, octetText b, rfl, rfl, ?_⟩
    rw [← Option.some.inj ((reads_latin _).symm.trans h), octetText_append, octetText_cons,
      octetText_singleton hc]
    rfl

/-- A needle of one line occurs where it did once the ends of lines are made alike. -/
theorem isInfix_withLineFeeds {w : Text} (hw : OneLine w) (h : w <:+: s) : w <:+: withLineFeeds s := by
  obtain ⟨u, v, rfl⟩ := h
  cases w with
  | nil => exact List.nil_infix
  | cons c w =>
    rw [List.append_assoc, List.cons_append,
      Text.withLineFeeds_append_cons (hw c List.mem_cons_self).2, ← List.cons_append,
      hw.withLineFeeds_append]
    exact ((List.prefix_append _ _).isInfix).trans (List.suffix_append _ _).isInfix

/-- A needle as the placeholders are: of one line, in ASCII and without characters of markup. -/
structure Needle (needle : Text) : Prop where
  ne_nil : needle ≠ []
  unmarked : Unmarked needle
  ascii : IsAscii needle
  oneLine : OneLine needle

/-- Where the needle stands in data alone, values that are written for it change neither the encoding nor the
mark before the text. -/
theorem encodingOf?_replace (hneedle : Needle needle) (he : encodingOf? s = some e)
    (ht : e.reads (body s) = some t) (hcut : Cut ps a) (hjoined : joined ps = withLineFeeds t)
    (hps : ∀ u, .markup u ∈ ps → ¬ needle <:+: u) (x : Text) :
    encodingOf? (replace needle x s) = some e ∧ body (replace needle x s) = replace needle x (body s) := by
  have hbracket : IsAscii ['>'] ∧ OneLine ['>'] := ⟨by decide, by decide⟩
  by_cases hmark : s.head? = some mark
  · obtain ⟨u, rfl⟩ := List.head?_eq_some_iff.1 hmark
    have hprefix : ¬ needle <+: mark :: u := by
      obtain ⟨c, w, rfl⟩ := List.exists_cons_of_ne_nil hneedle.ne_nil
      rw [List.cons_prefix_cons]
      rintro ⟨rfl, -⟩
      exact absurd (hneedle.ascii mark List.mem_cons_self) (by decide)
    rw [encodingOf?, if_pos hmark] at he
    rw [Text.replace_cons hneedle.ne_nil hprefix]
    exact ⟨he, rfl⟩
  have hbody : body s = s := if_neg hmark
  rw [hbody] at ht
  -- the first bracket is behind the declaration and before every needle
  have hmem : '>' ∈ s := by
    cases hcut with
    | intro _ hroot =>
      obtain ⟨u, qs, rfl⟩ := hroot.exists_opening
      have hin : ['>'] <:+: withLineFeeds t := by
        rw [← hjoined, List.singleton_infix_iff]
        simp
      have hin := hbracket.2.isInfix_of_withLineFeeds hin
      rwa [Encoding.isInfix_reads_iff hbracket.1 ht, List.singleton_infix_iff] at hin
  obtain ⟨b, b', rfl, hb⟩ := List.eq_append_cons_of_mem hmem
  obtain ⟨u, u', hu, hu', rfl⟩ := Encoding.reads_append (show '>'.toNat < 0x80 by decide) ht
  have hfed : joined ps = withLineFeeds u ++ '>' :: withLineFeeds u' := by
    rw [hjoined, Text.withLineFeeds_append_cons (by decide), Text.withLineFeeds_cons (by decide)]
  have hbracket' : '>' ∉ withLineFeeds u := by
    intro hmem
    rw [← List.singleton_infix_iff] at hmem
    have hin := hbracket.2.isInfix_of_withLineFeeds hmem
    rw [Encoding.isInfix_reads_iff hbracket.1 hu, List.singleton_infix_iff] at hin
    exact hb hin
  have hbefore : ¬ needle <:+: b := by
    rw [← Encoding.isInfix_reads_iff hneedle.ascii hu]
    exact fun h => hcut.not_isInfix_before hneedle.unmarked hps hbracket' hfed
      (isInfix_withLineFeeds hneedle.oneLine h)
  have hseam : '>' ∉ needle := fun hmem => (hneedle.unmarked _ hmem).2.1 rfl
  have hreplaced : replace needle x (b ++ '>' :: b') = b ++ '>' :: replace needle x b' := by
    have hprefix : ¬ needle <+: '>' :: b' := by
      obtain ⟨c, w, rfl⟩ := List.exists_cons_of_ne_nil hneedle.ne_nil
      rw [List.cons_prefix_cons]
      rintro ⟨rfl, -⟩
      exact hseam List.mem_cons_self
    rw [Text.replace_append hneedle.ne_nil x (Text.seamless_of_head fun c hc => by
        obtain rfl : '>' = c := by simpa using hc
        exact hseam),
      Text.replace_of_not_isInfix hneedle.ne_nil hbefore, Text.replace_cons hneedle.ne_nil hprefix]
  have hmark' : ¬ (b ++ '>' :: replace needle x b').head? = some mark := by
    cases b with
    | nil =>
      rw [List.nil_append, List.head?_cons, Option.some.injEq]
      decide
    | cons c b => exact hmark
  rw [hreplaced, hbody, hreplaced, body, if_neg hmark', encodingOf?, if_neg hmark', ← label?_congr hb b']
  rw [encodingOf?, if_neg hmark] at he
  exact ⟨he, rfl⟩

/-! ### Octets -/

/-- The octets of a text as they are read: in an encoding, with the ends of lines made alike, and cut into
data and markup. -/
structure ReadAs (s : Text) (e : Encoding) (ps : List Piece) : Prop where
  encoding : encodingOf? s = some e
  text : ∃ t, e.reads (body s) = some t ∧ joined ps = withLineFeeds t
  cut : ∃ a, Cut ps a

theorem Document.ofBytes?_utf8 (s : Text) : Document.ofBytes? (Text.utf8 s) =
    (encodingOf? s).bind fun e => (e.reads (body s)).bind fun t => Document.ofText? (withLineFeeds t) := by
  rw [Document.ofBytes?, decode?_utf8]
  cases encodingOf? s <;> rfl

/-- A document has been read so. -/
theorem exists_readAs (h : isWellFormed s) : ∃ e ps, ReadAs s e ps := by
  rw [isWellFormed, Document.ofBytes?_utf8, Option.isSome_iff_exists] at h
  obtain ⟨d, h⟩ := h
  obtain ⟨e, he, h⟩ := Option.bind_eq_some_iff.1 h
  obtain ⟨t, ht, h⟩ := Option.bind_eq_some_iff.1 h
  rw [Document.ofText?, Document.check] at h
  cases hsource : readSource (withLineFeeds t) with
  | none => rw [hsource] at h; cases h
  | some a =>
    obtain ⟨ps, hps, hjoined⟩ := cut_of_readSource hsource
    exact ⟨e, ps, he, ⟨t, ht, hjoined⟩, a, hps⟩

theorem ReadAs.ofBytes?_eq (h : ReadAs s e ps) :
    Document.ofBytes? (Text.utf8 s) = Document.ofText? (joined ps) := by
  obtain ⟨t, ht, hjoined⟩ := h.text
  rw [Document.ofBytes?_utf8, h.encoding, Option.bind_some, ht, Option.bind_some, hjoined]

theorem isSuffix_body (s : Text) : body s <:+ s := by
  rw [body]
  split
  · exact List.tail_suffix s
  · exact List.suffix_refl s

/-- A value that is written for the needle is read in the encoding of the text around it. -/
theorem ReadAs.ofBytes?_replace (h : ReadAs s e ps) (hneedle : Needle needle)
    (hps : ∀ u, .markup u ∈ ps → ¬ needle <:+: u) (hv : OneLine v) (hx : e.reads v = some x)
    (hseam : v = [] → ¬ '\r' :: needle <:+: s) :
    Document.ofBytes? (Text.utf8 (replace needle v s)) = Document.ofText? (replace needle x (joined ps)) := by
  obtain ⟨t, ht, hjoined⟩ := h.text
  obtain ⟨a, hcut⟩ := h.cut
  obtain ⟨he, hbody⟩ := encodingOf?_replace hneedle h.encoding ht hcut hjoined hps v
  have hreads := Encoding.reads_replace hneedle.ne_nil hneedle.ascii ht hx
  have hfed : withLineFeeds (replace needle x t) = replace needle x (withLineFeeds t) := by
    refine Text.withLineFeeds_replace hneedle.ne_nil hneedle.oneLine (Encoding.oneLine_reads hv hx) ?_
    rintro rfl hin
    rw [Encoding.isInfix_reads_iff (List.forall_mem_cons.2 ⟨by decide, hneedle.ascii⟩) ht] at hin
    exact hseam (Encoding.eq_nil_of_reads hx) (hin.trans (isSuffix_body s).isInfix)
  rw [Document.ofBytes?_utf8, he, Option.bind_some, hbody, hreads, Option.bind_some, hfed, hjoined]

end DeckMerge.Xml
