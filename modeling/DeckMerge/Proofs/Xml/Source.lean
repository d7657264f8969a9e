import DeckMerge.Proofs.Xml.Declaration
import DeckMerge.Proofs.Xml.Filling

/-!
Whole texts, cut into what stands before the root, the root's own data and markup, and what stands
behind it.
-/

namespace DeckMerge.Xml

open Recogniser

variable {s t u rest : Text}

/-! ### Before the root -/

/-- Where the root begins. -/
def Opening (t : Text) : Prop := ∃ c t', t = '<' :: c :: t' ∧ isNameStart c

theorem Opening.of_isName {name : Text} (h : isName name) (t : Text) : Opening ('<' :: (name ++ t)) := by
  obtain ⟨c, u, rfl, hc⟩ := cons_of_isName h
  exact ⟨c, u ++ t, rfl, hc⟩

theorem Opening.stopsMisc (h : Opening t) : StopsMisc t := by
  obtain ⟨c, t, rfl, hc⟩ := h
  refine ⟨rfl, ?_, ?_⟩ <;> rintro ⟨r, hr⟩ <;> cases hr <;> exact absurd hc (by decide)

theorem Opening.not_documentType (h : Opening t) : ("<!DOCTYPE".toList).isPrefixOf? t = none := by
  obtain ⟨c, t, rfl, hc⟩ := h
  cases hprefix : ("<!DOCTYPE".toList).isPrefixOf? ('<' :: c :: t) with
  | none => rfl
  | some r =>
    cases List.isPrefixOf?_eq_some_iff_append_eq.1 hprefix
    exact absurd hc (by decide)

/-- What comes before the root declares nothing by itself, and the root adds no declaration. -/
theorem Undeclared.append (h : Undeclared s) (ht : Opening t) : Undeclared (s ++ t) := by
  obtain ⟨c, t, rfl, hc⟩ := ht
  intro d r heq
  rcases List.append_eq_append_iff.1 heq with ⟨v, hv, htail⟩ | ⟨v, rfl, htail⟩
  · cases v with
    | nil =>
      cases htail
      decide
    | cons a v =>
      obtain ⟨rfl, htail⟩ := List.cons.inj htail
      -- The bracket that opens the root can only be the first character of the mark.
      cases s with
      | nil =>
        cases hv
        cases htail
        exact absurd hc (by decide)
      | cons b s =>
        obtain ⟨-, htail⟩ := List.cons.inj hv
        have hmem : '<' ∈ "?xml".toList := by
          rw [show "?xml".toList = s ++ '<' :: v from htail]
          simp
        exact absurd hmem (by decide)
  · cases v with
    | nil =>
      cases htail
      decide
    | cons a v =>
      obtain ⟨rfl, -⟩ := List.cons.inj htail
      exact h _ v rfl

/-- How a text begins, with what comes next before the root. -/
inductive Begins (body : Text) : Text → Declaration → Prop
  | declared {u : Text} {d : Declaration} : Heads u d → Begins body u d
  | undeclared : Undeclared body → Begins body [] ⟨"1.0", none⟩

theorem Begins.read {body : Text} {d : Declaration} (h : Begins body u d) (ht : Opening t) :
    readDeclaration (u ++ (body ++ t)) = some (d, body ++ t) := by
  cases h with
  | declared hu => exact hu.read _
  | undeclared hbody => exact (hbody.append ht).read

/-- What may stand before the root. -/
inductive Fronts : Text → Prolog → Prop
  | plain {d m : Text} {declaration : Declaration} {ts : List Tree} : Begins m d declaration →
    Misc m ts → Fronts (d ++ m) ⟨declaration, ts, []⟩
  | typed {d m t m' : Text} {declaration : Declaration} {ts ts' : List Tree} {es : Entities} :
    Begins (m ++ (t ++ m')) d declaration → Misc m ts → DocumentType t es → Misc m' ts' →
    Fronts (d ++ (m ++ (t ++ m'))) ⟨declaration, ts ++ ts', es⟩

theorem DocumentType.stopsMisc {es : Entities} (h : DocumentType u es) (t : Text) : StopsMisc (u ++ t) := by
  cases h with
  | intro =>
    refine ⟨rfl, ?_, ?_⟩ <;> rintro ⟨r, hr⟩ <;> cases hr

theorem Fronts.read {p : Prolog} (h : Fronts u p) (ht : Opening t) :
    readProlog (u ++ t) = some (p, t) := by
  cases h with
  | @plain d m declaration ts hd hm =>
    have hmisc : readMisc ((m ++ t).length + 1) (m ++ t) = some (ts, t) :=
      hm.read _ (by simp only [List.length_append]; omega) t ht.stopsMisc
    have hafter : readMisc (t.length + 1) t = some ([], t) := ht.stopsMisc.read (w := []) rfl
    rw [List.append_assoc, readProlog]
    simp only [hd.read ht, hmisc, hafter, readDocumentType, ht.not_documentType, Option.bind_eq_bind,
      Option.bind_some, List.append_nil]
    rfl
  | @typed d m x m' declaration ts ts' es hd hm hx hm' =>
    have hbefore : readMisc ((m ++ (x ++ (m' ++ t))).length + 1) (m ++ (x ++ (m' ++ t))) =
        some (ts, x ++ (m' ++ t)) := hm.read _ (by simp only [List.length_append]; omega) _ (hx.stopsMisc _)
    have hbetween : readMisc ((m' ++ t).length + 1) (m' ++ t) = some (ts', t) :=
      hm'.read _ (by simp only [List.length_append]; omega) t ht.stopsMisc
    have hdeclaration := hd.read ht
    simp only [List.append_assoc] at hdeclaration ⊢
    rw [readProlog]
    simp only [hdeclaration, hbefore, hx.read _, hbetween, Option.bind_eq_bind, Option.bind_some]
    rfl

/-- What is read before the root stands there. -/
theorem fronts_of_readProlog {p : Prolog} (h : readProlog s = some (p, rest)) :
    ∃ u, Fronts u p ∧ s = u ++ rest := by
  simp only [readProlog, Option.bind_eq_bind, Option.bind_eq_some_iff] at h
  obtain ⟨⟨declaration, t₁⟩, hdeclaration, ⟨before, t₂⟩, hbefore, ⟨es, t₃⟩, htype, ⟨between, t₄⟩,
    hbetween, h⟩ := h
  obtain ⟨rfl, rfl⟩ := Prod.mk.inj (Option.some.inj h)
  obtain ⟨m, hm, rfl, hstops⟩ := misc_of_readMisc hbefore
  have hbegins : ∀ body, m ++ t₂ = body ++ t₄ → ∃ d, Begins body d declaration ∧ s = d ++ (body ++ t₄) := by
    intro body hbody
    rw [hbody] at hdeclaration
    rcases heads_of_readDeclaration hdeclaration with ⟨d, hd, rfl⟩ | ⟨rfl, heq, hnone⟩
    · exact ⟨d, .declared hd, rfl⟩
    · refine ⟨[], .undeclared fun c t ht => ?_, heq.symm⟩
      exact hnone c (t ++ t₄) (by rw [← heq, ht]; simp)
  rcases documentType_of_readDocumentType htype with ⟨x, hx, rfl⟩ | ⟨rfl, rfl, -⟩
  · obtain ⟨m', hm', rfl, -⟩ := misc_of_readMisc hbetween
    obtain ⟨d, hd, rfl⟩ := hbegins (m ++ (x ++ m')) (by simp)
    exact ⟨_, .typed hd hm hx hm', by simp⟩
  · have hnothing : readMisc (t₃.length + 1) t₃ = some ([], t₃) := hstops.read (w := []) rfl
    obtain ⟨rfl, rfl⟩ := Prod.mk.inj (Option.some.inj (hnothing.symm.trans hbetween))
    obtain ⟨d, hd, rfl⟩ := hbegins m rfl
    exact ⟨d ++ m, by simpa using Fronts.plain hd hm, by simp⟩

/-! ### Whole texts -/

/-- A whole text: its root between two pieces of markup. -/
inductive Cut : List Piece → Source → Prop
  | intro {front back : Text} {p : Prolog} {ps : List Piece} {root : Tree} {after : List Tree} :
    Fronts front p → LaidElement p.entities 0 ps root → Misc back after →
    Cut (.markup front :: (ps ++ [.markup back])) ⟨p, root, after⟩

theorem LaidElement.opening {es : Entities} {depth : Nat} {ps : List Piece} {node : Tree}
    (h : LaidElement es depth ps node) : ∃ name u, isName name ∧ joined ps = '<' :: (name ++ u) := by
  cases h with
  | @empty name u _ hname => exact ⟨name, u, hname, by simp [openingTag]⟩
  | @content inner _ name u w _ hname _ _ _ =>
    exact ⟨name, u ++ (joined inner ++ '<' :: '/' :: (name ++ (w ++ ['>']))), hname,
      by simp [openingTag, closingTag]⟩

theorem LaidElement.read {es : Entities} {depth : Nat} {ps : List Piece} {node : Tree}
    (h : LaidElement es depth ps node) (fuel : Nat) (hfuel : (joined ps).length + es.size ≤ fuel)
    (t : Text) : readElement fuel es (readContent fuel (depth + 1) es) ((joined ps).tail ++ t) =
      some (node, t) := by
  cases h with
  | @empty name u as hname hu =>
    simp only [openingTag, joined_cons, joined_nil, Piece.text_markup, List.append_nil,
      List.length_cons, List.length_append, List.tail_cons] at hfuel ⊢
    simpa using readElement_empty hname hu (by omega) t
  | @content inner children name u w as hname hu hinner hw =>
    simp only [openingTag, closingTag, joined_cons, joined_append, joined_nil, Piece.text_markup,
      List.append_nil, List.length_cons, List.length_append] at hfuel ⊢
    have hchildren := hinner.read fuel (by omega) ('<' :: '/' :: (name ++ (w ++ '>' :: t))) (.inr ⟨_, rfl⟩)
    simpa using readElement_content hname hu (by omega) hw t hchildren

theorem Cut.read {ps : List Piece} {x : Source} (h : Cut ps x) : readSource (joined ps) = some x := by
  cases h with
  | @intro front back p ps root after hfront hroot hback =>
    obtain ⟨name, u, hname, hjoined⟩ := hroot.opening
    have hprolog : readProlog (front ++ (joined ps ++ back)) = some (p, joined ps ++ back) := by
      refine hfront.read ?_
      rw [hjoined, List.cons_append, List.append_assoc]
      exact .of_isName hname _
    have hread : readElement ((name ++ u ++ back).length + p.entities.size + 1) p.entities
        (readContent ((name ++ u ++ back).length + p.entities.size + 1) 1 p.entities)
        (name ++ u ++ back) = some (root, back) := by
      simpa [hjoined] using hroot.read ((name ++ u ++ back).length + p.entities.size + 1)
        (by simp [hjoined]; omega) back
    have hafter : readMisc (back.length + 1) back = some (after, []) := by
      simpa using hback.read (back.length + 1) (Nat.lt_succ_self _) [] ⟨rfl, by decide, by decide⟩
    have htext : joined (.markup front :: (ps ++ [.markup back])) = front ++ (joined ps ++ back) := by
      simp
    rw [htext, readSource, hprolog, hjoined]
    simp only [List.cons_append, Option.bind_eq_bind, Option.bind_some, hread, hafter]
    rfl

/-- What is read is a whole text. -/
theorem cut_of_readSource {x : Source} (h : readSource s = some x) : ∃ ps, Cut ps x ∧ joined ps = s := by
  simp only [readSource, Option.bind_eq_bind, Option.bind_eq_some_iff] at h
  obtain ⟨⟨p, t⟩, hprolog, h⟩ := h
  split at h
  case h_2 => cases h
  case h_1 t heq =>
    obtain ⟨rfl, rfl⟩ := Prod.mk.inj heq
    simp only [Option.bind_eq_some_iff] at h
    obtain ⟨⟨root, t'⟩, hroot, ⟨after, t''⟩, hafter, h⟩ := h
    split at h
    case h_2 => cases h
    case h_1 heq =>
      obtain ⟨rfl, rfl⟩ := Prod.mk.inj heq
      obtain rfl := Option.some.inj h
      obtain ⟨ps, hps, hjoined⟩ := laidElement_of_readElement laid_of_readContent hroot
      obtain ⟨back, hback, rfl, -⟩ := misc_of_readMisc hafter
      obtain ⟨front, hfront, rfl⟩ := fronts_of_readProlog hprolog
      exact ⟨_, .intro hfront hps hback, by simp [hjoined]⟩

/-! ### Filling a whole text -/

variable {needle : Text}

theorem LaidElement.exists_outline (hne : needle ≠ []) {es : Entities} {depth : Nat} {ps : List Piece}
    {node : Tree} (h : LaidElement es depth ps node) : ∃ o : Tree, o.fill needle = node ∧
      ∀ x y, Spells x y → StaysOpen needle x ps →
        ∃ qs, LaidElement es depth qs (o.fill y) ∧ joined qs = filled needle x ps := by
  cases h with
  | @empty name u as hname hu =>
    exact ⟨.element name as [], rfl, fun x y _ _ => ⟨_, .empty hname hu, rfl⟩⟩
  | @content inner children name u w as hname hu hinner hw =>
    obtain ⟨os, hos⟩ := hinner.exists_outlines hne
    refine ⟨.element name as os, by rw [Tree.fill, hos.original], fun x y hxy hopen => ?_⟩
    obtain ⟨qs, hqs, hjoined, -⟩ := hos.fill x y hxy fun t ht => hopen t (by simp [ht])
    exact ⟨_, .content hname hu hqs hw, by simp [hjoined, openingTag, closingTag, filled]⟩

theorem LaidElement.last {es : Entities} {depth : Nat} {ps : List Piece} {node : Tree}
    (h : LaidElement es depth ps node) : ['>'] <:+ joined ps := by
  cases h with
  | @empty name u as hname hu =>
    simpa [openingTag] using hu.last.trans (List.suffix_append ('<' :: name) u)
  | @content inner children name u w as hname hu hinner hw =>
    exact ⟨'<' :: (name ++ (u ++ (joined inner ++ '<' :: '/' :: (name ++ w)))), by
      simp [openingTag, closingTag]⟩

/-- The needle stands in data only, so it is replaced there and nowhere else. -/
theorem Cut.replace_joined {ps : List Piece} {x : Source} (h : Cut ps x) (hneedle : Unmarked needle)
    (hne : needle ≠ []) (hps : ∀ u, .markup u ∈ ps → ¬ needle <:+: u) (v : Text) :
    Text.replace needle v (joined ps) = filled needle v ps := by
  cases h with
  | @intro front back p ps root after _ hroot _ =>
    have hlaid : Laid p.entities 0 ps [root] := by simpa using hroot.cons (by decide) .nil
    have hfront : ¬ needle <:+: front := hps front List.mem_cons_self
    have hback : ¬ needle <:+: back := hps back (by simp)
    obtain ⟨name, u, -, hopening⟩ := hroot.opening
    have hhead : (joined ps ++ back).head?.any isPlain = false := by rw [hopening]; rfl
    have hlast : Text.Seamless needle (joined ps) back := by
      refine Text.seamless_of_last fun c hc hmem => ?_
      obtain ⟨t, ht⟩ := hroot.last
      rw [← ht, List.getLast?_concat] at hc
      exact (hneedle c hmem).2.1 (Option.some.inj hc).symm
    have htext : joined (.markup front :: (ps ++ [.markup back])) = front ++ (joined ps ++ back) := by
      simp
    rw [htext, hneedle.replace_append hne hhead, Text.replace_of_not_isInfix hne hfront,
      Text.replace_append hne v hlast, Text.replace_of_not_isInfix hne hback,
      hlaid.alternating.replace_joined hneedle hne (fun _ => hlaid.last_of_markup)
        (fun u hu => hps u (by simp [hu]))]
    simp [filled]

/-- A text whose markup does not hold the needle reads as an outline of its root, filled. -/
theorem Cut.exists_outline {ps : List Piece} {x : Source} (h : Cut ps x) (hneedle : Unmarked needle)
    (hne : needle ≠ []) (hps : ∀ u, .markup u ∈ ps → ¬ needle <:+: u) :
    ∃ o : Tree, o.fill needle = x.root ∧ ∀ v y, Spells v y → StaysOpen needle v ps →
      readSource (Text.replace needle v (joined ps)) = some ⟨x.prolog, o.fill y, x.after⟩ := by
  simp only [h.replace_joined hneedle hne hps]
  cases h with
  | @intro front back p ps root after hfront hroot hback =>
    obtain ⟨o, horiginal, hfill⟩ := hroot.exists_outline hne
    refine ⟨o, horiginal, fun v y hvy hopen => ?_⟩
    obtain ⟨qs, hqs, hjoined⟩ := hfill v y hvy fun t ht => hopen t (by simp [ht])
    have htext : filled needle v (.markup front :: (ps ++ [.markup back])) =
        joined (.markup front :: (qs ++ [.markup back])) := by
      simp [hjoined, filled]
    rw [htext]
    exact (Cut.intro hfront hqs hback).read

end DeckMerge.Xml
