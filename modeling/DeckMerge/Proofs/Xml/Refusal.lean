import DeckMerge.Proofs.Xml.Source

/-!
Data that hold the mark that ends a section are refused, and with them the text around them. So a value
that completes such a mark with the text behind it leaves no document.
-/

namespace DeckMerge.Xml

variable {es : Entities} {depth fuel : Nat} {s t u x y run needle : Text}

/-! ### Data -/

/-- No reading of content begins here, however long it takes. -/
def Refused (es : Entities) (depth : Nat) (s : Text) : Prop :=
  ∀ fuel, s.length + es.size < fuel → readContent fuel depth es s = none

theorem readCharacters_of_mark (hrun : run.all isPlain) (hmark : "]]>".toList <:+: run)
    (hs : s.head?.any isPlain = false) : readCharacters (run ++ s) = none := by
  cases h : readCharacters (run ++ s) with
  | none => rfl
  | some a =>
    obtain ⟨t, rest⟩ := a
    obtain ⟨ht, hrest, heq⟩ := readCharacters_eq_some_iff.1 h
    have hspan : (run ++ s).span isPlain = (run, s) := Text.span_eq_iff.2 ⟨rfl, hrun, hs⟩
    have hspan' : (run ++ s).span isPlain = (t, rest) := Text.span_eq_iff.2 ⟨heq, ht.plain, hrest⟩
    obtain ⟨rfl, -⟩ := Prod.mk.inj (hspan.symm.trans hspan')
    exact absurd hmark ht.unmarked

theorem refused_of_mark (hrun : run.all isPlain) (hmark : "]]>".toList <:+: run)
    (hs : s.head?.any isPlain = false) : Refused es depth (run ++ s) := by
  intro fuel hfuel
  obtain ⟨fuel, rfl⟩ : ∃ n, fuel = n + 1 := ⟨fuel - 1, by omega⟩
  have hread := readCharacters_of_mark hrun hmark hs
  cases run with
  | nil => exact absurd (List.infix_nil.1 hmark) (by decide)
  | cons c run =>
    have hc : isPlain c := List.all_eq_true.1 hrun c List.mem_cons_self
    rw [List.cons_append] at hread ⊢
    rw [readContent_plain hc, hread]
    rfl

theorem Refused.append_data (h : Refused es depth s) (hrun : IsData run) (hs : s.head?.any isPlain = false) :
    Refused es depth (run ++ s) := by
  intro fuel hfuel
  by_cases hne : run = []
  · rw [hne] at hfuel ⊢
    exact h fuel hfuel
  · obtain ⟨fuel, rfl⟩ : ∃ n, fuel = n + 1 := ⟨fuel - 1, by omega⟩
    have hlength := List.length_pos_iff.2 hne
    rw [List.length_append] at hfuel
    rw [readContent_data hrun hne hs, h fuel (by omega)]
    rfl

theorem Refers.bracket_notMem {r : Reference} (h : Refers u r) : '>' ∉ u := by
  have hall : ∀ {p : Char → Bool} {w : Text}, w.all p → p '>' = false → '>' ∉ w := by
    intro p w hw hp hmem
    rw [List.all_eq_true.1 hw _ hmem] at hp
    cases hp
  cases h with
  | hexadecimal hds => simp [hall hds (by decide)]
  | decimal hds => simp [hall hds (by decide)]
  | @name name hname =>
    obtain ⟨c, w, rfl, hc⟩ := cons_of_isName hname
    simp only [isName, Bool.and_eq_true] at hname
    have hne : '>' ≠ c := by rintro rfl; exact absurd hc (by decide)
    simp [hne, hall hname.2 (by decide)]

/-- A mark around a reference is on one side of it. -/
theorem mark_around_reference {r : Reference} (hu : Refers u r)
    (h : "]]>".toList <:+: run ++ ('&' :: u ++ x)) : "]]>".toList <:+: run ∨ "]]>".toList <:+: x := by
  obtain ⟨w, rfl⟩ := hu.last
  rcases Text.infix_append_cons (by decide) h with h | h
  · exact .inl h
  · replace h : "]]>".toList <:+: w ++ ';' :: x := by simpa using h
    rcases Text.infix_append_cons (by decide) h with h | h
    · exact absurd (List.mem_append_left _ (h.subset (by decide))) hu.bracket_notMem
    · exact .inr h

/-- Data with references are refused for a mark in them, or for what follows. -/
theorem Spells.refused (h : Spells x y) (hs : s.head?.any isPlain = false) (run : Text)
    (hplain : run.all isPlain) (hlegal : run.all isLegal)
    (hbad : "]]>".toList <:+: run ++ x ∨ Refused es depth s) : Refused es depth (run ++ (x ++ s)) := by
  induction h generalizing run with
  | nil =>
    rw [List.append_nil] at hbad
    by_cases hmark : "]]>".toList <:+: run
    · exact refused_of_mark hplain hmark hs
    · exact (hbad.resolve_left hmark).append_data ⟨hplain, hlegal, hmark⟩ hs
  | @plain c x y hc hc' _ ih =>
    have hrun := ih (run ++ [c]) (by simp_all) (by simp_all) (by simpa using hbad)
    simpa using hrun
  | @char c u x y hu _ ih =>
    by_cases hmark : "]]>".toList <:+: run
    · exact refused_of_mark hplain hmark rfl
    have hrest : Refused es depth (x ++ s) :=
      ih [] rfl rfl (hbad.imp_left fun h => (mark_around_reference hu h).resolve_left hmark)
    have hreference : Refused es depth ('&' :: u ++ x ++ s) := by
      intro fuel hfuel
      obtain ⟨fuel, rfl⟩ : ∃ n, fuel = n + 1 := ⟨fuel - 1, by omega⟩
      simp only [List.length_append, List.length_cons] at hfuel
      rw [List.append_assoc, List.cons_append, readContent_char hu,
        hrest fuel (by rw [List.length_append]; omega)]
      rfl
    exact hreference.append_data ⟨hplain, hlegal, hmark⟩ rfl

/-! ### Content -/

variable {ps qs : List Piece} {ts : List Tree}

theorem staysOpen_cons_markup : StaysOpen needle x (.markup u :: ps) ↔ StaysOpen needle x ps := by
  simp [StaysOpen]

theorem staysOpen_cons_data : StaysOpen needle x (.data t :: ps) ↔
    ¬ "]]>".toList <:+: Text.replace needle x t ∧ StaysOpen needle x ps := by
  simp only [StaysOpen, List.mem_cons, Piece.data.injEq]
  constructor
  · exact fun h => ⟨h t (.inl rfl), fun u hu => h u (.inr hu)⟩
  · rintro ⟨ht, hps⟩ u (rfl | hu)
    · exact ht
    · exact hps u hu

theorem staysOpen_append : StaysOpen needle x (ps ++ qs) ↔ StaysOpen needle x ps ∧ StaysOpen needle x qs := by
  simp only [StaysOpen, List.mem_append]
  exact ⟨fun h => ⟨fun t ht => h t (.inl ht), fun t ht => h t (.inr ht)⟩,
    fun ⟨hps, hqs⟩ t ht => ht.elim (hps t) (hqs t)⟩

/-- Where content does not begin with data, it does not do so filled either. -/
theorem Laid.head_filled (h : Laid es depth ps ts) (hhead : (joined ps).head?.any isPlain = false)
    (ht : Ends t) : (filled needle x ps ++ t).head?.any isPlain = false := by
  cases h with
  | nil => rcases ht with rfl | ⟨t, rfl⟩ <;> rfl
  | @data _ _ _ _ u hu hne =>
    obtain ⟨c, u, rfl⟩ := List.exists_cons_of_ne_nil hne
    have hc : isPlain c := List.all_eq_true.1 hu.plain c List.mem_cons_self
    simp [hc] at hhead
  | _ => rfl

theorem readElement_refused {content : Recogniser (List Tree)} {name u : Text} {as : List (Text × Text)}
    (hname : isName name) (hu : TagRest es u (as, false)) (hfuel : u.length + es.size < fuel) {t : Text}
    (ht : content t = none) : readElement fuel es content (name ++ (u ++ t)) = none := by
  simp only [readElement, readName_eq_some_iff.2 ⟨rfl, hname, hu.head t⟩, Option.bind_eq_bind,
    Option.bind_some, hu.read fuel hfuel t, ht, Option.bind_none]

/-- Content is refused once some of its data hold a mark. -/
theorem Laid.refused (hne : needle ≠ []) (h : Laid es depth ps ts) (hxy : Spells x y)
    (hclosed : ¬ StaysOpen needle x ps) : ∀ t, Ends t → Refused es depth (filled needle x ps ++ t) := by
  induction h with
  | nil => exact absurd (fun t ht => by cases ht) hclosed
  | comment hc _ ih =>
    rw [staysOpen_cons_markup] at hclosed
    intro t ht fuel hfuel
    obtain ⟨fuel, rfl⟩ : ∃ n, fuel = n + 1 := ⟨fuel - 1, by omega⟩
    have hrest := ih hclosed t ht fuel (by simp at hfuel ⊢; omega)
    simp [readContent_comment hc, hrest]
  | cdata hc _ ih =>
    rw [staysOpen_cons_markup] at hclosed
    intro t ht fuel hfuel
    obtain ⟨fuel, rfl⟩ : ∃ n, fuel = n + 1 := ⟨fuel - 1, by omega⟩
    have hrest := ih hclosed t ht fuel (by simp at hfuel ⊢; omega)
    simp [readContent_cdata hc, hrest]
  | instruction hd _ ih =>
    rw [staysOpen_cons_markup] at hclosed
    intro t ht fuel hfuel
    obtain ⟨fuel, rfl⟩ : ∃ n, fuel = n + 1 := ⟨fuel - 1, by omega⟩
    have hrest := ih hclosed t ht fuel (by simp at hfuel ⊢; omega)
    simp [readContent_instruction hd, hrest]
  | @empty es depth ps ts name u as hdepth hname hu _ ih =>
    rw [openingTag, staysOpen_cons_markup] at hclosed
    intro t ht fuel hfuel
    obtain ⟨fuel, rfl⟩ : ∃ n, fuel = n + 1 := ⟨fuel - 1, by omega⟩
    simp only [openingTag, filled_cons, Piece.filled_markup, List.length_append, List.length_cons] at hfuel
    have hrest := ih hclosed t ht fuel (by rw [List.length_append]; omega)
    have hread : readElement fuel es (readContent fuel (depth + 1) es)
        (name ++ (u ++ (filled needle x ps ++ t))) = some (.element name as [], filled needle x ps ++ t) :=
      readElement_empty hname hu (by omega) _
    simp [openingTag, readContent_opening hdepth hname, hread, hrest]
  | @element es depth inner ps children ts name u w as hdepth hname hu hinner hw _ ihinner ih =>
    rw [openingTag, staysOpen_cons_markup, staysOpen_append, closingTag, staysOpen_cons_markup] at hclosed
    intro t ht fuel hfuel
    obtain ⟨fuel, rfl⟩ : ∃ n, fuel = n + 1 := ⟨fuel - 1, by omega⟩
    simp only [openingTag, closingTag, filled_cons, filled_append, Piece.filled_markup,
      List.length_append, List.length_cons] at hfuel
    have hends : Ends ('<' :: '/' :: (name ++ (w ++ '>' :: (filled needle x ps ++ t)))) := .inr ⟨_, rfl⟩
    have htext : filled needle x (openingTag name u :: (inner ++ closingTag name w :: ps)) ++ t =
        '<' :: (name ++ (u ++ (filled needle x inner ++
          '<' :: '/' :: (name ++ (w ++ '>' :: (filled needle x ps ++ t)))))) := by
      simp [openingTag, closingTag]
    rw [htext, readContent_opening hdepth hname]
    by_cases hopen : StaysOpen needle x inner
    · have hrest := ih (fun h => hclosed ⟨hopen, h⟩) t ht fuel (by rw [List.length_append]; omega)
      obtain ⟨os, hos⟩ := hinner.exists_outlines hne
      obtain ⟨qs, hqs, hjoined, -⟩ := hos.fill x y hxy hopen
      have hcontent := hqs.read fuel (by rw [hjoined]; omega) _ hends
      rw [hjoined] at hcontent
      rw [readElement_content hname hu (by omega) hw _ hcontent]
      simp only [Option.bind_some, hrest, Option.map_none]
    · have hcontent := ihinner hopen _ hends fuel (by
        simp only [List.length_append, List.length_cons, List.length_nil] at hfuel ⊢
        omega)
      rw [readElement_refused hname hu (by omega) hcontent, Option.bind_none]
  | char hu _ ih =>
    rw [staysOpen_cons_markup] at hclosed
    intro t ht fuel hfuel
    obtain ⟨fuel, rfl⟩ : ∃ n, fuel = n + 1 := ⟨fuel - 1, by omega⟩
    have hrest := ih hclosed t ht fuel (by simp at hfuel ⊢; omega)
    simp [readContent_char hu, hrest]
  | @entity es depth inner ps nodes ts name u hu hx hinner _ _ ih =>
    rw [staysOpen_cons_markup] at hclosed
    intro t ht fuel hfuel
    obtain ⟨fuel, rfl⟩ : ∃ n, fuel = n + 1 := ⟨fuel - 1, by omega⟩
    have hrest := ih hclosed t ht fuel (by simp at hfuel ⊢; omega)
    simp only [filled_cons, Piece.filled_markup, List.length_append, List.length_cons] at hfuel
    have hsize := size_without_add_le hx
    have hnodes := hinner.read fuel (by omega) [] (.inl rfl)
    rw [List.append_nil] at hnodes
    simp [readContent_entity hu hx hnodes, hrest]
  | @data es depth ps ts u hu _ hhead hps ih =>
    rw [staysOpen_cons_data, not_and_or, not_not] at hclosed
    intro t ht
    rw [filled_cons, Piece.filled_data, List.append_assoc]
    exact (hxy.replace hne hu.plain hu.legal).refused (hps.head_filled hhead ht) [] rfl rfl
      (hclosed.imp id fun h => ih h t ht)

/-! ### Whole texts -/

theorem LaidElement.refused (hne : needle ≠ []) {node : Tree} (h : LaidElement es depth ps node)
    (hxy : Spells x y) (hclosed : ¬ StaysOpen needle x ps) (t : Text) (fuel : Nat)
    (hfuel : (filled needle x ps ++ t).length + es.size ≤ fuel) :
    readElement fuel es (readContent fuel (depth + 1) es) ((filled needle x ps).tail ++ t) = none := by
  cases h with
  | empty =>
    rw [openingTag, staysOpen_cons_markup] at hclosed
    exact absurd (fun t ht => by cases ht) hclosed
  | @content inner children name u w as hname hu hinner hw =>
    rw [openingTag, staysOpen_cons_markup, staysOpen_append, closingTag, staysOpen_cons_markup] at hclosed
    have hopen : ¬ StaysOpen needle x inner := fun h => hclosed ⟨h, fun t ht => by cases ht⟩
    simp only [openingTag, closingTag, filled_cons, filled_append, Piece.filled_markup,
      List.length_append, List.length_cons] at hfuel
    have hcontent := hinner.refused hne hxy hopen ('<' :: '/' :: (name ++ (w ++ '>' :: t))) (.inr ⟨_, rfl⟩)
      fuel (by simp only [List.length_append, List.length_cons, List.length_nil] at hfuel ⊢; omega)
    have htext : (filled needle x (openingTag name u :: (inner ++ [closingTag name w]))).tail ++ t =
        name ++ (u ++ (filled needle x inner ++ '<' :: '/' :: (name ++ (w ++ '>' :: t)))) := by
      simp [openingTag, closingTag, filled]
    rw [htext]
    exact readElement_refused hname hu (by omega) hcontent

theorem LaidElement.opening_filled {node : Tree} (h : LaidElement es depth ps node)
    (needle x : Text) :
    ∃ name u, isName name ∧ filled needle x ps = '<' :: (name ++ u) := by
  cases h with
  | @empty name u _ hname => exact ⟨name, u, hname, by simp [openingTag, filled]⟩
  | @content inner _ name u w _ hname _ _ _ =>
    exact ⟨name, u ++ (filled needle x inner ++ '<' :: '/' :: (name ++ (w ++ ['>']))), hname,
      by simp [openingTag, closingTag, filled]⟩

/-- Data that hold a mark leave no document. -/
theorem Cut.refused {a : Source} (h : Cut ps a) (hneedle : Unmarked needle) (hne : needle ≠ [])
    (hps : ∀ u, .markup u ∈ ps → ¬ needle <:+: u) (hxy : Spells x y) (hclosed : ¬ StaysOpen needle x ps) :
    readSource (Text.replace needle x (joined ps)) = none := by
  rw [h.replace_joined hneedle hne hps]
  cases h with
  | @intro front back p ps root after hfront hroot hback =>
    rw [staysOpen_cons_markup, staysOpen_append, staysOpen_cons_markup] at hclosed
    have hopen : ¬ StaysOpen needle x ps := fun h => hclosed ⟨h, fun t ht => by cases ht⟩
    obtain ⟨name, u, hname, hopening⟩ := hroot.opening_filled needle x
    have hprolog : readProlog (front ++ (filled needle x ps ++ back)) =
        some (p, filled needle x ps ++ back) := by
      refine hfront.read ?_
      rw [hopening, List.cons_append, List.append_assoc]
      exact .of_isName hname _
    have hread : readElement ((name ++ u ++ back).length + p.entities.size + 1) p.entities
        (readContent ((name ++ u ++ back).length + p.entities.size + 1) 1 p.entities)
        (name ++ u ++ back) = none := by
      simpa [hopening] using hroot.refused hne hxy hopen back
        ((name ++ u ++ back).length + p.entities.size + 1) (by simp [hopening]; omega)
    have htext : filled needle x (.markup front :: (ps ++ [.markup back])) =
        front ++ (filled needle x ps ++ back) := by
      simp [filled]
    rw [htext, readSource, hprolog, hopening]
    simp only [List.cons_append, Option.bind_eq_bind, Option.bind_some, hread, Option.bind_none]

end DeckMerge.Xml
