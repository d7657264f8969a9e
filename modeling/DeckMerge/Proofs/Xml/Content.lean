import DeckMerge.Proofs.Xml.Tag

/-!
The grammar of an element's content, and that the reader takes exactly what it derives. A derivation
cuts the text into data, which stand for themselves, and markup.
-/

namespace DeckMerge.Xml

open Recogniser

variable {s rest t : Text} {es : Entities} {depth : Nat}

/-! ### Comments, sections, instructions and data -/

structure IsComment (c : Text) : Prop where
  ended : Text.Ended "--" c
  legal : c.all isLegal

theorem readComment_eq_some_iff {c : Text} :
    readComment s = some (c, rest) ↔ IsComment c ∧ s = c ++ '-' :: '-' :: '>' :: rest := by
  simp only [readComment, Option.bind_eq_bind, Option.bind_eq_some_iff, Prod.exists,
    Text.breakOn?_eq_some_iff_ended (show "--".toList ≠ [] by decide)]
  constructor
  · rintro ⟨c', t, ⟨hended, rfl⟩, h⟩
    split at h
    case h_2 => cases h
    case h_1 heq =>
      obtain ⟨rfl, rfl⟩ := Prod.mk.inj heq
      split at h
      case isFalse => cases h
      case isTrue hlegal =>
        obtain ⟨rfl, rfl⟩ := Prod.mk.inj (Option.some.inj h)
        exact ⟨⟨hended, hlegal⟩, rfl⟩
  · rintro ⟨⟨hended, hlegal⟩, rfl⟩
    exact ⟨c, '>' :: rest, ⟨hended, rfl⟩, if_pos hlegal⟩

structure IsSection (c : Text) : Prop where
  ended : Text.Ended "]]>" c
  legal : c.all isLegal

theorem readSection_eq_some_iff {c : Text} :
    readSection s = some (c, rest) ↔ IsSection c ∧ s = c ++ ']' :: ']' :: '>' :: rest := by
  simp only [readSection, Option.bind_eq_bind, Option.bind_eq_some_iff, Prod.exists,
    Text.breakOn?_eq_some_iff_ended (show "]]>".toList ≠ [] by decide)]
  constructor
  · rintro ⟨c', t, ⟨hended, rfl⟩, h⟩
    split at h
    case isFalse => cases h
    case isTrue hlegal =>
      obtain ⟨rfl, rfl⟩ := Prod.mk.inj (Option.some.inj h)
      exact ⟨⟨hended, hlegal⟩, rfl⟩
  · rintro ⟨⟨hended, hlegal⟩, rfl⟩
    exact ⟨c, rest, ⟨hended, rfl⟩, if_pos hlegal⟩

/-- An instruction's target and what is written behind it. -/
structure IsInstruction (target d : Text) : Prop where
  name : isName target
  notReserved : target ≠ "xml".toList
  ended : Text.Ended "?>" d
  legal : d.all isLegal
  blank : d = [] ∨ d.head?.any isSpace

theorem IsInstruction.head {target d : Text} (h : IsInstruction target d) (t : Text) :
    (d ++ '?' :: '>' :: t).head?.any isNameChar = false := by
  cases d with
  | nil => rfl
  | cons c d =>
    have hc : isSpace c := by simpa using h.blank
    exact isNameChar_of_isSpace hc

theorem readInstruction_eq_some_iff {n : Tree} : readInstruction s = some (n, rest) ↔
    ∃ target d, IsInstruction target d ∧ n = .instruction target (skipSpace d) ∧
      s = target ++ (d ++ '?' :: '>' :: rest) := by
  simp only [readInstruction, Option.bind_eq_bind, Option.bind_eq_some_iff, Prod.exists,
    Text.breakOn?_eq_some_iff_ended (show "?>".toList ≠ [] by decide)]
  constructor
  · rintro ⟨target, t, hread, d, rest', ⟨hended, rfl⟩, h⟩
    obtain ⟨rfl, hname, -⟩ := readName_eq_some_iff.1 hread
    split at h
    case isFalse => cases h
    case isTrue hconditions =>
      obtain ⟨rfl, rfl⟩ := Prod.mk.inj (Option.some.inj h)
      obtain ⟨hreserved, hlegal, hblank⟩ := hconditions
      exact ⟨target, d, ⟨hname, hreserved, hended, hlegal, hblank⟩, rfl, rfl⟩
  · rintro ⟨target, d, hd, rfl, rfl⟩
    exact ⟨target, _, readName_eq_some_iff.2 ⟨rfl, hd.name, hd.head rest⟩, d, rest, ⟨hd.ended, rfl⟩,
      if_pos ⟨hd.notReserved, hd.legal, hd.blank⟩⟩

/-- Characters that stand for themselves in content. -/
def isPlain (c : Char) : Bool := c != '<' && c != '&'

structure IsData (t : Text) : Prop where
  plain : t.all isPlain
  legal : t.all isLegal
  unmarked : ¬ "]]>".toList <:+: t

theorem readCharacters_eq_some_iff : readCharacters s = some (t, rest) ↔
    IsData t ∧ rest.head?.any isPlain = false ∧ s = t ++ rest := by
  have hholds : ∀ t : Text, (t.all isLegal && !Text.holds t "]]>") = true ↔
      t.all isLegal ∧ ¬ "]]>".toList <:+: t := by
    intro t
    rw [Bool.and_eq_true, Bool.not_eq_true', ← Bool.not_eq_true, Text.holds_iff]
  have hspan : readCharacters s =
      if (s.span isPlain).1.all isLegal && !Text.holds (s.span isPlain).1 "]]>" then
        some (s.span isPlain) else none := rfl
  rw [hspan]
  constructor
  · intro h
    split at h
    case isFalse => cases h
    case isTrue hdata =>
      obtain ⟨heq, hplain, hend⟩ := Text.span_eq_iff.1 (Option.some.inj h)
      rw [Option.some.inj h] at hdata
      obtain ⟨hlegal, hunmarked⟩ := (hholds _).1 hdata
      exact ⟨⟨hplain, hlegal, hunmarked⟩, hend, heq⟩
  · rintro ⟨⟨hplain, hlegal, hunmarked⟩, hend, rfl⟩
    rw [Text.span_eq_iff.2 ⟨rfl, hplain, hend⟩]
    exact if_pos ((hholds t).2 ⟨hlegal, hunmarked⟩)

/-- Where neither markup nor a reference begins, there are data. -/
theorem ne_nil_of_readCharacters (h : readCharacters s = some (t, rest)) (hnil : s ≠ [])
    (hlt : ∀ u, s ≠ '<' :: u) (hamp : ∀ u, s ≠ '&' :: u) : t ≠ [] := by
  obtain ⟨-, hend, rfl⟩ := readCharacters_eq_some_iff.1 h
  rintro rfl
  cases rest with
  | nil => exact hnil rfl
  | cons c u =>
    have hc : isPlain c = false := by simpa using hend
    simp only [isPlain, Bool.and_eq_false_iff, bne_eq_false_iff_eq] at hc
    rcases hc with rfl | rfl
    · exact hlt u rfl
    · exact hamp u rfl

/-! ### Derivations -/

/-- A stretch of content: data, or markup. -/
inductive Piece
  | data (t : Text)
  | markup (u : Text)

def Piece.text : Piece → Text
  | .data t => t
  | .markup u => u

/-- The text that is cut into pieces. -/
def joined (ps : List Piece) : Text := ps.flatMap Piece.text

@[simp] theorem joined_nil : joined [] = [] := rfl

@[simp] theorem joined_cons (p : Piece) (ps : List Piece) : joined (p :: ps) = p.text ++ joined ps := rfl

@[simp] theorem joined_append (ps qs : List Piece) : joined (ps ++ qs) = joined ps ++ joined qs :=
  List.flatMap_append

@[simp] theorem Piece.text_data (t : Text) : (Piece.data t).text = t := rfl

@[simp] theorem Piece.text_markup (u : Text) : (Piece.markup u).text = u := rfl

/-- The tag that opens an element, or is one. -/
def openingTag (name u : Text) : Piece := .markup ('<' :: (name ++ u))

/-- The tag that closes an element, blanks included. -/
def closingTag (name w : Text) : Piece := .markup ('<' :: '/' :: (name ++ (w ++ ['>'])))

/-- Content of elements, as deep as it lies, with the entities that it may refer to. -/
inductive Laid : Entities → Nat → List Piece → List Tree → Prop
  | nil {es : Entities} {depth : Nat} : Laid es depth [] []
  | comment {es : Entities} {depth : Nat} {ps : List Piece} {ts : List Tree} {c : Text} :
    IsComment c → Laid es depth ps ts →
    Laid es depth (.markup ('<' :: '!' :: '-' :: '-' :: (c ++ ['-', '-', '>'])) :: ps) (.comment c :: ts)
  | cdata {es : Entities} {depth : Nat} {ps : List Piece} {ts : List Tree} {c : Text} :
    IsSection c → Laid es depth ps ts →
    Laid es depth (.markup ('<' :: '!' :: '[' :: 'C' :: 'D' :: 'A' :: 'T' :: 'A' :: '[' ::
      (c ++ [']', ']', '>'])) :: ps) (Tree.consText c ts)
  | instruction {es : Entities} {depth : Nat} {ps : List Piece} {ts : List Tree} {target d : Text} :
    IsInstruction target d → Laid es depth ps ts →
    Laid es depth (.markup ('<' :: '?' :: (target ++ (d ++ ['?', '>']))) :: ps)
      (.instruction target (skipSpace d) :: ts)
  | empty {es : Entities} {depth : Nat} {ps : List Piece} {ts : List Tree} {name u : Text}
    {as : List (Text × Text)} : depth ≤ maxDepth → isName name → TagRest es u (as, true) →
    Laid es depth ps ts → Laid es depth (openingTag name u :: ps) (.element name as [] :: ts)
  | element {es : Entities} {depth : Nat} {inner ps : List Piece} {children ts : List Tree}
    {name u w : Text} {as : List (Text × Text)} : depth ≤ maxDepth → isName name →
    TagRest es u (as, false) → Laid es (depth + 1) inner children → w.all isSpace →
    Laid es depth ps ts →
    Laid es depth (openingTag name u :: (inner ++ closingTag name w :: ps))
      (.element name as children :: ts)
  | char {es : Entities} {depth : Nat} {ps : List Piece} {ts : List Tree} {u : Text} {c : Char} :
    Refers u (.char c) → Laid es depth ps ts →
    Laid es depth (.markup ('&' :: u) :: ps) (Tree.consText [c] ts)
  | entity {es : Entities} {depth : Nat} {inner ps : List Piece} {nodes ts : List Tree}
    {name u : Text} : Refers u (.entity name) → es.lookup name = some (joined inner) →
    Laid (es.without name) depth inner nodes → Laid es depth ps ts →
    Laid es depth (.markup ('&' :: u) :: ps) (Tree.join nodes ts)
  | data {es : Entities} {depth : Nat} {ps : List Piece} {ts : List Tree} {t : Text} :
    IsData t → t ≠ [] → (joined ps).head?.any isPlain = false → Laid es depth ps ts →
    Laid es depth (.data t :: ps) (Tree.consText t ts)

/-- Where content ends: before a closing tag, or with the text. -/
def Ends (s : Text) : Prop := s = [] ∨ ∃ t, s = '<' :: '/' :: t

/-! ### Reading what is derived -/

variable {fuel : Nat} {c : Char}

theorem bind_more (f : List Tree → List Tree) (x : Option (List Tree × Text)) :
    (do let (more, rest) ← x; return (f more, rest)) = x.map (Prod.map f id) := by
  cases x <;> rfl

theorem readContent_ends (h : Ends s) : readContent (fuel + 1) depth es s = some ([], s) := by
  rcases h with rfl | ⟨t, rfl⟩ <;> rfl

theorem readContent_comment {c : Text} (hc : IsComment c) (t : Text) :
    readContent (fuel + 1) depth es ('<' :: '!' :: '-' :: '-' :: (c ++ '-' :: '-' :: '>' :: t)) =
      (readContent fuel depth es t).map (Prod.map (.comment c :: ·) id) := by
  change (readComment _).bind _ = _
  rw [readComment_eq_some_iff.2 ⟨hc, rfl⟩]
  exact bind_more _ _

theorem readContent_cdata {c : Text} (hc : IsSection c) (t : Text) :
    readContent (fuel + 1) depth es
        ('<' :: '!' :: '[' :: 'C' :: 'D' :: 'A' :: 'T' :: 'A' :: '[' :: (c ++ ']' :: ']' :: '>' :: t)) =
      (readContent fuel depth es t).map (Prod.map (Tree.consText c) id) := by
  change (readSection _).bind _ = _
  rw [readSection_eq_some_iff.2 ⟨hc, rfl⟩]
  exact bind_more _ _

theorem readContent_instruction {target d : Text} (hd : IsInstruction target d) (t : Text) :
    readContent (fuel + 1) depth es ('<' :: '?' :: (target ++ (d ++ '?' :: '>' :: t))) =
      (readContent fuel depth es t).map (Prod.map (.instruction target (skipSpace d) :: ·) id) := by
  change (readInstruction _).bind _ = _
  rw [readInstruction_eq_some_iff.2 ⟨target, d, hd, rfl, rfl⟩]
  exact bind_more _ _

theorem cons_of_isName {name : Text} (h : isName name) : ∃ c u, name = c :: u ∧ isNameStart c := by
  cases name with
  | nil => cases h
  | cons c u =>
    simp only [isName, Bool.and_eq_true] at h
    exact ⟨c, u, rfl, h.1⟩

theorem readContent_opening (hdepth : depth ≤ maxDepth) {name : Text} (hname : isName name) (u : Text) :
    readContent (fuel + 1) depth es ('<' :: (name ++ u)) =
      (readElement fuel es (readContent fuel (depth + 1) es) (name ++ u)).bind fun (node, t) =>
        (readContent fuel depth es t).map (Prod.map (node :: ·) id) := by
  have hne : ∀ d v, isNameStart d = false → name ++ u ≠ d :: v := by
    intro d v hd heq
    obtain ⟨c, name, rfl, hc⟩ := cons_of_isName hname
    obtain ⟨rfl, -⟩ := List.cons.inj heq
    rw [hd] at hc
    cases hc
  rw [readContent.eq_7, if_neg (Nat.not_lt.2 hdepth)]
  · cases readElement fuel es (readContent fuel (depth + 1) es) (name ++ u) with
    | none => rfl
    | some x => exact bind_more _ _
  · exact fun _ => hne '/' _ (by decide)
  · exact fun _ => hne '!' _ (by decide)
  · exact fun _ => hne '!' _ (by decide)
  · exact fun _ => hne '?' _ (by decide)

theorem readContent_char {u : Text} (hu : Refers u (.char c)) (t : Text) :
    readContent (fuel + 1) depth es ('&' :: (u ++ t)) =
      (readContent fuel depth es t).map (Prod.map (Tree.consText [c]) id) := by
  change (readReference _).bind _ = _
  rw [hu.takes t]
  exact bind_more _ _

theorem readContent_entity {u name x : Text} {nodes : List Tree} (hu : Refers u (.entity name))
    (hx : es.lookup name = some x)
    (hnodes : readContent fuel depth (es.without name) x = some (nodes, [])) (t : Text) :
    readContent (fuel + 1) depth es ('&' :: (u ++ t)) =
      (readContent fuel depth es t).map (Prod.map (Tree.join nodes) id) := by
  change (readReference _).bind _ = _
  rw [hu.takes t]
  simp only [Option.bind_eq_bind, Option.bind_some, hx, hnodes]
  exact bind_more _ _

theorem readContent_plain (hc : isPlain c) (s : Text) : readContent (fuel + 1) depth es (c :: s) =
    (readCharacters (c :: s)).bind fun (u, t) =>
      (readContent fuel depth es t).map (Prod.map (Tree.consText u) id) := by
  have hlt : c ≠ '<' := by rintro rfl; cases hc
  have hamp : c ≠ '&' := by rintro rfl; cases hc
  rw [readContent.eq_9]
  · cases readCharacters (c :: s) with
    | none => rfl
    | some x => exact bind_more _ _
  · exact fun h => List.cons_ne_nil _ _ h
  · exact fun _ h => hlt (List.cons.inj h).1
  · exact fun _ h => hlt (List.cons.inj h).1
  · exact fun _ h => hlt (List.cons.inj h).1
  · exact fun _ h => hlt (List.cons.inj h).1
  · exact fun _ h => hlt (List.cons.inj h).1
  · exact fun _ h => hamp (List.cons.inj h).1

theorem readContent_data {u : Text} (hu : IsData u) (hne : u ≠ [])
    (ht : t.head?.any isPlain = false) : readContent (fuel + 1) depth es (u ++ t) =
      (readContent fuel depth es t).map (Prod.map (Tree.consText u) id) := by
  have hread : readCharacters (u ++ t) = some (u, t) := readCharacters_eq_some_iff.2 ⟨hu, ht, rfl⟩
  cases u with
  | nil => exact absurd rfl hne
  | cons c u =>
    have hc : isPlain c := List.all_eq_true.1 hu.plain c (List.mem_cons_self)
    rw [List.cons_append] at hread ⊢
    rw [readContent_plain hc, hread]
    rfl

theorem readElement_empty {content : Recogniser (List Tree)} {name u : Text} {as : List (Text × Text)}
    (hname : isName name) (hu : TagRest es u (as, true)) (hfuel : u.length + es.size < fuel)
    (t : Text) : readElement fuel es content (name ++ (u ++ t)) = some (.element name as [], t) := by
  simp only [readElement, readName_eq_some_iff.2 ⟨rfl, hname, hu.head t⟩, Option.bind_eq_bind,
    Option.bind_some, hu.read fuel hfuel t]
  rfl

theorem readElement_content {content : Recogniser (List Tree)} {name u w inner : Text}
    {as : List (Text × Text)} {children : List Tree} (hname : isName name)
    (hu : TagRest es u (as, false)) (hfuel : u.length + es.size < fuel) (hw : w.all isSpace) (t : Text)
    (hinner : content (inner ++ ('<' :: '/' :: (name ++ (w ++ '>' :: t)))) =
      some (children, '<' :: '/' :: (name ++ (w ++ '>' :: t)))) :
    readElement fuel es content
        (name ++ (u ++ (inner ++ ('<' :: '/' :: (name ++ (w ++ '>' :: t)))))) =
      some (.element name as children, t) := by
  have hclosing : readClosing? name ('<' :: '/' :: (name ++ (w ++ '>' :: t))) = some t :=
    readClosing?_eq_some_iff.2 ⟨w, hw, by simp⟩
  simp only [readElement, readName_eq_some_iff.2 ⟨rfl, hname, hu.head _⟩, Option.bind_eq_bind,
    Option.bind_some, hu.read fuel hfuel _, hinner, hclosing]
  rfl

/-- Reading gives what is derived, once there are more steps than characters. -/
theorem Laid.read {ps : List Piece} {ts : List Tree} (h : Laid es depth ps ts) :
    ∀ fuel, (joined ps).length + es.size < fuel → ∀ t, Ends t →
      readContent fuel depth es (joined ps ++ t) = some (ts, t) := by
  induction h with
  | nil =>
    intro fuel hfuel t ht
    obtain ⟨fuel, rfl⟩ : ∃ n, fuel = n + 1 := ⟨fuel - 1, by omega⟩
    exact readContent_ends ht
  | comment hc _ ih =>
    intro fuel hfuel t ht
    obtain ⟨fuel, rfl⟩ : ∃ n, fuel = n + 1 := ⟨fuel - 1, by omega⟩
    simp only [joined_cons, Piece.text_markup, List.length_append, List.length_cons] at hfuel
    simp [readContent_comment hc, ih fuel (by omega) t ht]
  | cdata hc _ ih =>
    intro fuel hfuel t ht
    obtain ⟨fuel, rfl⟩ : ∃ n, fuel = n + 1 := ⟨fuel - 1, by omega⟩
    simp only [joined_cons, Piece.text_markup, List.length_append, List.length_cons] at hfuel
    simp [readContent_cdata hc, ih fuel (by omega) t ht]
  | instruction hd _ ih =>
    intro fuel hfuel t ht
    obtain ⟨fuel, rfl⟩ : ∃ n, fuel = n + 1 := ⟨fuel - 1, by omega⟩
    simp only [joined_cons, Piece.text_markup, List.length_append, List.length_cons] at hfuel
    simp [readContent_instruction hd, ih fuel (by omega) t ht]
  | @empty es depth ps ts name u as hdepth hname hu _ ih =>
    intro fuel hfuel t ht
    obtain ⟨fuel, rfl⟩ : ∃ n, fuel = n + 1 := ⟨fuel - 1, by omega⟩
    simp only [joined_cons, openingTag, Piece.text_markup, List.length_append, List.length_cons] at hfuel
    have hread : readElement fuel es (readContent fuel (depth + 1) es) (name ++ (u ++ (joined ps ++ t))) =
        some (.element name as [], joined ps ++ t) := readElement_empty hname hu (by omega) _
    simp [openingTag, readContent_opening hdepth hname, hread, ih fuel (by omega) t ht]
  | @element es depth inner ps children ts name u w as hdepth hname hu _ hw _ ihinner ih =>
    intro fuel hfuel t ht
    obtain ⟨fuel, rfl⟩ : ∃ n, fuel = n + 1 := ⟨fuel - 1, by omega⟩
    simp only [joined_cons, joined_append, openingTag, closingTag, Piece.text_markup,
      List.length_append, List.length_cons] at hfuel
    have hinner := ihinner fuel (by omega) ('<' :: '/' :: (name ++ (w ++ '>' :: (joined ps ++ t))))
      (.inr ⟨_, rfl⟩)
    have hread := readElement_content hname hu (show u.length + es.size < fuel by omega) hw
      (joined ps ++ t) hinner
    simp [openingTag, closingTag, readContent_opening hdepth hname, hread, ih fuel (by omega) t ht]
  | char hu _ ih =>
    intro fuel hfuel t ht
    obtain ⟨fuel, rfl⟩ : ∃ n, fuel = n + 1 := ⟨fuel - 1, by omega⟩
    simp only [joined_cons, Piece.text_markup, List.length_append, List.length_cons] at hfuel
    simp [readContent_char hu, ih fuel (by omega) t ht]
  | @entity es depth inner ps nodes ts name u hu hx _ _ ihinner ih =>
    intro fuel hfuel t ht
    obtain ⟨fuel, rfl⟩ : ∃ n, fuel = n + 1 := ⟨fuel - 1, by omega⟩
    simp only [joined_cons, Piece.text_markup, List.length_append, List.length_cons] at hfuel
    have hsize := size_without_add_le hx
    have hnodes := ihinner fuel (by omega) [] (.inl rfl)
    rw [List.append_nil] at hnodes
    simp [readContent_entity hu hx hnodes, ih fuel (by omega) t ht]
  | @data es depth ps ts u hu hne hhead _ ih =>
    intro fuel hfuel t ht
    obtain ⟨fuel, rfl⟩ : ∃ n, fuel = n + 1 := ⟨fuel - 1, by omega⟩
    have hlength := List.length_pos_iff.2 hne
    simp only [joined_cons, Piece.text_data, List.length_append] at hfuel
    have hend : (joined ps ++ t).head?.any isPlain = false := by
      cases hps : joined ps with
      | nil => rcases ht with rfl | ⟨t, rfl⟩ <;> rfl
      | cons c v => simpa [hps] using hhead
    simp [readContent_data hu hne hend, ih fuel (by omega) t ht]

/-! ### Deriving what is read -/

/-- An element by itself. -/
inductive LaidElement (es : Entities) (depth : Nat) : List Piece → Tree → Prop
  | empty {name u : Text} {as : List (Text × Text)} : isName name → TagRest es u (as, true) →
    LaidElement es depth [openingTag name u] (.element name as [])
  | content {inner : List Piece} {children : List Tree} {name u w : Text} {as : List (Text × Text)} :
    isName name → TagRest es u (as, false) → Laid es (depth + 1) inner children → w.all isSpace →
    LaidElement es depth (openingTag name u :: (inner ++ [closingTag name w]))
      (.element name as children)

theorem LaidElement.cons {ps qs : List Piece} {node : Tree} {ts : List Tree}
    (h : LaidElement es depth ps node) (hdepth : depth ≤ maxDepth) (hts : Laid es depth qs ts) :
    Laid es depth (ps ++ qs) (node :: ts) := by
  cases h with
  | empty hname hu => exact .empty hdepth hname hu hts
  | content hname hu hinner hw => simpa using Laid.element hdepth hname hu hinner hw hts

theorem laidElement_of_readElement {node : Tree}
    (hcontent : ∀ {s ts rest}, readContent fuel (depth + 1) es s = some (ts, rest) →
      ∃ ps, Laid es (depth + 1) ps ts ∧ s = joined ps ++ rest ∧ Ends rest)
    (h : readElement fuel es (readContent fuel (depth + 1) es) s = some (node, rest)) :
    ∃ ps, LaidElement es depth ps node ∧ '<' :: s = joined ps ++ rest := by
  simp only [readElement, Option.bind_eq_bind, Option.bind_eq_some_iff] at h
  obtain ⟨⟨name, t⟩, hread, x, hx, h⟩ := h
  obtain ⟨rfl, hname, -⟩ := readName_eq_some_iff.1 hread
  split at h
  case h_1 as t' =>
    obtain ⟨rfl, rfl⟩ := Prod.mk.inj (Option.some.inj h)
    obtain ⟨u, hu, rfl⟩ := tagRest_of_readAttributes hx
    exact ⟨_, .empty hname hu, by simp [openingTag]⟩
  case h_2 as t' =>
    simp only [Option.bind_eq_some_iff] at h
    obtain ⟨⟨children, t''⟩, hchildren, rest', hclosing, h⟩ := h
    obtain ⟨rfl, rfl⟩ := Prod.mk.inj (Option.some.inj h)
    obtain ⟨u, hu, rfl⟩ := tagRest_of_readAttributes hx
    obtain ⟨inner, hinner, rfl, -⟩ := hcontent hchildren
    obtain ⟨w, hw, rfl⟩ := readClosing?_eq_some_iff.1 hclosing
    exact ⟨_, .content hname hu hinner hw, by simp [openingTag, closingTag]⟩

/-- What is read has a derivation. -/
theorem laid_of_readContent {ts : List Tree} (h : readContent fuel depth es s = some (ts, rest)) :
    ∃ ps, Laid es depth ps ts ∧ s = joined ps ++ rest ∧ Ends rest := by
  induction fuel generalizing depth es s ts rest with
  | zero => cases h
  | succ fuel ih =>
    unfold readContent at h
    split at h
    case h_1 =>
      obtain ⟨rfl, rfl⟩ := Prod.mk.inj (Option.some.inj h)
      exact ⟨[], .nil, rfl, .inl rfl⟩
    case h_2 t =>
      obtain ⟨rfl, rfl⟩ := Prod.mk.inj (Option.some.inj h)
      exact ⟨[], .nil, rfl, .inr ⟨t, rfl⟩⟩
    case h_3 t =>
      simp only [Option.bind_eq_bind, Option.bind_eq_some_iff] at h
      obtain ⟨⟨c, t'⟩, hread, ⟨more, rest'⟩, hmore, h⟩ := h
      obtain ⟨rfl, rfl⟩ := Prod.mk.inj (Option.some.inj h)
      obtain ⟨hc, rfl⟩ := readComment_eq_some_iff.1 hread
      obtain ⟨ps, hps, rfl, hends⟩ := ih hmore
      exact ⟨_, .comment hc hps, by simp, hends⟩
    case h_4 t =>
      simp only [Option.bind_eq_bind, Option.bind_eq_some_iff] at h
      obtain ⟨⟨c, t'⟩, hread, ⟨more, rest'⟩, hmore, h⟩ := h
      obtain ⟨rfl, rfl⟩ := Prod.mk.inj (Option.some.inj h)
      obtain ⟨hc, rfl⟩ := readSection_eq_some_iff.1 hread
      obtain ⟨ps, hps, rfl, hends⟩ := ih hmore
      exact ⟨_, .cdata hc hps, by simp, hends⟩
    case h_5 t =>
      simp only [Option.bind_eq_bind, Option.bind_eq_some_iff] at h
      obtain ⟨⟨n, t'⟩, hn, ⟨more, rest'⟩, hmore, h⟩ := h
      obtain ⟨rfl, rfl⟩ := Prod.mk.inj (Option.some.inj h)
      obtain ⟨target, d, hd, rfl, rfl⟩ := readInstruction_eq_some_iff.1 hn
      obtain ⟨ps, hps, rfl, hends⟩ := ih hmore
      exact ⟨_, .instruction hd hps, by simp, hends⟩
    case h_6 t _ _ _ _ =>
      split at h
      case isTrue => cases h
      case isFalse hdepth =>
      simp only [Option.bind_eq_bind, Option.bind_eq_some_iff] at h
      obtain ⟨⟨node, t'⟩, hnode, ⟨more, rest'⟩, hmore, h⟩ := h
      obtain ⟨rfl, rfl⟩ := Prod.mk.inj (Option.some.inj h)
      obtain ⟨ps, hps, heq⟩ := laidElement_of_readElement (fun h => ih h) hnode
      obtain ⟨qs, hqs, rfl, hends⟩ := ih hmore
      exact ⟨_, hps.cons (Nat.not_lt.1 hdepth) hqs, by simpa using heq, hends⟩
    case h_7 t =>
      simp only [Option.bind_eq_bind, Option.bind_eq_some_iff] at h
      obtain ⟨⟨r, t'⟩, hr, h⟩ := h
      obtain ⟨u, hu, rfl⟩ := refers_of_readReference hr
      cases r with
      | char c =>
        simp only [Option.bind_eq_some_iff] at h
        obtain ⟨⟨more, rest'⟩, hmore, h⟩ := h
        obtain ⟨rfl, rfl⟩ := Prod.mk.inj (Option.some.inj h)
        obtain ⟨ps, hps, rfl, hends⟩ := ih hmore
        exact ⟨_, .char hu hps, by simp, hends⟩
      | entity name =>
        simp only [Option.bind_eq_some_iff] at h
        obtain ⟨x, hx, ⟨nodes, t''⟩, hnodes, h⟩ := h
        split at h
        case h_2 => cases h
        case h_1 heq =>
        obtain ⟨rfl, rfl⟩ := Prod.mk.inj heq
        simp only [Option.bind_eq_some_iff] at h
        obtain ⟨⟨more, rest'⟩, hmore, h⟩ := h
        obtain ⟨rfl, rfl⟩ := Prod.mk.inj (Option.some.inj h)
        obtain ⟨inner, hinner, rfl, -⟩ := ih hnodes
        rw [List.append_nil] at hx
        obtain ⟨ps, hps, rfl, hends⟩ := ih hmore
        exact ⟨_, .entity hu hx hinner hps, by simp, hends⟩
    case h_8 hnil _ _ _ _ hlt hamp =>
      simp only [Option.bind_eq_bind, Option.bind_eq_some_iff] at h
      obtain ⟨⟨u, t'⟩, hread, ⟨more, rest'⟩, hmore, h⟩ := h
      obtain ⟨rfl, rfl⟩ := Prod.mk.inj (Option.some.inj h)
      have hne := ne_nil_of_readCharacters hread hnil hlt hamp
      obtain ⟨hu, hend, rfl⟩ := readCharacters_eq_some_iff.1 hread
      obtain ⟨ps, hps, rfl, hends⟩ := ih hmore
      have hhead : (joined ps).head?.any isPlain = false := by
        cases hj : joined ps with
        | nil => rfl
        | cons c v => simpa [hj] using hend
      exact ⟨_, .data hu hne hhead hps, by simp, hends⟩

end DeckMerge.Xml
