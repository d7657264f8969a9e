import DeckMerge.Proofs.Association
import DeckMerge.Proofs.Markup.Escape
import DeckMerge.Proofs.Text.Replacing
import DeckMerge.Proofs.Xml.Content

/-!
Content with holes. What stands at the places of a needle in the data of content may be exchanged for
other text, which is read there as if it had been written for the needle; markup stays as it is.
-/

namespace DeckMerge.Xml

/-- No document holds this character, so it can stand for a place to be filled. -/
def hole : Char := '\x00'

def fillText (w t : Text) : Text := t.flatMap fun c => if c = hole then w else [c]

variable {w s t : Text}

@[simp] theorem fillText_append (w s t : Text) : fillText w (s ++ t) = fillText w s ++ fillText w t :=
  List.flatMap_append

theorem fillText_of_notMem (h : hole ∉ t) : fillText w t = t := by
  induction t with
  | nil => rfl
  | cons c t ih =>
    rw [List.mem_cons, not_or] at h
    rw [fillText, List.flatMap_cons, if_neg (Ne.symm h.1), ← fillText, ih h.2]
    rfl

/-- Where the needle was there are holes. -/
theorem fillText_replace {needle : Text} (hne : needle ≠ []) (h : hole ∉ t) :
    fillText w (Text.replace needle [hole] t) = Text.replace needle w t := by
  induction t using Text.replace_induction needle hne with
  | nil => rw [Text.replace_nil hne, Text.replace_nil hne, fillText, List.flatMap_nil]
  | found t ih =>
    rw [Text.replace_append_needle hne, Text.replace_append_needle hne, fillText_append,
      ih fun hmem => h (List.mem_append_right _ hmem), fillText, List.flatMap_singleton, if_pos rfl]
  | cons c t hc ih =>
    rw [List.mem_cons, not_or] at h
    rw [Text.replace_cons hne hc, Text.replace_cons hne hc, fillText, List.flatMap_cons,
      if_neg (Ne.symm h.1), ← fillText, ih h.2]
    rfl

/-! ### Trees -/

mutual

def Tree.fill (w : Text) : Tree → Tree
  | .element name as children => .element name as (fillAll w children)
  | t => t

/-- Fills the holes in the texts of siblings. A text that is empty then is gone. -/
def Tree.fillAll (w : Text) : List Tree → List Tree
  | [] => []
  | .text s :: ts => consText (fillText w s) (fillAll w ts)
  | t :: ts => fill w t :: fillAll w ts

end

namespace Tree

variable {ts : List Tree}

theorem fillAll_element (name : Text) (as : List (Text × Text)) (children : List Tree) :
    fillAll w (.element name as children :: ts) =
      .element name as (fillAll w children) :: fillAll w ts := rfl

theorem fillAll_comment (c : Text) : fillAll w (.comment c :: ts) = .comment c :: fillAll w ts := rfl

theorem fillAll_instruction (target d : Text) :
    fillAll w (.instruction target d :: ts) = .instruction target d :: fillAll w ts := rfl

def isText : Tree → Bool
  | .text _ => true
  | _ => false

theorem consText_of_not_isText {ts : List Tree} (h : ts.head?.any isText = false) (s : Text) :
    consText s ts = if s = [] then ts else .text s :: ts := by
  unfold consText
  split
  case h_1 => cases h
  case h_2 => rfl

theorem consText_nil (ts : List Tree) : consText [] ts = ts := by
  unfold consText
  split <;> rfl

theorem consText_append (s t : Text) (ts : List Tree) :
    consText (s ++ t) ts = consText s (consText t ts) := by
  by_cases hhead : ts.head?.any isText
  · match ts, hhead with
    | .text u :: ts, _ => simp [consText]
  · rw [Bool.not_eq_true] at hhead
    by_cases ht : t = []
    · rw [ht, List.append_nil, consText_nil]
    · have hst : s ++ t ≠ [] := fun h => ht (List.append_eq_nil_iff.1 h).2
      rw [consText_of_not_isText hhead, consText_of_not_isText hhead, if_neg hst, if_neg ht, consText]

theorem fillAll_consText (w s : Text) (ts : List Tree) :
    fillAll w (consText s ts) = consText (fillText w s) (fillAll w ts) := by
  by_cases hhead : ts.head?.any isText
  · match ts, hhead with
    | .text u :: ts, _ => rw [consText, fillAll, fillAll, fillText_append, consText_append]
  · rw [Bool.not_eq_true] at hhead
    rw [consText_of_not_isText hhead]
    by_cases hs : s = []
    · rw [if_pos hs, hs, fillText, List.flatMap_nil, consText_nil]
    · rw [if_neg hs, fillAll]

theorem join_consText (s : Text) (ts us : List Tree) :
    join (consText s ts) us = consText s (join ts us) := by
  by_cases hhead : ts.head?.any isText
  · match ts, hhead with
    | .text u :: ts, _ => rw [consText, join, join, consText_append]
  · rw [Bool.not_eq_true] at hhead
    rw [consText_of_not_isText hhead]
    by_cases hs : s = []
    · rw [if_pos hs, hs, consText_nil]
    · rw [if_neg hs, join]

theorem fillAll_join (w : Text) (ts us : List Tree) :
    fillAll w (join ts us) = join (fillAll w ts) (fillAll w us) := by
  induction ts with
  | nil => rw [join, fillAll, join]
  | cons n ts ih =>
    cases n with
    | text s => rw [join, fillAll_consText, ih, fillAll, join_consText]
    | _ => simp [join, fillAll, fill, ih]

end Tree

/-! ### Data with references -/

/-- How characters are written in data. -/
inductive Spells : Text → Text → Prop
  | nil : Spells [] []
  | plain {c : Char} {x y : Text} : isPlain c → isLegal c → Spells x y → Spells (c :: x) (c :: y)
  | char {c : Char} {u x y : Text} : Refers u (.char c) → Spells x y →
    Spells ('&' :: u ++ x) (c :: y)

theorem Spells.append {x y x' y' : Text} (h : Spells x y) (h' : Spells x' y') :
    Spells (x ++ x') (y ++ y') := by
  induction h with
  | nil => exact h'
  | plain hc hlegal _ ih => exact .plain hc hlegal ih
  | char hu _ ih => simpa using Spells.char hu ih

theorem spells_self (hplain : t.all isPlain) (hlegal : t.all isLegal) : Spells t t := by
  induction t with
  | nil => exact .nil
  | cons c t ih =>
    simp only [List.all_cons, Bool.and_eq_true] at hplain hlegal
    exact .plain hplain.1 hlegal.1 (ih hplain.2 hlegal.2)

theorem Spells.replace {needle x y : Text} (h : Spells x y) (hne : needle ≠ [])
    (hplain : t.all isPlain) (hlegal : t.all isLegal) :
    Spells (Text.replace needle x t) (Text.replace needle y t) := by
  induction t using Text.replace_induction needle hne with
  | nil => rw [Text.replace_nil hne, Text.replace_nil hne]; exact .nil
  | found t ih =>
    rw [List.all_append, Bool.and_eq_true] at hplain hlegal
    rw [Text.replace_append_needle hne, Text.replace_append_needle hne]
    exact h.append (ih hplain.2 hlegal.2)
  | cons c t hc ih =>
    simp only [List.all_cons, Bool.and_eq_true] at hplain hlegal
    rw [Text.replace_cons hne hc, Text.replace_cons hne hc]
    exact .plain hplain.1 hlegal.1 (ih hplain.2 hlegal.2)

theorem refers_predefined {name : Text} {c : Char} (hname : isName name)
    (h : predefined.lookup name = some c) : Refers (name ++ [';']) (.char c) := by
  have hrefers := Refers.name hname
  rwa [Reference.named, h] at hrefers

theorem spells_escapeChar {c : Char} (hc : isLegal c) : Spells (Markup.escapeChar c) [c] := by
  unfold Markup.escapeChar
  split
  case h_1 => exact .char (refers_predefined (show isName "amp".toList by decide) (by decide)) .nil
  case h_2 => exact .char (refers_predefined (show isName "lt".toList by decide) (by decide)) .nil
  case h_3 => exact .char (refers_predefined (show isName "gt".toList by decide) (by decide)) .nil
  case h_4 => exact .char (refers_predefined (show isName "quot".toList by decide) (by decide)) .nil
  case h_5 => exact .char (refers_predefined (show isName "apos".toList by decide) (by decide)) .nil
  case h_6 hamp hlt _ _ _ => exact .plain (by simp_all [isPlain]) hc .nil

theorem spells_escape (v : Text) : Spells (Markup.escape v) (Markup.sanitize v) := by
  have hlegal : ∀ c ∈ Markup.sanitize v, isLegal c := fun c hc => (List.mem_filter.1 hc).2
  rw [Markup.escape]
  generalize Markup.sanitize v = s at hlegal ⊢
  induction s with
  | nil => exact .nil
  | cons c s ih =>
    obtain ⟨hc, hs⟩ := List.forall_mem_cons.1 hlegal
    exact (spells_escapeChar hc).append (ih hs)

/-! ### Content around data -/

variable {es : Entities} {depth : Nat} {ps : List Piece} {ts : List Tree}

theorem Laid.cons_run {run : Text} (hps : Laid es depth ps ts)
    (hhead : (joined ps).head?.any isPlain = false) (hrun : IsData run) :
    ∃ qs, Laid es depth qs (Tree.consText run ts) ∧ joined qs = run ++ joined ps := by
  by_cases hne : run = []
  · exact ⟨ps, by rwa [hne, Tree.consText_nil], by rw [hne, List.nil_append]⟩
  · exact ⟨_, .data hrun hne hhead hps, rfl⟩

/-- Data and references in front of content, unless a run of data would hold the end of a section. -/
theorem Laid.cons_spelled {x y : Text} (hps : Laid es depth ps ts) (h : Spells x y)
    (hhead : (joined ps).head?.any isPlain = false) (run : Text) (hplain : run.all isPlain)
    (hlegal : run.all isLegal) (hmark : ¬ "]]>".toList <:+: run ++ x) :
    ∃ qs, Laid es depth qs (Tree.consText (run ++ y) ts) ∧ joined qs = run ++ x ++ joined ps := by
  induction h generalizing run with
  | nil =>
    rw [List.append_nil] at hmark ⊢
    exact hps.cons_run hhead ⟨hplain, hlegal, hmark⟩
  | @plain c x y hc hc' _ ih =>
    have hrun := ih (run ++ [c]) (by simp_all) (by simp_all) (by simpa using hmark)
    simpa using hrun
  | @char c u x y hu _ ih =>
    have htail : ¬ "]]>".toList <:+: [] ++ x := fun hin =>
      hmark (hin.trans ⟨run ++ '&' :: u, [], by simp⟩)
    have hfront : ¬ "]]>".toList <:+: run := fun hin =>
      hmark (hin.trans (List.prefix_append _ _).isInfix)
    obtain ⟨qs, hqs, hjoined⟩ := ih [] rfl rfl htail
    obtain ⟨qs', hqs', hjoined'⟩ := (Laid.char hu hqs).cons_run rfl ⟨hplain, hlegal, hfront⟩
    refine ⟨qs', ?_, by simp [hjoined', hjoined]⟩
    rw [← Tree.consText_append, ← Tree.consText_append] at hqs'
    simpa using hqs'

/-! ### Holes in content -/

theorem hole_notMem (h : t.all isLegal) : hole ∉ t := by
  intro hmem
  exact absurd (List.all_eq_true.1 h hole hmem) (by decide)

theorem isLegal_of_charOfDigits? {base : Nat} {ds : List Nat} {c : Char}
    (h : charOfDigits? base ds = some c) : isLegal c := by
  rw [charOfDigits?] at h
  split at h
  case isFalse => cases h
  case isTrue hlegal =>
    obtain rfl := Option.some.inj h
    rw [isLegal, Markup.toNat_ofNat_of_isLegal hlegal.2]
    exact hlegal.2

/-- References give characters that a document may hold. -/
theorem Refers.legal {u : Text} {c : Char} (h : Refers u (.char c)) : isLegal c := by
  generalize hr : Reference.char c = r at h
  cases h with
  | hexadecimal _ hc => exact isLegal_of_charOfDigits? (Reference.char.inj hr ▸ hc)
  | decimal _ hc => exact isLegal_of_charOfDigits? (Reference.char.inj hr ▸ hc)
  | @name name =>
    unfold Reference.named at hr
    split at hr
    case h_2 => cases hr
    case h_1 d hd =>
      obtain rfl := Reference.char.inj hr
      have hall : ∀ p ∈ predefined, isLegal p.2 := by decide
      exact hall _ (Association.mem_of_lookup_eq_some hd)

/-- What is read holds no holes. -/
theorem Laid.fillAll_eq (h : Laid es depth ps ts) (w : Text) : Tree.fillAll w ts = ts := by
  induction h with
  | nil => rfl
  | comment _ _ ih => rw [Tree.fillAll_comment, ih]
  | cdata hc _ ih => rw [Tree.fillAll_consText, ih, fillText_of_notMem (hole_notMem hc.legal)]
  | instruction _ _ ih => rw [Tree.fillAll_instruction, ih]
  | empty _ _ _ _ ih => rw [Tree.fillAll_element, ih, Tree.fillAll]
  | element _ _ _ _ _ _ ihinner ih => rw [Tree.fillAll_element, ihinner, ih]
  | char hu _ ih =>
    rw [Tree.fillAll_consText, ih, fillText_of_notMem (hole_notMem (by simp [hu.legal]))]
  | entity _ _ _ _ ihinner ih => rw [Tree.fillAll_join, ihinner, ih]
  | data ht _ _ _ ih => rw [Tree.fillAll_consText, ih, fillText_of_notMem (hole_notMem ht.legal)]

/-! ### Filling -/

variable {needle : Text}

/-- A piece in which a value is written for the needle, in data only. -/
def Piece.filled (needle x : Text) : Piece → Text
  | .data t => Text.replace needle x t
  | .markup u => u

def filled (needle x : Text) (ps : List Piece) : Text := ps.flatMap (Piece.filled needle x)

@[simp] theorem filled_cons (needle x : Text) (p : Piece) (ps : List Piece) :
    filled needle x (p :: ps) = p.filled needle x ++ filled needle x ps := rfl

@[simp] theorem filled_append (needle x : Text) (ps qs : List Piece) :
    filled needle x (ps ++ qs) = filled needle x ps ++ filled needle x qs := List.flatMap_append

@[simp] theorem Piece.filled_markup (needle x u : Text) : (Piece.markup u).filled needle x = u := rfl

@[simp] theorem Piece.filled_data (needle x t : Text) :
    (Piece.data t).filled needle x = Text.replace needle x t := rfl

/-- No data hold the end of a section after a value is written for the needle. -/
def StaysOpen (needle x : Text) (ps : List Piece) : Prop :=
  ∀ t, .data t ∈ ps → ¬ "]]>".toList <:+: Text.replace needle x t

/-- Trees with holes for the needle, which read as these once they are filled. -/
structure Outlines (needle : Text) (es : Entities) (depth : Nat) (ps : List Piece) (ts os : List Tree) :
    Prop where
  original : Tree.fillAll needle os = ts
  fill : ∀ x y, Spells x y → StaysOpen needle x ps → ∃ qs, Laid es depth qs (Tree.fillAll y os) ∧
    joined qs = filled needle x ps ∧
    ((joined ps).head?.any isPlain = false → (joined qs).head?.any isPlain = false)

theorem StaysOpen.tail {x : Text} {p : Piece} (h : StaysOpen needle x (p :: ps)) :
    StaysOpen needle x ps := fun t ht => h t (List.mem_cons_of_mem _ ht)

/-- A piece of markup before content that can be filled. -/
theorem Outlines.cons_markup {os : List Tree} {u : Text} {c : Char} {f : List Tree → List Tree}
    (h : Outlines needle es depth ps ts os) (hc : isPlain c = false)
    (hf : ∀ w os, Tree.fillAll w (f os) = f (Tree.fillAll w os))
    (hlaid : ∀ qs us, Laid es depth qs us → Laid es depth (.markup (c :: u) :: qs) (f us)) :
    Outlines needle es depth (.markup (c :: u) :: ps) (f ts) (f os) := by
  refine ⟨by rw [hf, h.original], fun x y hxy hopen => ?_⟩
  obtain ⟨qs, hqs, hjoined, -⟩ := h.fill x y hxy hopen.tail
  exact ⟨.markup (c :: u) :: qs, by rw [hf]; exact hlaid qs _ hqs, by simp [hjoined], fun _ => hc⟩

theorem Laid.exists_outlines (hne : needle ≠ []) (h : Laid es depth ps ts) :
    ∃ os, Outlines needle es depth ps ts os := by
  induction h with
  | nil => exact ⟨[], rfl, fun _ _ _ _ => ⟨[], .nil, rfl, fun h => h⟩⟩
  | @comment es depth ps ts c hc _ ih =>
    obtain ⟨os, hos⟩ := ih
    exact ⟨_, hos.cons_markup rfl (fun w os => Tree.fillAll_comment c) fun _ _ => .comment hc⟩
  | cdata hc _ ih =>
    obtain ⟨os, hos⟩ := ih
    refine ⟨_, hos.cons_markup rfl (fun w os => ?_) fun _ _ => .cdata hc⟩
    rw [Tree.fillAll_consText, fillText_of_notMem (hole_notMem hc.legal)]
  | instruction hd _ ih =>
    obtain ⟨os, hos⟩ := ih
    exact ⟨_, hos.cons_markup rfl (fun w os => Tree.fillAll_instruction _ _) fun _ _ => .instruction hd⟩
  | empty hdepth hname hu _ ih =>
    obtain ⟨os, hos⟩ := ih
    exact ⟨_, hos.cons_markup rfl (fun w os => Tree.fillAll_element _ _ _) fun _ _ =>
      .empty hdepth hname hu⟩
  | @element es depth inner ps children ts name u w as hdepth hname hu _ hw _ ihinner ih =>
    obtain ⟨os, hos⟩ := ih
    obtain ⟨inside, hinside⟩ := ihinner
    refine ⟨.element name as inside :: os, ?_, fun x y hxy hopen => ?_⟩
    · rw [Tree.fillAll_element, hinside.original, hos.original]
    · obtain ⟨qs, hqs, hjoined, -⟩ := hos.fill x y hxy fun t ht => hopen t (by simp [ht])
      obtain ⟨rs, hrs, hjoined', -⟩ := hinside.fill x y hxy fun t ht => hopen t (by simp [ht])
      refine ⟨_, .element hdepth hname hu hrs hw hqs, ?_, fun _ => rfl⟩
      simp [hjoined, hjoined', openingTag, closingTag]
  | char hu _ ih =>
    obtain ⟨os, hos⟩ := ih
    refine ⟨_, hos.cons_markup rfl (fun w os => ?_) fun _ _ => .char hu⟩
    rw [Tree.fillAll_consText, fillText_of_notMem (hole_notMem (by simp [hu.legal]))]
  | entity hu hx hinner _ _ ih =>
    obtain ⟨os, hos⟩ := ih
    refine ⟨_, hos.cons_markup rfl (fun w os => ?_) fun _ _ => .entity hu hx hinner⟩
    rw [Tree.fillAll_join, hinner.fillAll_eq]
  | @data es depth ps ts t ht htne hhead _ ih =>
    obtain ⟨os, hos⟩ := ih
    refine ⟨Tree.consText (Text.replace needle [hole] t) os, ?_, fun x y hxy hopen => ?_⟩
    · rw [Tree.fillAll_consText, fillText_replace hne (hole_notMem ht.legal), Text.replace_self hne,
        hos.original]
    · obtain ⟨qs, hqs, hjoined, hqshead⟩ := hos.fill x y hxy hopen.tail
      obtain ⟨rs, hrs, hjoined'⟩ := hqs.cons_spelled (hxy.replace hne ht.plain ht.legal)
        (hqshead hhead) [] rfl rfl (hopen t List.mem_cons_self)
      refine ⟨rs, ?_, by simp [hjoined', hjoined], ?_⟩
      · rwa [Tree.fillAll_consText, fillText_replace hne (hole_notMem ht.legal)]
      · intro hplain
        cases t with
        | nil => exact absurd rfl htne
        | cons c t =>
          have hc : isPlain c := List.all_eq_true.1 ht.plain c List.mem_cons_self
          simp [hc] at hplain

/-! ### Seams -/

/-- A needle that holds no character that markup begins or ends with. -/
def Unmarked (needle : Text) : Prop := ∀ c ∈ needle, c ≠ '<' ∧ c ≠ '>' ∧ c ≠ '&' ∧ c ≠ ';'

theorem Unmarked.replace_markup (h : Unmarked needle) (hne : needle ≠ []) {u : Text}
    (hin : ¬ needle <:+: u) (hlast : ['>'] <:+ u ∨ [';'] <:+ u) (x t : Text) :
    Text.replace needle x (u ++ t) = u ++ Text.replace needle x t := by
  refine Text.replace_append_left hne hin ?_ x t
  intro c hc hmem
  rcases hlast with ⟨v, rfl⟩ | ⟨v, rfl⟩ <;> rw [List.getLast?_concat] at hc <;>
    obtain rfl := Option.some.inj hc
  · exact (h _ hmem).2.1 rfl
  · exact (h _ hmem).2.2.2 rfl

theorem Unmarked.replace_append (h : Unmarked needle) (hne : needle ≠ []) {t : Text}
    (ht : t.head?.any isPlain = false) (x s : Text) :
    Text.replace needle x (s ++ t) = Text.replace needle x s ++ Text.replace needle x t := by
  refine Text.replace_append hne x (Text.seamless_of_head ?_)
  intro c hc hmem
  have hplain : isPlain c = false := by simpa [Option.mem_def.1 hc] using ht
  simp [isPlain, (h c hmem).1, (h c hmem).2.2.1] at hplain

/-- Markup ends with a bracket, or with the semicolon of a reference. -/
theorem Laid.last_of_markup (h : Laid es depth ps ts) {u : Text} (hu : .markup u ∈ ps) :
    ['>'] <:+ u ∨ [';'] <:+ u := by
  induction h with
  | nil => cases hu
  | @comment _ _ _ _ c _ _ ih =>
    rcases List.mem_cons.1 hu with heq | hu
    · exact .inl (Piece.markup.inj heq ▸ ⟨'<' :: '!' :: '-' :: '-' :: (c ++ ['-', '-']), by simp⟩)
    · exact ih hu
  | @cdata _ _ _ _ c _ _ ih =>
    rcases List.mem_cons.1 hu with heq | hu
    · exact .inl (Piece.markup.inj heq ▸
        ⟨'<' :: '!' :: '[' :: 'C' :: 'D' :: 'A' :: 'T' :: 'A' :: '[' :: (c ++ [']', ']']), by simp⟩)
    · exact ih hu
  | @instruction _ _ _ _ target d _ _ ih =>
    rcases List.mem_cons.1 hu with heq | hu
    · exact .inl (Piece.markup.inj heq ▸ ⟨'<' :: '?' :: (target ++ (d ++ ['?'])), by simp⟩)
    · exact ih hu
  | @empty _ _ _ _ name _ _ _ _ hrest _ ih =>
    rcases List.mem_cons.1 hu with heq | hu
    · exact .inl (Piece.markup.inj heq ▸ hrest.last.trans ⟨'<' :: name, by simp⟩)
    · exact ih hu
  | @element _ _ _ _ _ _ name _ w _ _ _ hrest _ _ _ ihinner ih =>
    rcases List.mem_cons.1 hu with heq | hu
    · exact .inl (Piece.markup.inj heq ▸ hrest.last.trans ⟨'<' :: name, by simp⟩)
    rcases List.mem_append.1 hu with hu | hu
    · exact ihinner hu
    rcases List.mem_cons.1 hu with heq | hu
    · exact .inl (Piece.markup.inj heq ▸ ⟨'<' :: '/' :: (name ++ w), by simp⟩)
    · exact ih hu
  | char hrefers _ ih =>
    rcases List.mem_cons.1 hu with heq | hu
    · exact .inr (Piece.markup.inj heq ▸ hrefers.last.trans (List.suffix_cons _ _))
    · exact ih hu
  | entity hrefers _ _ _ _ ih =>
    rcases List.mem_cons.1 hu with heq | hu
    · exact .inr (Piece.markup.inj heq ▸ hrefers.last.trans (List.suffix_cons _ _))
    · exact ih hu
  | data _ _ _ _ ih =>
    rcases List.mem_cons.1 hu with heq | hu
    · cases heq
    · exact ih hu

/-- Data end where markup begins. -/
inductive Alternating : List Piece → Prop
  | nil : Alternating []
  | markup {u : Text} {ps : List Piece} : Alternating ps → Alternating (.markup u :: ps)
  | data {t : Text} {ps : List Piece} : (joined ps).head?.any isPlain = false → Alternating ps →
    Alternating (.data t :: ps)

theorem Alternating.append {ps qs : List Piece} (hps : Alternating ps) (hqs : Alternating qs)
    (hhead : (joined qs).head?.any isPlain = false) : Alternating (ps ++ qs) := by
  induction hps with
  | nil => exact hqs
  | markup _ ih => exact .markup ih
  | @data t ps ht _ ih =>
    have hjoined : (joined (ps ++ qs)).head?.any isPlain = false := by
      rw [joined_append]
      cases hj : joined ps with
      | nil => exact hhead
      | cons c s => simpa [hj] using ht
    exact .data hjoined ih

theorem Laid.alternating (h : Laid es depth ps ts) : Alternating ps := by
  induction h with
  | nil => exact .nil
  | data _ _ hhead _ ih => exact .data hhead ih
  | element _ _ _ _ _ _ ihinner ih => exact .markup (ihinner.append (.markup ih) rfl)
  | comment _ _ ih | cdata _ _ ih | instruction _ _ ih | empty _ _ _ _ ih | char _ _ ih
  | entity _ _ _ _ _ ih => exact .markup ih

/-- A needle that stands in data only is replaced there. -/
theorem Alternating.replace_joined (h : Alternating ps) (hneedle : Unmarked needle) (hne : needle ≠ [])
    (hlast : ∀ u, .markup u ∈ ps → ['>'] <:+ u ∨ [';'] <:+ u)
    (hps : ∀ u, .markup u ∈ ps → ¬ needle <:+: u) (x : Text) :
    Text.replace needle x (joined ps) = filled needle x ps := by
  induction h with
  | nil => exact Text.replace_nil hne x
  | @markup u ps _ ih =>
    rw [joined_cons, Piece.text_markup, hneedle.replace_markup hne (hps _ List.mem_cons_self)
      (hlast _ List.mem_cons_self), ih (fun u hu => hlast u (List.mem_cons_of_mem _ hu))
      fun u hu => hps u (List.mem_cons_of_mem _ hu)]
    rfl
  | @data t ps hhead _ ih =>
    rw [joined_cons, Piece.text_data, hneedle.replace_append hne hhead,
      ih (fun u hu => hlast u (List.mem_cons_of_mem _ hu))
      fun u hu => hps u (List.mem_cons_of_mem _ hu)]
    rfl

end DeckMerge.Xml
