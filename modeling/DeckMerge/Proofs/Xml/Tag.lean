import DeckMerge.Proofs.Xml.Reading

/-!
Tags: how attributes are written behind a name, and what ends a tag.
-/

namespace DeckMerge.Xml

open Recogniser

variable {s rest t : Text} {es : Entities}

theorem isSpace_of_isNameStart {c : Char} (h : isNameStart c) : isSpace c = false := by
  by_contra hspace
  simp only [Bool.not_eq_false, isSpace, Bool.or_eq_true, beq_iff_eq] at hspace
  rcases hspace with ((rfl | rfl) | rfl) | rfl <;> exact absurd h (by decide)

theorem isNameChar_of_isSpace {c : Char} (h : isSpace c) : isNameChar c = false := by
  simp only [isSpace, Bool.or_eq_true, beq_iff_eq] at h
  rcases h with ((rfl | rfl) | rfl) | rfl <;> decide

/-- Blanks and then a sign end a name. -/
theorem head?_blanks {w : Text} {c : Char} (hw : w.all isSpace) (hc : isNameChar c = false)
    (t : Text) : (w ++ c :: t).head?.any isNameChar = false := by
  cases w with
  | nil => exact hc
  | cons d w =>
    simp only [List.all_cons, Bool.and_eq_true] at hw
    exact isNameChar_of_isSpace hw.1

def isQuote (c : Char) : Prop := c = '"' ∨ c = '\''

theorem isQuote.not_isSpace {c : Char} (h : isQuote c) : isSpace c = false := by
  rcases h with rfl | rfl <;> decide

theorem isQuote.ne_ampersand {c : Char} (h : isQuote c) : some c ≠ some '&' := by
  rcases h with rfl | rfl <;> decide

/-- How an attribute is written. -/
inductive Assigns (es : Entities) : Text → Text × Text → Prop
  | intro {name w₁ w₂ u v : Text} {q : Char} : isName name → w₁.all isSpace → w₂.all isSpace →
    isQuote q → Values es (some q) u v →
    Assigns es (name ++ (w₁ ++ '=' :: (w₂ ++ q :: (u ++ [q])))) (name, v)

theorem Assigns.read {u : Text} {a : Text × Text} (h : Assigns es u a) (fuel : Nat)
    (hfuel : u.length + es.size < fuel) : Takes (readAttribute fuel es) u a := by
  intro t
  cases h with
  | @intro name w₁ w₂ u v q hname hw₁ hw₂ hq hv =>
    simp only [List.length_append, List.length_cons] at hfuel
    have hread : readName (name ++ (w₁ ++ '=' :: (w₂ ++ q :: (u ++ [q]))) ++ t) =
        some (name, w₁ ++ '=' :: (w₂ ++ q :: (u ++ q :: t))) :=
      readName_eq_some_iff.2 ⟨by simp, hname, head?_blanks hw₁ (by decide) _⟩
    have hvalue := hv.read hq.ne_ampersand fuel (by omega) t (by simp)
    simp only [Option.toList, List.cons_append, List.nil_append] at hvalue
    simp only [readAttribute, hread, Option.bind_eq_bind, Option.bind_some,
      skipSpace_append_cons hw₁ (show isSpace '=' = false by decide),
      skipSpace_append_cons hw₂ hq.not_isSpace, hvalue]
    exact if_pos hq

theorem assigns_of_readAttribute {fuel : Nat} {a : Text × Text}
    (h : readAttribute fuel es s = some (a, rest)) : ∃ u, Assigns es u a ∧ s = u ++ rest := by
  simp only [readAttribute, Option.bind_eq_bind, Option.bind_eq_some_iff] at h
  obtain ⟨⟨name, t⟩, hread, h⟩ := h
  obtain ⟨rfl, hname, -⟩ := readName_eq_some_iff.1 hread
  split at h
  case h_2 => cases h
  case h_1 t₁ ht₁ =>
  obtain ⟨w₁, rfl, hw₁, -⟩ := skipSpace_eq_cons ht₁
  split at h
  case h_2 => cases h
  case h_1 q t₂ ht₂ =>
  obtain ⟨w₂, rfl, hw₂, -⟩ := skipSpace_eq_cons ht₂
  split at h
  case isFalse => cases h
  case isTrue hq =>
  simp only [Option.bind_eq_some_iff] at h
  obtain ⟨⟨v, rest'⟩, hv, h⟩ := h
  obtain ⟨rfl, rfl⟩ := Prod.mk.inj (Option.some.inj h)
  obtain ⟨u, hu, rfl, -⟩ := values_of_readAttributeValue hv
  exact ⟨_, .intro hname hw₁ hw₂ hq hu, by simp⟩

/-- How a tag goes on behind its name: attributes of different names, and whether it closes itself. -/
inductive TagRest (es : Entities) : Text → List (Text × Text) × Bool → Prop
  | opening {w : Text} : w.all isSpace → TagRest es (w ++ ['>']) ([], false)
  | closed {w : Text} : w.all isSpace → TagRest es (w ++ ['/', '>']) ([], true)
  | cons {w u more : Text} {a : Text × Text} {as : List (Text × Text)} {isEmpty : Bool} :
    w.all isSpace → w ≠ [] → Assigns es u a → TagRest es more (as, isEmpty) →
    (as.any (·.1 = a.1)) = false → TagRest es (w ++ (u ++ more)) (a :: as, isEmpty)

theorem Assigns.head {u : Text} {a : Text × Text} (h : Assigns es u a) :
    ∃ c u', u = c :: u' ∧ isNameStart c := by
  cases h with
  | @intro name _ _ _ _ _ hname =>
    cases name with
    | nil => simp [isName] at hname
    | cons c name =>
      simp only [isName, Bool.and_eq_true] at hname
      exact ⟨c, _, rfl, hname.1⟩

theorem TagRest.read {u : Text} {x : List (Text × Text) × Bool} (h : TagRest es u x) :
    ∀ fuel, u.length + es.size < fuel → Takes (readAttributes fuel es) u x := by
  induction h with
  | @opening w hw =>
    intro fuel hfuel t
    obtain ⟨fuel, rfl⟩ : ∃ n, fuel = n + 1 := ⟨fuel - 1, by omega⟩
    have hskip : skipSpace (w ++ ['>'] ++ t) = '>' :: t := by
      simpa using skipSpace_append_cons hw (by decide) t
    simp only [readAttributes, hskip]
  | @closed w hw =>
    intro fuel hfuel t
    obtain ⟨fuel, rfl⟩ : ∃ n, fuel = n + 1 := ⟨fuel - 1, by omega⟩
    have hskip : skipSpace (w ++ ['/', '>'] ++ t) = '/' :: '>' :: t := by
      simpa using skipSpace_append_cons hw (by decide) ('>' :: t)
    simp only [readAttributes, hskip]
  | @cons w u more a as isEmpty hw hne ha _ hunique ih =>
    intro fuel hfuel t
    obtain ⟨fuel, rfl⟩ : ∃ n, fuel = n + 1 := ⟨fuel - 1, by omega⟩
    simp only [List.length_append] at hfuel
    have hlength := List.length_pos_iff.2 hne
    have hattribute := ha.read fuel (by omega) (more ++ t)
    have hmore := ih fuel (by omega) t
    obtain ⟨c, u', rfl, hc⟩ := ha.head
    have hskip : skipSpace (w ++ (c :: u' ++ more) ++ t) = c :: (u' ++ (more ++ t)) := by
      simpa using skipSpace_append_cons hw (isSpace_of_isNameStart hc) (u' ++ (more ++ t))
    have hlt : (c :: (u' ++ (more ++ t))).length ≠ (w ++ (c :: u' ++ more) ++ t).length := by
      simp only [List.length_append, List.length_cons]
      omega
    rw [readAttributes, hskip]
    split
    case h_1 heq =>
      obtain ⟨rfl, -⟩ := List.cons.inj heq
      exact absurd hc (by decide)
    case h_2 heq =>
      obtain ⟨rfl, -⟩ := List.cons.inj heq
      exact absurd hc (by decide)
    case h_3 =>
      rw [if_neg hlt]
      simp only [List.cons_append] at hattribute
      simp only [hattribute, hmore, hunique, Option.bind_eq_bind, Option.bind_some]
      rfl

theorem TagRest.head {u : Text} {x : List (Text × Text) × Bool} (h : TagRest es u x) (t : Text) :
    (u ++ t).head?.any isNameChar = false := by
  cases h with
  | @opening w hw => simpa using head?_blanks hw (show isNameChar '>' = false by decide) t
  | @closed w hw => simpa using head?_blanks hw (show isNameChar '/' = false by decide) ('>' :: t)
  | @cons w u more a as isEmpty hw hne =>
    cases w with
    | nil => exact absurd rfl hne
    | cons c w =>
      simp only [List.all_cons, Bool.and_eq_true] at hw
      exact isNameChar_of_isSpace hw.1

theorem TagRest.last {u : Text} {x : List (Text × Text) × Bool} (h : TagRest es u x) :
    ['>'] <:+ u := by
  induction h with
  | opening => exact List.suffix_append _ _
  | @closed w => exact ⟨w ++ ['/'], by simp⟩
  | @cons w u more _ _ _ _ _ _ _ _ ih => exact ih.trans ⟨w ++ u, by simp⟩

theorem tagRest_of_readAttributes {fuel : Nat} {x : List (Text × Text) × Bool}
    (h : readAttributes fuel es s = some (x, rest)) : ∃ u, TagRest es u x ∧ s = u ++ rest := by
  induction fuel generalizing s x rest with
  | zero => simp [readAttributes] at h
  | succ fuel ih =>
    rw [readAttributes] at h
    split at h
    case h_1 hskip =>
      obtain ⟨w, rfl, hw, -⟩ := skipSpace_eq_cons hskip
      obtain ⟨rfl, rfl⟩ := Prod.mk.inj (Option.some.inj h)
      exact ⟨_, .opening hw, by simp⟩
    case h_2 hskip =>
      obtain ⟨w, rfl, hw, -⟩ := skipSpace_eq_cons hskip
      obtain ⟨rfl, rfl⟩ := Prod.mk.inj (Option.some.inj h)
      exact ⟨_, .closed hw, by simp⟩
    case h_3 =>
      split at h
      case isTrue => cases h
      case isFalse hlength =>
      simp only [Option.bind_eq_bind, Option.bind_eq_some_iff] at h
      obtain ⟨⟨a, t⟩, ha, ⟨⟨as, isEmpty⟩, rest'⟩, has, h⟩ := h
      split at h
      case isTrue => cases h
      case isFalse hunique =>
      obtain ⟨rfl, rfl⟩ := Prod.mk.inj (Option.some.inj h)
      obtain ⟨u, hu, heq⟩ := assigns_of_readAttribute ha
      obtain ⟨more, hmore, rfl⟩ := ih has
      have hs : s = s.takeWhile isSpace ++ skipSpace s := List.takeWhile_append_dropWhile.symm
      have hne : s.takeWhile isSpace ≠ [] := by
        intro hnil
        rw [hnil, List.nil_append] at hs
        exact hlength (congrArg List.length hs).symm
      refine ⟨_, .cons List.all_takeWhile hne hu hmore (Bool.eq_false_iff.2 hunique), ?_⟩
      rw [List.append_assoc, List.append_assoc, ← heq]
      exact hs

theorem readClosing?_eq_some_iff {name : Text} : readClosing? name s = some rest ↔
    ∃ w, w.all isSpace ∧ s = "</".toList ++ name ++ (w ++ '>' :: rest) := by
  simp only [readClosing?, Option.bind_eq_bind, Option.bind_eq_some_iff,
    List.isPrefixOf?_eq_some_iff_append_eq]
  constructor
  · rintro ⟨t, rfl, h⟩
    split at h
    case h_2 => cases h
    case h_1 rest' hskip =>
      obtain rfl := Option.some.inj h
      obtain ⟨w, rfl, hw, -⟩ := skipSpace_eq_cons hskip
      exact ⟨w, hw, rfl⟩
  · rintro ⟨w, hw, rfl⟩
    refine ⟨w ++ '>' :: rest, rfl, ?_⟩
    rw [skipSpace_append_cons hw (by decide)]
    rfl

end DeckMerge.Xml
