import DeckMerge.Proofs.Xml.Prolog

/-!
The declaration at the front of a text: it is read alike whatever follows it, and a text without one is
told by its first characters.
-/

namespace DeckMerge.Xml

open Recogniser

variable {name s rest v u : Text}

/-- A pseudo-attribute of the declaration, from its name to its quote. -/
inductive Pseudo (name : Text) : Text → Text → Prop
  | intro {w w' v : Text} {q : Char} : w.all isSpace → w'.all isSpace → isQuote q → q ∉ v →
    Pseudo name (name ++ (w ++ '=' :: (w' ++ q :: (v ++ [q])))) v

theorem Pseudo.read (h : Pseudo name u v) : Takes (readPseudo name) u v := by
  intro t
  cases h with
  | @intro w w' v q hw hw' hq hv =>
    have hprefix : name.isPrefixOf? (name ++ (w ++ '=' :: (w' ++ q :: (v ++ [q]))) ++ t) =
        some (w ++ '=' :: (w' ++ q :: (v ++ q :: t))) :=
      List.isPrefixOf?_eq_some_iff_append_eq.2 (by simp)
    rw [readPseudo, hprefix]
    simp only [Option.bind_eq_bind, Option.bind_some,
      skipSpace_append_cons hw (show isSpace '=' = false by decide)]
    exact readQuoted_skipSpace hw' hq hv t

theorem pseudo_of_readPseudo (h : readPseudo name s = some (v, rest)) :
    ∃ u, Pseudo name u v ∧ s = u ++ rest := by
  obtain ⟨t, ht, h⟩ := Option.bind_eq_some_iff.1 h
  have heq := List.isPrefixOf?_eq_some_iff_append_eq.1 ht
  split at h
  case h_2 => cases h
  case h_1 t' hskip =>
    obtain ⟨w, rfl, hw, -⟩ := skipSpace_eq_cons hskip
    obtain ⟨w', q, hw', hq, hv, rfl⟩ := exists_of_readQuoted_skipSpace h
    exact ⟨_, .intro hw hw' hq hv, by simp [← heq]⟩

/-- A pseudo-attribute that may be missing, with the blanks before it. -/
inductive Possibly (name : Text) : Text → Option Text → Prop
  | absent : Possibly name [] none
  | present {w u v : Text} : w.all isSpace → w ≠ [] → Pseudo name u v → Possibly name (w ++ u) (some v)

/-- Names that do not begin with a blank are found behind blanks. -/
theorem skipSpace_append_name {w : Text} (hname : name.head?.any isSpace = false) (hne : name ≠ [])
    (hw : w.all isSpace) (t : Text) : skipSpace (w ++ (name ++ t)) = name ++ t := by
  cases name with
  | nil => exact absurd rfl hne
  | cons c name => exact skipSpace_append_cons hw hname _

theorem Possibly.read {x : Option Text} {t : Text} (h : Possibly name u x)
    (hname : name.head?.any isSpace = false) (hne : name ≠ [])
    (ht : x = none → ¬ name <+: skipSpace t) : readOptional name (u ++ t) = some (x, t) := by
  cases h with
  | absent => exact if_neg (by simpa using ht rfl)
  | @present w u v hw hblank hu =>
    obtain ⟨t', ht'⟩ : ∃ t', u ++ t = name ++ t' := by
      cases hu with
      | intro => exact ⟨_, List.append_assoc _ _ _⟩
    have hskip : skipSpace (w ++ u ++ t) = u ++ t := by
      rw [List.append_assoc, ht']
      exact skipSpace_append_name hname hne hw t'
    have hlength := List.length_pos_iff.2 hblank
    rw [readOptional]
    simp only [hskip]
    rw [if_pos (by simp [ht']), if_neg (by simp only [List.length_append]; omega), hu.read t]
    rfl

theorem possibly_of_readOptional {x : Option Text} (h : readOptional name s = some (x, rest)) :
    ∃ u, Possibly name u x ∧ s = u ++ rest := by
  have hs : s = s.takeWhile isSpace ++ skipSpace s := List.takeWhile_append_dropWhile.symm
  rw [readOptional] at h
  split at h
  case isFalse =>
    obtain ⟨rfl, rfl⟩ := Prod.mk.inj (Option.some.inj h)
    exact ⟨[], .absent, rfl⟩
  case isTrue =>
    split at h
    case isTrue => cases h
    case isFalse hlength =>
      obtain ⟨⟨v, t⟩, hread, heq⟩ := Option.map_eq_some_iff.1 h
      obtain ⟨rfl, rfl⟩ := Prod.mk.inj heq
      obtain ⟨u, hu, hut⟩ := pseudo_of_readPseudo hread
      have hblank : s.takeWhile isSpace ≠ [] := by
        intro hnil
        rw [hnil, List.nil_append] at hs
        exact hlength (congrArg List.length hs.symm)
      exact ⟨_, .present List.all_takeWhile hblank hu, by rw [List.append_assoc, ← hut, ← hs]⟩

/-- A declaration up to its bracket. -/
inductive Heads : Text → Declaration → Prop
  | intro {w w' u e a version : Text} {encoding standalone : Option Text} : w.all isSpace → w ≠ [] →
    Pseudo "version" u version → Possibly "encoding" e encoding → Possibly "standalone" a standalone →
    w'.all isSpace → isVersion version → encoding.all isEncodingName → standalone.all isAnswer →
    Heads ("<?xml".toList ++ (w ++ (u ++ (e ++ (a ++ (w' ++ ['?', '>'])))))) ⟨version, encoding⟩

/-- No declaration begins here. -/
def Undeclared (s : Text) : Prop := ∀ c t, s = "<?xml".toList ++ c :: t → isSpace c = false

theorem Heads.read {d : Declaration} (h : Heads u d) : Takes readDeclaration u d := by
  intro t
  cases h with
  | @intro w w' u e a version encoding standalone hw hne hu he ha hw' hversion hencoding hstandalone =>
    obtain ⟨c, w, rfl⟩ := List.exists_cons_of_ne_nil hne
    simp only [List.all_cons, Bool.and_eq_true] at hw
    have hend : skipSpace (w' ++ '?' :: '>' :: t) = '?' :: '>' :: t :=
      skipSpace_append_cons hw' (by decide) _
    have hreadAnswer : readOptional "standalone" (a ++ (w' ++ '?' :: '>' :: t)) =
        some (standalone, w' ++ '?' :: '>' :: t) := by
      refine ha.read rfl (by decide) fun _ => ?_
      rw [hend]
      rintro ⟨t', ht'⟩
      cases ht'
    have hreadEncoding : readOptional "encoding" (e ++ (a ++ (w' ++ '?' :: '>' :: t))) =
        some (encoding, a ++ (w' ++ '?' :: '>' :: t)) := by
      refine he.read rfl (by decide) fun _ => ?_
      cases ha with
      | absent =>
        rw [List.nil_append, hend]
        rintro ⟨t', ht'⟩
        cases ht'
      | @present w₁ u₁ v₁ hw₁ _ hu₁ => cases hu₁ with
        | intro =>
          rw [List.append_assoc, List.append_assoc, skipSpace_append_name rfl (by decide) hw₁]
          rintro ⟨t', ht'⟩
          cases ht'
    have hversionRead : readPseudo "version" (skipSpace (w ++ (u ++ (e ++ (a ++ (w' ++ '?' :: '>' :: t)))))) =
        some (version, e ++ (a ++ (w' ++ '?' :: '>' :: t))) := by
      have hskip : skipSpace (w ++ (u ++ (e ++ (a ++ (w' ++ '?' :: '>' :: t))))) =
          u ++ (e ++ (a ++ (w' ++ '?' :: '>' :: t))) := by
        cases hu with
        | intro =>
          rw [List.append_assoc]
          exact skipSpace_append_name rfl (by decide) hw.2 _
      rw [hskip]
      exact hu.read _
    have hprefix : ("<?xml".toList).isPrefixOf?
        ("<?xml".toList ++ (c :: w ++ (u ++ (e ++ (a ++ (w' ++ ['?', '>']))))) ++ t) =
        some (c :: (w ++ (u ++ (e ++ (a ++ (w' ++ '?' :: '>' :: t)))))) :=
      List.isPrefixOf?_eq_some_iff_append_eq.2 (by simp)
    rw [readDeclaration, hprefix]
    dsimp only
    simp only [if_pos hw.1, hversionRead, hreadEncoding, hreadAnswer, hend,
      Option.bind_eq_bind, Option.bind_some]
    exact if_pos ⟨hversion, hencoding, hstandalone⟩

theorem Undeclared.read (h : Undeclared s) : readDeclaration s = some (⟨"1.0", none⟩, s) := by
  rw [readDeclaration]
  split
  case h_2 => rfl
  case h_1 c t ht =>
    have heq := List.isPrefixOf?_eq_some_iff_append_eq.1 ht
    rw [if_neg (by simp [h c t heq.symm])]

/-- What is read as a declaration is one, or there is none. -/
theorem heads_of_readDeclaration {d : Declaration} (h : readDeclaration s = some (d, rest)) :
    (∃ u, Heads u d ∧ s = u ++ rest) ∨ d = ⟨"1.0", none⟩ ∧ rest = s ∧ Undeclared s := by
  rw [readDeclaration] at h
  split at h
  case h_2 hnone =>
    obtain ⟨rfl, rfl⟩ := Prod.mk.inj (Option.some.inj h)
    refine .inr ⟨rfl, rfl, fun c t ht => ?_⟩
    subst ht
    exact absurd (Text.isPrefixOf?_append _ _) (hnone c t)
  case h_1 c t ht =>
    have heq := List.isPrefixOf?_eq_some_iff_append_eq.1 ht
    split at h
    case isFalse hc =>
      obtain ⟨rfl, rfl⟩ := Prod.mk.inj (Option.some.inj h)
      refine .inr ⟨rfl, rfl, fun c' t' ht' => ?_⟩
      obtain ⟨rfl, rfl⟩ := List.cons.inj (List.append_cancel_left (heq.trans ht'))
      simpa using hc
    case isTrue hc =>
      simp only [Option.bind_eq_bind, Option.bind_eq_some_iff] at h
      obtain ⟨⟨version, t₁⟩, hversion, ⟨encoding, t₂⟩, hencoding, ⟨standalone, t₃⟩, hstandalone, h⟩ := h
      split at h
      case h_2 => cases h
      case h_1 t₄ hskip =>
        split at h
        case isFalse => cases h
        case isTrue hchecks =>
          obtain ⟨rfl, rfl⟩ := Prod.mk.inj (Option.some.inj h)
          obtain ⟨u, hu, heq₁⟩ := pseudo_of_readPseudo hversion
          obtain ⟨e, he, rfl⟩ := possibly_of_readOptional hencoding
          obtain ⟨a, ha, rfl⟩ := possibly_of_readOptional hstandalone
          obtain ⟨w', rfl, hw', -⟩ := skipSpace_eq_cons hskip
          have hw : (c :: t.takeWhile isSpace).all isSpace := by
            rw [List.all_cons, hc, List.all_takeWhile, Bool.and_self]
          have ht' : t = t.takeWhile isSpace ++ (u ++ (e ++ (a ++ (w' ++ '?' :: '>' :: t₄)))) := by
            rw [← heq₁]
            exact List.takeWhile_append_dropWhile.symm
          refine .inl ⟨_, .intro hw (List.cons_ne_nil _ _) hu he ha hw' hchecks.1 hchecks.2.1 hchecks.2.2, ?_⟩
          rw [← heq]
          simpa using ht'

end DeckMerge.Xml
