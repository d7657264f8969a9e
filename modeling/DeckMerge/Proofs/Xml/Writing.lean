import DeckMerge.Proofs.Text.Numeral
import DeckMerge.Proofs.Xml.Source
import DeckMerge.Xml.Writer

/-!
What is written reads back: characters and values through their references, tags with all that they
declare, and content node by node.
-/

namespace DeckMerge.Xml

variable {named : Bool} {s name value : Text} {c : Char} {as : List (Text × Text)}

/-! ### Characters -/

theorem refers_return : Refers "#13;" (.char '\r') := @Refers.decimal "13" '\r' (by decide) (by decide)

theorem refers_lineFeed : Refers "#10;" (.char '\n') := @Refers.decimal "10" '\n' (by decide) (by decide)

theorem refers_tab : Refers "#9;" (.char '\t') := @Refers.decimal "9" '\t' (by decide) (by decide)

theorem refers_capitals (hc : isLegal c) :
    Refers ("#x".toList ++ Text.capitals c.toNat ++ [';']) (.char c) := by
  obtain ⟨hall, hvalue⟩ := Text.hexDigits_capitals c.toNat
  refine .hexadecimal hall ?_
  have hne : (Text.capitals c.toNat).filterMap Text.hexDigit? ≠ [] := by
    intro hnil
    rw [hnil, List.foldl_nil] at hvalue
    rw [isLegal, ← hvalue] at hc
    cases hc
  rw [charOfDigits?]
  simp only [hvalue]
  rw [if_pos ⟨hne, hc⟩, Char.ofNat_toNat]

theorem spells_escapeTextChar (hc : isLegal c) : Spells (escapeTextChar c) [c] := by
  unfold escapeTextChar
  split
  case h_1 => exact .char (refers_predefined (show isName "lt".toList by decide) (by decide)) .nil
  case h_2 => exact .char (refers_predefined (show isName "gt".toList by decide) (by decide)) .nil
  case h_3 => exact .char (refers_predefined (show isName "amp".toList by decide) (by decide)) .nil
  case h_4 => exact .char refers_return .nil
  case h_5 hlt _ hamp _ => exact .plain (by simp_all [isPlain]) hc .nil

theorem spells_write (hs : s.all isLegal) : Spells (s.flatMap escapeTextChar) s := by
  induction s with
  | nil => exact .nil
  | cons c s ih =>
    simp only [List.all_cons, Bool.and_eq_true] at hs
    exact (spells_escapeTextChar hs.1).append (ih hs.2)

theorem gt_notMem_escape (s : Text) : '>' ∉ s.flatMap escapeTextChar := by
  intro h
  obtain ⟨c, -, hc⟩ := List.mem_flatMap.1 h
  unfold escapeTextChar at hc
  split at hc
  case h_5 hgt _ _ => exact hgt (List.mem_singleton.1 hc).symm
  all_goals exact absurd hc (by decide)

/-! ### Attributes -/

theorem values_escapeTextChar (hc : isLegal c) (hquote : c ≠ '"') (hspace : isSpace c → c = ' ' ∨ c = '\r')
    {u v : Text} (h : Values [] (some '"') u v) : Values [] (some '"') (escapeTextChar c ++ u) (c :: v) := by
  unfold escapeTextChar
  split
  case h_1 => exact .char (refers_predefined (show isName "lt".toList by decide) (by decide)) h
  case h_2 => exact .char (refers_predefined (show isName "gt".toList by decide) (by decide)) h
  case h_3 => exact .char (refers_predefined (show isName "amp".toList by decide) (by decide)) h
  case h_4 => exact .char refers_return h
  case h_5 hlt _ hamp hreturn =>
    have hplain := h.plain (fun heq => hquote (Option.some.inj heq).symm) hlt hamp hc
    by_cases hblank : isSpace c
    · obtain rfl : c = ' ' := (hspace hblank).resolve_right hreturn
      exact hplain
    · rwa [if_neg hblank] at hplain

theorem values_escapeValueChar (hc : isLegal c) {u v : Text} (h : Values [] (some '"') u v) :
    Values [] (some '"') (escapeValueChar named c ++ u) (c :: v) := by
  unfold escapeValueChar
  split
  case h_1 => exact .char (refers_predefined (show isName "quot".toList by decide) (by decide)) h
  case h_2 => exact .char refers_lineFeed h
  case h_3 => exact .char refers_tab h
  case h_4 hquote hfeed htab =>
    split
    case isTrue => simpa [Text.capitals] using Values.char (refers_capitals hc) h
    case isFalse =>
      refine values_escapeTextChar hc hquote (fun hspace => ?_) h
      simp only [isSpace, Bool.or_eq_true, beq_iff_eq] at hspace
      rcases hspace with ((hspace | hspace) | hspace) | hspace
      · exact .inl hspace
      · exact absurd hspace htab
      · exact absurd hspace hfeed
      · exact .inr hspace

theorem values_write (hs : s.all isLegal) : Values [] (some '"') (s.flatMap (escapeValueChar named)) s := by
  induction s with
  | nil => exact .nil
  | cons c s ih =>
    simp only [List.all_cons, Bool.and_eq_true] at hs
    exact values_escapeValueChar hs.1 (ih hs.2)

/-- A tag as it may be written: names are names, and no two attributes have the same one. -/
structure ProperTag (name : Text) (as : List (Text × Text)) : Prop where
  name : isName name
  names : ∀ a ∈ as, isName a.1
  legal : ∀ a ∈ as, a.2.all isLegal
  distinct : (as.map Prod.fst).Nodup

theorem tagRest_write (hnames : ∀ a ∈ as, isName a.1) (hlegal : ∀ a ∈ as, a.2.all isLegal)
    (hdistinct : (as.map Prod.fst).Nodup) {u : Text} {isEmpty : Bool} (hu : TagRest [] u ([], isEmpty)) :
    TagRest [] (as.flatMap (fun a => writeAttribute named a.1 a.2) ++ u) (as, isEmpty) := by
  induction as with
  | nil => exact hu
  | cons a as ih =>
    obtain ⟨hname, hnames⟩ := List.forall_mem_cons.1 hnames
    obtain ⟨hvalue, hlegal⟩ := List.forall_mem_cons.1 hlegal
    rw [List.map_cons, List.nodup_cons] at hdistinct
    have hassigns : Assigns [] (a.1 ++ '=' :: '"' :: (a.2.flatMap (escapeValueChar named) ++ ['"'])) a :=
      @Assigns.intro [] a.1 [] [] _ a.2 '"' hname rfl rfl (.inl rfl) (values_write hvalue)
    have hunique : as.any (·.1 = a.1) = false := by
      rw [List.any_eq_false]
      intro b hb heq
      exact hdistinct.1 (List.mem_map.2 ⟨b, hb, by simpa using heq⟩)
    simpa [writeAttribute] using
      TagRest.cons (show [' '].all isSpace from rfl) (by simp) hassigns (ih hnames hlegal hdistinct.2) hunique

end DeckMerge.Xml
