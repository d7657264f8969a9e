import DeckMerge.Proofs.Xml.Content

/-!
What stands before the root is read alike whatever the root holds: each of its parts is closed by what
ends it, or by the opening of the root.
-/

namespace DeckMerge.Xml

open Recogniser

variable {s rest t v : Text} {fuel : Nat}

/-! ### Quotes and declarations that are skipped -/

theorem readQuoted_eq_some_iff : readQuoted s = some (v, rest) ↔
    ∃ q, isQuote q ∧ q ∉ v ∧ s = q :: (v ++ q :: rest) := by
  have hall : ∀ q (w : Text), w.all (· != q) ↔ q ∉ w := by
    intro q w
    simp only [List.all_eq_true, bne_iff_ne]
    exact ⟨fun h hq => h q hq rfl, fun h c hc heq => h (heq ▸ hc)⟩
  cases s with
  | nil => simp [readQuoted]
  | cons q s =>
    rw [readQuoted]
    constructor
    · intro h
      split at h
      case isFalse => cases h
      case isTrue hq =>
        split at h
        case h_2 => cases h
        case h_1 w c rest' hspan =>
          obtain ⟨rfl, rfl⟩ := Prod.mk.inj (Option.some.inj h)
          obtain ⟨rfl, hw, hc⟩ := Text.span_eq_iff.1 hspan
          obtain rfl : c = q := by simpa using hc
          exact ⟨c, hq, (hall c w).1 hw, rfl⟩
    · rintro ⟨q', hq, hv, heq⟩
      obtain ⟨rfl, rfl⟩ := List.cons.inj heq
      have hspan : (v ++ q :: rest).span (· != q) = (v, q :: rest) :=
        Text.span_eq_iff.2 ⟨rfl, (hall q v).2 hv, by simp⟩
      rw [if_pos (show q = '"' ∨ q = '\'' from hq), hspan]

/-- A declaration that says nothing about entities, up to its bracket. -/
inductive Skipped : Text → Prop
  | bracket : Skipped ['>']
  | quoted {q : Char} {v u : Text} : isQuote q → q ∉ v → Skipped u → Skipped (q :: (v ++ q :: u))
  | plain {c : Char} {u : Text} : c ≠ '>' → c ≠ '<' → ¬ isQuote c → Skipped u → Skipped (c :: u)

theorem Skipped.read {u : Text} (h : Skipped u) :
    ∀ n, u.length ≤ n → ∀ t, skipMarkup n (u ++ t) = some t := by
  induction h with
  | bracket =>
    intro n hn t
    obtain ⟨n, rfl⟩ : ∃ m, n = m + 1 := ⟨n - 1, by simp at hn; omega⟩
    rfl
  | @quoted q v u hq hv _ ih =>
    intro n hn t
    obtain ⟨n, rfl⟩ : ∃ m, n = m + 1 := ⟨n - 1, by simp at hn; omega⟩
    simp only [List.length_cons, List.length_append] at hn
    have hread : readQuoted (q :: (v ++ q :: u) ++ t) = some (v, u ++ t) :=
      readQuoted_eq_some_iff.2 ⟨q, hq, hv, by simp⟩
    have hstep : skipMarkup (n + 1) (q :: (v ++ q :: u) ++ t) =
        (readQuoted (q :: (v ++ q :: u) ++ t)).bind fun x => skipMarkup n x.2 := by
      rcases hq with rfl | rfl <;> rfl
    rw [hstep, hread]
    exact ih n (by omega) t
  | @plain c u hc hlt hquote _ ih =>
    intro n hn t
    obtain ⟨n, rfl⟩ : ∃ m, n = m + 1 := ⟨n - 1, by simp at hn; omega⟩
    simp only [List.length_cons] at hn
    rw [List.cons_append, skipMarkup.eq_6 _ _ _ hc hlt (fun h => hquote (.inl h)) fun h => hquote (.inr h)]
    exact ih n (by omega) t

theorem skipped_of_skipMarkup (h : skipMarkup fuel s = some rest) : ∃ u, Skipped u ∧ s = u ++ rest := by
  induction fuel generalizing s with
  | zero => cases h
  | succ fuel ih =>
    unfold skipMarkup at h
    have hquoted : ∀ s', (readQuoted s').bind (fun x => skipMarkup fuel x.2) = some rest →
        ∃ u, Skipped u ∧ s' = u ++ rest := by
      intro s' h
      obtain ⟨⟨v, t⟩, hv, hskip⟩ := Option.bind_eq_some_iff.1 h
      obtain ⟨q, hq, hmem, rfl⟩ := readQuoted_eq_some_iff.1 hv
      obtain ⟨u, hu, rfl⟩ := ih hskip
      exact ⟨_, .quoted hq hmem hu, by simp⟩
    split at h
    case h_1 =>
      obtain rfl := Option.some.inj h
      exact ⟨_, .bracket, rfl⟩
    case h_2 => cases h
    case h_3 => exact hquoted _ h
    case h_4 => exact hquoted _ h
    case h_5 c t hc hlt hdouble hsingle =>
      obtain ⟨u, hu, rfl⟩ := ih h
      exact ⟨_, .plain hc hlt (fun hq => hq.elim hdouble hsingle) hu, rfl⟩
    case h_6 => cases h

theorem Skipped.bracket_mem {u : Text} (h : Skipped u) : '>' ∈ u := by
  induction h with
  | bracket => exact List.mem_cons_self
  | quoted _ _ _ ih => simp [ih]
  | plain _ _ _ _ ih => exact List.mem_cons_of_mem _ ih

/-- Blanks at the front are skipped before the bracket is met. -/
theorem Skipped.of_blanks {u w : Text} {c : Char} (h : Skipped u) (hw : w.all isSpace)
    (heq : u ++ rest = w ++ c :: t) : ∃ u', u = w ++ c :: u' ∧ Skipped (c :: u') := by
  induction w generalizing u with
  | nil =>
    cases h with
    | bracket =>
      obtain ⟨rfl, -⟩ := List.cons.inj heq
      exact ⟨[], rfl, .bracket⟩
    | @quoted q v u hq hv hu =>
      obtain ⟨rfl, -⟩ := List.cons.inj heq
      exact ⟨_, rfl, .quoted hq hv hu⟩
    | @plain d u hd hlt hquote hu =>
      obtain ⟨rfl, -⟩ := List.cons.inj heq
      exact ⟨_, rfl, .plain hd hlt hquote hu⟩
  | cons d w ih =>
    simp only [List.all_cons, Bool.and_eq_true] at hw
    cases h with
    | bracket =>
      obtain ⟨rfl, -⟩ := List.cons.inj heq
      cases hw.1
    | quoted hq =>
      obtain ⟨rfl, -⟩ := List.cons.inj heq
      rw [hq.not_isSpace] at hw
      cases hw.1
    | plain _ _ _ hu =>
      obtain ⟨rfl, htail⟩ := List.cons.inj heq
      obtain ⟨u', rfl, hu'⟩ := ih hu hw.2 htail
      exact ⟨u', rfl, hu'⟩

/-! ### Entities -/

variable {es es' : Entities}

theorem readQuoted_of_not_isQuote {c : Char} (hc : ¬ isQuote c) (s : Text) :
    readQuoted (c :: s) = none := if_neg hc

/-- How an entity goes on behind its name. -/
inductive Means : Text → Option Text → Prop
  | here {w w' v x : Text} {q : Char} : w.all isSpace → isQuote q → q ∉ v →
    entityText (v.length + 1) v = some x → w'.all isSpace →
    Means (w ++ q :: (v ++ q :: (w' ++ ['>']))) (some x)
  | elsewhere {w u : Text} {c : Char} : w.all isSpace → isSpace c = false → ¬ isQuote c →
    Skipped (w ++ c :: u) → Means (w ++ c :: u) none

theorem Means.read {u : Text} {x : Option Text} (h : Means u x) : Takes readEntityText u x := by
  intro t
  cases h with
  | @here w w' v x q hw hq hv hx hw' =>
    have hskip : skipSpace (w ++ q :: (v ++ q :: (w' ++ ['>'])) ++ t) = q :: (v ++ q :: (w' ++ '>' :: t)) := by
      simpa using skipSpace_append_cons hw hq.not_isSpace _
    have hread : readQuoted (q :: (v ++ q :: (w' ++ '>' :: t))) = some (v, w' ++ '>' :: t) :=
      readQuoted_eq_some_iff.2 ⟨q, hq, hv, rfl⟩
    simp only [readEntityText, hskip, hread, hx, Option.bind_eq_bind, Option.bind_some,
      skipSpace_append_cons hw' (show isSpace '>' = false by decide)]
    rfl
  | @elsewhere w u c hw hc hquote hu =>
    have hskip : skipSpace (w ++ c :: u ++ t) = c :: (u ++ t) := by
      simpa using skipSpace_append_cons hw hc (u ++ t)
    have hread := hu.read (w ++ c :: u ++ t).length (by simp) t
    simp only [readEntityText, hskip, readQuoted_of_not_isQuote hquote, hread, Option.map_some]

theorem means_of_readEntityText {x : Option Text} (h : readEntityText s = some (x, rest)) :
    ∃ u, Means u x ∧ s = u ++ rest := by
  rw [readEntityText] at h
  split at h
  case h_1 v t hread =>
    simp only [Option.bind_eq_bind, Option.bind_eq_some_iff] at h
    obtain ⟨x', hx, h⟩ := h
    split at h
    case h_2 => cases h
    case h_1 t' hskip' =>
      obtain ⟨rfl, rfl⟩ := Prod.mk.inj (Option.some.inj h)
      obtain ⟨q, hq, hv, hskip⟩ := readQuoted_eq_some_iff.1 hread
      obtain ⟨w, rfl, hw, -⟩ := skipSpace_eq_cons hskip
      obtain ⟨w', rfl, hw', -⟩ := skipSpace_eq_cons hskip'
      exact ⟨_, .here hw hq hv hx hw', by simp⟩
  case h_2 hread =>
    obtain ⟨t, ht, h⟩ := Option.map_eq_some_iff.1 h
    obtain ⟨rfl, rfl⟩ := Prod.mk.inj h
    obtain ⟨u, hu, rfl⟩ := skipped_of_skipMarkup ht
    cases hskip : skipSpace (u ++ t) with
    | nil =>
      have hall : (u ++ t).all isSpace := by
        have hs := @List.takeWhile_append_dropWhile _ isSpace (u ++ t)
        rw [show (u ++ t).dropWhile isSpace = [] from hskip, List.append_nil] at hs
        rw [← hs]
        exact List.all_takeWhile
      cases List.all_eq_true.1 hall '>' (List.mem_append_left _ hu.bracket_mem)
    | cons c s' =>
      obtain ⟨w, heq, hw, hc⟩ := skipSpace_eq_cons hskip
      obtain ⟨u', rfl, hu'⟩ := hu.of_blanks hw heq
      have hquote : ¬ isQuote c := by
        intro hq
        cases hu' with
        | bracket => exact absurd hq (by simp [isQuote])
        | plain _ _ hquote => exact hquote hq
        | @quoted _ v u' _ hv _ =>
          have hs' : s' = v ++ c :: (u' ++ t) := by
            have := List.append_cancel_left (show w ++ c :: (v ++ c :: u' ++ t) = w ++ c :: s' by simpa using heq)
            simpa using (List.cons.inj this).2.symm
          rw [hskip, hs', readQuoted_eq_some_iff.2 ⟨c, hq, hv, rfl⟩] at hread
          cases hread
      exact ⟨_, .elsewhere hw hc hquote hu, rfl⟩

/-- An entity behind its keyword. -/
inductive Declares (es : Entities) : Text → Entities → Prop
  | parameter {w u : Text} : w.all isSpace → w ≠ [] → Skipped (w ++ '%' :: u) →
    Declares es (w ++ '%' :: u) es
  | general {w name u : Text} {x : Option Text} : w.all isSpace → w ≠ [] → isName name →
    u.head?.any isSpace → Means u x → Declares es (w ++ (name ++ u)) (es.declare name x)

theorem head?_any_append {p : Char → Bool} {u : Text} (h : u.head?.any p) (t : Text) :
    (u ++ t).head?.any p := by
  cases u with
  | nil => cases h
  | cons => exact h

theorem head?_any_of_all {w : Text} (hw : w.all isSpace) (hne : w ≠ []) (t : Text) :
    (w ++ t).head?.any isSpace := by
  cases w with
  | nil => exact absurd rfl hne
  | cons c w =>
    simp only [List.all_cons, Bool.and_eq_true] at hw
    exact hw.1

theorem head?_any_isNameChar {u : Text} (h : u.head?.any isSpace) : u.head?.any isNameChar = false := by
  cases u with
  | nil => rfl
  | cons c u => exact isNameChar_of_isSpace h

theorem Declares.read {u : Text} (h : Declares es u es') : Takes (readEntity es) u es' := by
  intro t
  cases h with
  | @parameter w u hw hne hu =>
    have hskip : skipSpace (w ++ '%' :: u ++ t) = '%' :: (u ++ t) := by
      simpa using skipSpace_append_cons hw (by decide) (u ++ t)
    have hread := hu.read (w ++ '%' :: u ++ t).length (by simp) t
    rw [readEntity, if_pos (by rw [List.append_assoc]; exact head?_any_of_all hw hne _), hskip]
    simp only [hread, Option.map_some]
  | @general w name u x hw hne hname hhead hu =>
    obtain ⟨n, name', rfl, hn⟩ := cons_of_isName hname
    have hskip : skipSpace (w ++ (n :: name' ++ u) ++ t) = n :: name' ++ (u ++ t) := by
      simpa using skipSpace_append_cons hw (isSpace_of_isNameStart hn) _
    have hread : readName (n :: name' ++ (u ++ t)) = some (n :: name', u ++ t) :=
      readName_eq_some_iff.2 ⟨rfl, hname, head?_any_isNameChar (head?_any_append hhead t)⟩
    rw [readEntity, if_pos (by rw [List.append_assoc]; exact head?_any_of_all hw hne _), hskip]
    split
    case h_1 heq =>
      obtain ⟨rfl, -⟩ := List.cons.inj heq
      exact absurd hn (by decide)
    case h_2 =>
      simp only [hread, hu.read t, if_pos (head?_any_append hhead t), Option.bind_eq_bind,
        Option.bind_some]
      rfl

theorem declares_of_readEntity (h : readEntity es s = some (es', rest)) :
    ∃ u, Declares es u es' ∧ s = u ++ rest := by
  rw [readEntity] at h
  split at h
  case isFalse => cases h
  case isTrue hspace =>
  have hblanks : ∀ t : Text, skipSpace s = t → ∃ w, s = w ++ t ∧ w.all isSpace ∧ w ≠ [] := by
    rintro t rfl
    refine ⟨s.takeWhile isSpace, List.takeWhile_append_dropWhile.symm, List.all_takeWhile, ?_⟩
    cases s with
    | nil => cases hspace
    | cons c s => simp [show isSpace c from hspace]
  split at h
  case h_1 t hskip =>
    obtain ⟨rest', hrest, h⟩ := Option.map_eq_some_iff.1 h
    obtain ⟨rfl, rfl⟩ := Prod.mk.inj h
    obtain ⟨u, hu, heq⟩ := skipped_of_skipMarkup hrest
    obtain ⟨w, hs, hw, hne⟩ := hblanks _ hskip
    obtain ⟨u', rfl, -⟩ := hu.of_blanks hw (heq.symm.trans hs)
    exact ⟨_, .parameter hw hne hu, heq⟩
  case h_2 =>
    simp only [Option.bind_eq_bind, Option.bind_eq_some_iff] at h
    obtain ⟨⟨name, t⟩, hread, h⟩ := h
    split at h
    case isFalse => cases h
    case isTrue hhead =>
    simp only [Option.bind_eq_some_iff] at h
    obtain ⟨⟨x, t'⟩, hx, h⟩ := h
    obtain ⟨rfl, rfl⟩ := Prod.mk.inj (Option.some.inj h)
    obtain ⟨hs, hname, -⟩ := readName_eq_some_iff.1 hread
    obtain ⟨u, hu, rfl⟩ := means_of_readEntityText hx
    obtain ⟨w, hs', hw, hne⟩ := hblanks _ hs
    have huhead : u.head?.any isSpace := by
      cases u with
      | nil => exact absurd (hu.read []) (by simp [readEntityText, skipSpace, readQuoted, skipMarkup])
      | cons => exact hhead
    exact ⟨_, .general hw hne hname huhead hu, by simpa using hs'⟩

/-! ### Declarations in place -/

/-- The declarations up to the bracket that ends them. -/
inductive Declared : Entities → Text → Entities → Prop
  | bracket {es : Entities} {w : Text} : w.all isSpace → Declared es (w ++ [']']) es
  | comment {es es' : Entities} {w c u : Text} : w.all isSpace → IsComment c → Declared es u es' →
    Declared es (w ++ '<' :: '!' :: '-' :: '-' :: (c ++ '-' :: '-' :: '>' :: u)) es'
  | instruction {es es' : Entities} {w target d u : Text} : w.all isSpace →
    IsInstruction target d → Declared es u es' →
    Declared es (w ++ '<' :: '?' :: (target ++ (d ++ '?' :: '>' :: u))) es'
  | reference {es es' : Entities} {w name u : Text} : w.all isSpace → isName name →
    Declared es u es' → Declared es (w ++ '%' :: (name ++ ';' :: u)) es'
  | entity {es es' es'' : Entities} {w v u : Text} : w.all isSpace → Declares es v es' →
    Declared es' u es'' → Declared es (w ++ ("<!ENTITY".toList ++ (v ++ u))) es''
  | other {es es' : Entities} {w k v u : Text} : w.all isSpace →
    k ∈ ["<!ELEMENT".toList, "<!ATTLIST".toList, "<!NOTATION".toList] → Skipped v →
    Declared es u es' → Declared es (w ++ (k ++ (v ++ u))) es'

theorem Declared.read {u : Text} (h : Declared es u es') :
    ∀ n, u.length ≤ n → Takes (readSubset n es) u es' := by
  induction h with
  | @bracket es w hw =>
    intro n hn t
    obtain ⟨n, rfl⟩ : ∃ m, n = m + 1 := ⟨n - 1, by simp at hn; omega⟩
    have hskip : skipSpace (w ++ [']'] ++ t) = ']' :: t := by
      simpa using skipSpace_append_cons hw (by decide) t
    rw [readSubset, hskip]
    rfl
  | @comment es es' w c u hw hc _ ih =>
    intro n hn t
    obtain ⟨n, rfl⟩ : ∃ m, n = m + 1 := ⟨n - 1, by simp at hn; omega⟩
    simp only [List.length_append, List.length_cons] at hn
    have hskip : skipSpace (w ++ '<' :: '!' :: '-' :: '-' :: (c ++ '-' :: '-' :: '>' :: u) ++ t) =
        '<' :: '!' :: '-' :: '-' :: (c ++ '-' :: '-' :: '>' :: (u ++ t)) := by
      simpa using skipSpace_append_cons hw (by decide) _
    rw [readSubset, hskip]
    simp only [readComment_eq_some_iff.2 ⟨hc, rfl⟩, Option.bind_eq_bind, Option.bind_some]
    exact ih n (by omega) t
  | @instruction es es' w target d u hw hd _ ih =>
    intro n hn t
    obtain ⟨n, rfl⟩ : ∃ m, n = m + 1 := ⟨n - 1, by simp at hn; omega⟩
    simp only [List.length_append, List.length_cons] at hn
    have hskip : skipSpace (w ++ '<' :: '?' :: (target ++ (d ++ '?' :: '>' :: u)) ++ t) =
        '<' :: '?' :: (target ++ (d ++ '?' :: '>' :: (u ++ t))) := by
      simpa using skipSpace_append_cons hw (by decide) _
    rw [readSubset, hskip]
    simp only [readInstruction_eq_some_iff.2 ⟨target, d, hd, rfl, rfl⟩, Option.bind_eq_bind,
      Option.bind_some]
    exact ih n (by omega) t
  | @reference es es' w name u hw hname _ ih =>
    intro n hn t
    obtain ⟨n, rfl⟩ : ∃ m, n = m + 1 := ⟨n - 1, by simp at hn; omega⟩
    simp only [List.length_append, List.length_cons] at hn
    have hskip : skipSpace (w ++ '%' :: (name ++ ';' :: u) ++ t) = '%' :: (name ++ ';' :: (u ++ t)) := by
      simpa using skipSpace_append_cons hw (by decide) _
    have hread : readName (name ++ ';' :: (u ++ t)) = some (name, ';' :: (u ++ t)) :=
      readName_eq_some_iff.2 ⟨rfl, hname, rfl⟩
    rw [readSubset, hskip]
    simp only [hread, Option.bind_eq_bind, Option.bind_some]
    exact ih n (by omega) t
  | @entity es es' es'' w v u hw hv _ ih =>
    intro n hn t
    obtain ⟨n, rfl⟩ : ∃ m, n = m + 1 := ⟨n - 1, by simp at hn; omega⟩
    simp only [List.length_append] at hn
    have hskip : skipSpace (w ++ ("<!ENTITY".toList ++ (v ++ u)) ++ t) =
        '<' :: '!' :: 'E' :: 'N' :: 'T' :: 'I' :: 'T' :: 'Y' :: (v ++ (u ++ t)) := by
      simpa using skipSpace_append_cons hw (by decide) _
    have hstep : readSubset (n + 1) es (w ++ ("<!ENTITY".toList ++ (v ++ u)) ++ t) =
        (readEntity es (v ++ (u ++ t))).bind fun x => readSubset n x.1 x.2 := by
      rw [readSubset, hskip]
      rfl
    have hlength : 0 < "<!ENTITY".toList.length := by decide
    rw [hstep, hv.read]
    exact ih n (by omega) t
  | @other es es' w k v u hw hk hv _ ih =>
    intro n hn t
    obtain ⟨n, rfl⟩ : ∃ m, n = m + 1 := ⟨n - 1, by cases hv <;> simp at hn <;> omega⟩
    have hread := hv.read (v ++ (u ++ t)).length (by simp) (u ++ t)
    have hstep : readSubset (n + 1) es (w ++ (k ++ (v ++ u)) ++ t) =
        (skipMarkup (v ++ (u ++ t)).length (v ++ (u ++ t))).bind fun x => readSubset n es x := by
      simp only [List.mem_cons, List.not_mem_nil, or_false] at hk
      have hskip : ∀ c k', isSpace c = false → k = c :: k' →
          skipSpace (w ++ (k ++ (v ++ u)) ++ t) = c :: (k' ++ (v ++ (u ++ t))) := by
        rintro c k' hc rfl
        simpa using skipSpace_append_cons hw hc (k' ++ (v ++ (u ++ t)))
      rcases hk with rfl | rfl | rfl
      · rw [readSubset, hskip '<' "!ELEMENT".toList (by decide) rfl]
        rfl
      · rw [readSubset, hskip '<' "!ATTLIST".toList (by decide) rfl]
        rfl
      · rw [readSubset, hskip '<' "!NOTATION".toList (by decide) rfl]
        rfl
    have hlength : 0 < k.length := by
      simp only [List.mem_cons, List.not_mem_nil, or_false] at hk
      rcases hk with rfl | rfl | rfl <;> decide
    simp only [List.length_append] at hn
    rw [hstep, hread]
    exact ih n (by omega) t

theorem declared_of_readSubset (h : readSubset fuel es s = some (es', rest)) :
    ∃ u, Declared es u es' ∧ s = u ++ rest := by
  induction fuel generalizing es s with
  | zero => cases h
  | succ fuel ih =>
    rw [readSubset] at h
    split at h
    case h_1 t hskip =>
      obtain ⟨rfl, rfl⟩ := Prod.mk.inj (Option.some.inj h)
      obtain ⟨w, rfl, hw, -⟩ := skipSpace_eq_cons hskip
      exact ⟨_, .bracket hw, by simp⟩
    case h_2 t hskip =>
      obtain ⟨⟨c, t'⟩, hc, hrest⟩ := Option.bind_eq_some_iff.1 h
      obtain ⟨hcomment, rfl⟩ := readComment_eq_some_iff.1 hc
      obtain ⟨w, rfl, hw, -⟩ := skipSpace_eq_cons hskip
      obtain ⟨u, hu, rfl⟩ := ih hrest
      exact ⟨_, .comment hw hcomment hu, by simp⟩
    case h_3 t hskip =>
      obtain ⟨⟨n, t'⟩, hn, hrest⟩ := Option.bind_eq_some_iff.1 h
      obtain ⟨target, d, hd, -, rfl⟩ := readInstruction_eq_some_iff.1 hn
      obtain ⟨w, rfl, hw, -⟩ := skipSpace_eq_cons hskip
      obtain ⟨u, hu, rfl⟩ := ih hrest
      exact ⟨_, .instruction hw hd hu, by simp⟩
    case h_4 t hskip =>
      obtain ⟨⟨name, t'⟩, hread, hrest⟩ := Option.bind_eq_some_iff.1 h
      obtain ⟨rfl, hname, -⟩ := readName_eq_some_iff.1 hread
      split at hrest
      case h_2 => cases hrest
      case h_1 t'' heq =>
        obtain ⟨rfl, rfl⟩ := Prod.mk.inj heq
        obtain ⟨w, rfl, hw, -⟩ := skipSpace_eq_cons hskip
        obtain ⟨u, hu, rfl⟩ := ih hrest
        exact ⟨_, .reference hw hname hu, by simp⟩
    case h_5 =>
      have hs : s = s.takeWhile isSpace ++ skipSpace s := List.takeWhile_append_dropWhile.symm
      have hw : (s.takeWhile isSpace).all isSpace := List.all_takeWhile
      split at h
      case h_1 t ht =>
        obtain ⟨⟨es₁, t'⟩, hread, hrest⟩ := Option.bind_eq_some_iff.1 h
        obtain ⟨v, hv, rfl⟩ := declares_of_readEntity hread
        obtain ⟨u, hu, rfl⟩ := ih hrest
        have heq := List.isPrefixOf?_eq_some_iff_append_eq.1 ht
        exact ⟨_, .entity hw hv hu, by simpa [← heq] using hs⟩
      case h_2 =>
        obtain ⟨t, ht, hmarkup⟩ := Option.bind_eq_some_iff.1 h
        obtain ⟨t', hread, hrest⟩ := Option.bind_eq_some_iff.1 hmarkup
        obtain ⟨v, hv, rfl⟩ := skipped_of_skipMarkup hread
        obtain ⟨u, hu, rfl⟩ := ih hrest
        obtain ⟨k, hk, hprefix⟩ := List.exists_of_findSome?_eq_some ht
        have heq := List.isPrefixOf?_eq_some_iff_append_eq.1 hprefix
        have hmem : k.toList ∈ ["<!ELEMENT".toList, "<!ATTLIST".toList, "<!NOTATION".toList] :=
          List.mem_map_of_mem hk
        exact ⟨_, .other hw hmem hv hu, by simpa [← heq] using hs⟩

/-! ### The document type -/

/-- Where the external part is, if there is one. -/
inductive External : Text → Prop
  | absent : External []
  | system {w w' v : Text} {q : Char} : w.all isSpace → w'.all isSpace → isQuote q → q ∉ v →
    External (w ++ ("SYSTEM".toList ++ (w' ++ q :: (v ++ [q]))))
  | general {w w₁ w₂ v₁ v₂ : Text} {q₁ q₂ : Char} : w.all isSpace → w₁.all isSpace → isQuote q₁ →
    q₁ ∉ v₁ → w₂.all isSpace → isQuote q₂ → q₂ ∉ v₂ →
    External (w ++ ("PUBLIC".toList ++ (w₁ ++ q₁ :: (v₁ ++ q₁ :: (w₂ ++ q₂ :: (v₂ ++ [q₂]))))))

theorem readQuoted_skipSpace {w : Text} {q : Char} (hw : w.all isSpace) (hq : isQuote q) (hv : q ∉ v)
    (t : Text) : readQuoted (skipSpace (w ++ q :: (v ++ q :: t))) = some (v, t) := by
  rw [skipSpace_append_cons hw hq.not_isSpace]
  exact readQuoted_eq_some_iff.2 ⟨q, hq, hv, rfl⟩

theorem exists_of_readQuoted_skipSpace (h : readQuoted (skipSpace s) = some (v, rest)) :
    ∃ w q, w.all isSpace ∧ isQuote q ∧ q ∉ v ∧ s = w ++ q :: (v ++ q :: rest) := by
  obtain ⟨q, hq, hv, hskip⟩ := readQuoted_eq_some_iff.1 h
  obtain ⟨w, rfl, hw, -⟩ := skipSpace_eq_cons hskip
  exact ⟨w, q, hw, hq, hv, rfl⟩

/-- What follows where nothing external is named: a bracket of either kind. -/
def Follows (t : Text) : Prop := ∃ w c t', w.all isSpace ∧ (c = '[' ∨ c = '>') ∧ t = w ++ c :: t'

theorem External.read {u : Text} (h : External u) (ht : Follows t) : skipExternal (u ++ t) = some t := by
  cases h with
  | absent =>
    obtain ⟨w, c, t', hw, hc, rfl⟩ := ht
    rw [List.nil_append, skipExternal]
    rcases hc with rfl | rfl
    · rw [skipSpace_append_cons hw (by decide)]
      rfl
    · rw [skipSpace_append_cons hw (by decide)]
      rfl
  | @system w w' v q hw hw' hq hv =>
    have hskip : skipSpace (w ++ ("SYSTEM".toList ++ (w' ++ q :: (v ++ [q]))) ++ t) =
        "SYSTEM".toList ++ (w' ++ q :: (v ++ q :: t)) := by
      simpa using skipSpace_append_cons hw (by decide) _
    rw [skipExternal, hskip]
    simp only [Text.isPrefixOf?_append, readQuoted_skipSpace hw' hq hv, Option.map_some]
  | @general w w₁ w₂ v₁ v₂ q₁ q₂ hw hw₁ hq₁ hv₁ hw₂ hq₂ hv₂ =>
    have hskip : skipSpace (w ++ ("PUBLIC".toList ++ (w₁ ++ q₁ :: (v₁ ++ q₁ :: (w₂ ++ q₂ :: (v₂ ++ [q₂]))))) ++ t) =
        "PUBLIC".toList ++ (w₁ ++ q₁ :: (v₁ ++ q₁ :: (w₂ ++ q₂ :: (v₂ ++ q₂ :: t)))) := by
      simpa using skipSpace_append_cons hw (by decide) _
    have hsystem : ∀ x, ("SYSTEM".toList).isPrefixOf? ("PUBLIC".toList ++ x) = none := fun _ => rfl
    rw [skipExternal, hskip]
    simp only [hsystem, Text.isPrefixOf?_append, readQuoted_skipSpace hw₁ hq₁ hv₁, Option.bind_eq_bind,
      Option.bind_some, readQuoted_skipSpace hw₂ hq₂ hv₂, Option.map_some]

theorem external_of_skipExternal (h : skipExternal s = some rest) :
    ∃ u, External u ∧ s = u ++ rest := by
  have hs : s = s.takeWhile isSpace ++ skipSpace s := List.takeWhile_append_dropWhile.symm
  have hw : (s.takeWhile isSpace).all isSpace := List.all_takeWhile
  rw [skipExternal] at h
  split at h
  case h_1 t ht =>
    obtain ⟨⟨v, t'⟩, hread, heq⟩ := Option.map_eq_some_iff.1 h
    obtain rfl : t' = rest := heq
    obtain ⟨w', q, hw', hq, hv, rfl⟩ := exists_of_readQuoted_skipSpace hread
    have hprefix := List.isPrefixOf?_eq_some_iff_append_eq.1 ht
    exact ⟨_, .system hw hw' hq hv, by simpa [← hprefix] using hs⟩
  case h_2 =>
    split at h
    case h_1 t ht =>
      obtain ⟨⟨v₁, t₁⟩, hread₁, h⟩ := Option.bind_eq_some_iff.1 h
      obtain ⟨⟨v₂, t₂⟩, hread₂, heq⟩ := Option.map_eq_some_iff.1 h
      obtain rfl : t₂ = rest := heq
      obtain ⟨w₁, q₁, hw₁, hq₁, hv₁, rfl⟩ := exists_of_readQuoted_skipSpace hread₁
      obtain ⟨w₂, q₂, hw₂, hq₂, hv₂, rfl⟩ := exists_of_readQuoted_skipSpace hread₂
      have hprefix := List.isPrefixOf?_eq_some_iff_append_eq.1 ht
      exact ⟨_, .general hw hw₁ hq₁ hv₁ hw₂ hq₂ hv₂, by simpa [← hprefix] using hs⟩
    case h_2 =>
      obtain rfl := Option.some.inj h
      exact ⟨[], .absent, rfl⟩

/-- The brackets with declarations, if there are any. -/
inductive Bracketed : Text → Entities → Prop
  | absent : Bracketed [] []
  | present {w u : Text} {es : Entities} : w.all isSpace → Declared [] u es → Bracketed (w ++ '[' :: u) es

theorem Bracketed.read {u w : Text} (h : Bracketed u es) (hw : w.all isSpace) (t : Text) :
    readDeclared (u ++ (w ++ '>' :: t)) = some (es, w ++ '>' :: t) := by
  cases h with
  | absent =>
    rw [List.nil_append, readDeclared, skipSpace_append_cons hw (by decide)]
    rfl
  | @present w' u _ hw' hu =>
    have hskip : skipSpace (w' ++ '[' :: u ++ (w ++ '>' :: t)) = '[' :: (u ++ (w ++ '>' :: t)) := by
      simpa using skipSpace_append_cons hw' (by decide) (u ++ (w ++ '>' :: t))
    rw [readDeclared, hskip]
    exact hu.read _ (by simp; omega) _

theorem Bracketed.follows {u w : Text} (h : Bracketed u es) (hw : w.all isSpace) (t : Text) :
    Follows (u ++ (w ++ '>' :: t)) := by
  cases h with
  | absent => exact ⟨w, '>', t, hw, .inr rfl, rfl⟩
  | @present w' u _ hw' _ => exact ⟨w', '[', u ++ (w ++ '>' :: t), hw', .inl rfl, by simp⟩

theorem bracketed_of_readDeclared (h : readDeclared s = some (es, rest)) :
    ∃ u, Bracketed u es ∧ s = u ++ rest := by
  rw [readDeclared] at h
  split at h
  case h_1 t hskip =>
    obtain ⟨w, rfl, hw, -⟩ := skipSpace_eq_cons hskip
    obtain ⟨u, hu, rfl⟩ := declared_of_readSubset h
    exact ⟨_, .present hw hu, by simp⟩
  case h_2 =>
    obtain ⟨rfl, rfl⟩ := Prod.mk.inj (Option.some.inj h)
    exact ⟨[], .absent, rfl⟩

/-- A document type from its keyword to its bracket. -/
inductive DocumentType : Text → Entities → Prop
  | intro {w w' name e b : Text} {es : Entities} : w.all isSpace → w ≠ [] → isName name →
    External e → Bracketed b es → w'.all isSpace →
    (e ++ (b ++ (w' ++ ['>']))).head?.any isNameChar = false →
    DocumentType ("<!DOCTYPE".toList ++ (w ++ (name ++ (e ++ (b ++ (w' ++ ['>'])))))) es

theorem DocumentType.read {u : Text} (h : DocumentType u es) : Takes readDocumentType u es := by
  intro t
  cases h with
  | @intro w w' name e b _ hw hne hname he hb hw' hhead =>
    obtain ⟨n, name', rfl, hn⟩ := cons_of_isName hname
    have hprefix : ("<!DOCTYPE".toList).isPrefixOf?
        ("<!DOCTYPE".toList ++ (w ++ (n :: name' ++ (e ++ (b ++ (w' ++ ['>']))))) ++ t) =
        some (w ++ (n :: name' ++ (e ++ (b ++ (w' ++ '>' :: t))))) := by
      simp
    have hskip : skipSpace (w ++ (n :: name' ++ (e ++ (b ++ (w' ++ '>' :: t))))) =
        n :: name' ++ (e ++ (b ++ (w' ++ '>' :: t))) :=
      skipSpace_append_cons hw (isSpace_of_isNameStart hn) _
    have hstop : (e ++ (b ++ (w' ++ '>' :: t))).head?.any isNameChar = false := by
      have heq : (e ++ (b ++ (w' ++ '>' :: t))).head? = (e ++ (b ++ (w' ++ ['>']))).head? := by
        cases e <;> cases b <;> cases w' <;> rfl
      rw [heq, hhead]
    have hread : readName (n :: name' ++ (e ++ (b ++ (w' ++ '>' :: t)))) =
        some (n :: name', e ++ (b ++ (w' ++ '>' :: t))) := readName_eq_some_iff.2 ⟨rfl, hname, hstop⟩
    rw [readDocumentType, hprefix]
    simp only [head?_any_of_all hw hne, if_true, hskip, hread, he.read (hb.follows hw' t),
      hb.read hw' t, Option.bind_eq_bind, Option.bind_some,
      skipSpace_append_cons hw' (show isSpace '>' = false by decide)]
    rfl

/-- What is read as a document type is one, or there is none. -/
theorem documentType_of_readDocumentType (h : readDocumentType s = some (es, rest)) :
    (∃ u, DocumentType u es ∧ s = u ++ rest) ∨
      es = [] ∧ rest = s ∧ ("<!DOCTYPE".toList).isPrefixOf? s = none := by
  rw [readDocumentType] at h
  split at h
  case h_1 hnone =>
    obtain ⟨rfl, rfl⟩ := Prod.mk.inj (Option.some.inj h)
    exact .inr ⟨rfl, rfl, hnone⟩
  case h_2 t ht =>
    split at h
    case isFalse => cases h
    case isTrue hspace =>
    simp only [Option.bind_eq_bind, Option.bind_eq_some_iff] at h
    obtain ⟨⟨name, t₁⟩, hread, t₂, hexternal, ⟨es', t₃⟩, hdeclared, h⟩ := h
    split at h
    case h_2 => cases h
    case h_1 t₄ hskip =>
    obtain ⟨rfl, rfl⟩ := Prod.mk.inj (Option.some.inj h)
    obtain ⟨heq, hname, hhead⟩ := readName_eq_some_iff.1 hread
    obtain ⟨e, he, rfl⟩ := external_of_skipExternal hexternal
    obtain ⟨b, hb, rfl⟩ := bracketed_of_readDeclared hdeclared
    obtain ⟨w', rfl, hw', -⟩ := skipSpace_eq_cons hskip
    have hs : t = t.takeWhile isSpace ++ skipSpace t := List.takeWhile_append_dropWhile.symm
    have hw : (t.takeWhile isSpace).all isSpace := List.all_takeWhile
    have hne : t.takeWhile isSpace ≠ [] := by
      cases t with
      | nil => cases hspace
      | cons c t => simp [show isSpace c from hspace]
    have hstop : (e ++ (b ++ (w' ++ ['>']))).head?.any isNameChar = false := by
      have heq : (e ++ (b ++ (w' ++ '>' :: t₄))).head? = (e ++ (b ++ (w' ++ ['>']))).head? := by
        cases e <;> cases b <;> cases w' <;> rfl
      rw [← heq, hhead]
    have hprefix := List.isPrefixOf?_eq_some_iff_append_eq.1 ht
    refine .inl ⟨_, .intro hw hne hname he hb hw' hstop, ?_⟩
    have ht' : t = t.takeWhile isSpace ++ (name ++ (e ++ (b ++ (w' ++ '>' :: t₄)))) := by
      rw [← heq]
      exact hs
    rw [← hprefix]
    simpa using ht'

/-! ### Comments and instructions outside the root -/

/-- Comments and instructions with blanks before them, and blanks behind the last. -/
inductive Misc : Text → List Tree → Prop
  | blanks {w : Text} : w.all isSpace → Misc w []
  | comment {w c u : Text} {ts : List Tree} : w.all isSpace → IsComment c → Misc u ts →
    Misc (w ++ '<' :: '!' :: '-' :: '-' :: (c ++ '-' :: '-' :: '>' :: u)) (.comment c :: ts)
  | instruction {w target d u : Text} {ts : List Tree} : w.all isSpace → IsInstruction target d →
    Misc u ts → Misc (w ++ '<' :: '?' :: (target ++ (d ++ '?' :: '>' :: u)))
      (.instruction target (skipSpace d) :: ts)

/-- Neither blanks nor comments nor instructions begin here. -/
def StopsMisc (t : Text) : Prop := t.head?.any isSpace = false ∧
  ¬ "<!--".toList <+: t ∧ ¬ "<?".toList <+: t

theorem skipSpace_of_head (h : t.head?.any isSpace = false) : skipSpace t = t := by
  cases t with
  | nil => rfl
  | cons c t => exact skipSpace_cons h t

theorem StopsMisc.read (h : StopsMisc t) {w : Text} (hw : w.all isSpace) :
    readMisc (fuel + 1) (w ++ t) = some ([], t) := by
  obtain ⟨hhead, hcomment, hinstruction⟩ := h
  rw [readMisc, skipSpace_append hw, skipSpace_of_head hhead]
  split
  case h_1 t => exact absurd ⟨t, rfl⟩ hcomment
  case h_2 t => exact absurd ⟨t, rfl⟩ hinstruction
  case h_3 => rfl

theorem Misc.read {u : Text} {ts : List Tree} (h : Misc u ts) :
    ∀ n, u.length < n → ∀ t, StopsMisc t → readMisc n (u ++ t) = some (ts, t) := by
  induction h with
  | blanks hw =>
    intro n hn t ht
    obtain ⟨n, rfl⟩ : ∃ m, n = m + 1 := ⟨n - 1, by omega⟩
    exact ht.read hw
  | @comment w c u ts hw hc _ ih =>
    intro n hn t ht
    obtain ⟨n, rfl⟩ : ∃ m, n = m + 1 := ⟨n - 1, by omega⟩
    simp only [List.length_append, List.length_cons] at hn
    have hskip : skipSpace (w ++ '<' :: '!' :: '-' :: '-' :: (c ++ '-' :: '-' :: '>' :: u) ++ t) =
        '<' :: '!' :: '-' :: '-' :: (c ++ '-' :: '-' :: '>' :: (u ++ t)) := by
      simpa using skipSpace_append_cons hw (by decide) _
    rw [readMisc, hskip]
    simp only [readComment_eq_some_iff.2 ⟨hc, rfl⟩, ih n (by omega) t ht, Option.bind_eq_bind,
      Option.bind_some]
    rfl
  | @instruction w target d u ts hw hd _ ih =>
    intro n hn t ht
    obtain ⟨n, rfl⟩ : ∃ m, n = m + 1 := ⟨n - 1, by omega⟩
    simp only [List.length_append, List.length_cons] at hn
    have hskip : skipSpace (w ++ '<' :: '?' :: (target ++ (d ++ '?' :: '>' :: u)) ++ t) =
        '<' :: '?' :: (target ++ (d ++ '?' :: '>' :: (u ++ t))) := by
      simpa using skipSpace_append_cons hw (by decide) _
    rw [readMisc, hskip]
    simp only [readInstruction_eq_some_iff.2 ⟨target, d, hd, rfl, rfl⟩, ih n (by omega) t ht,
      Option.bind_eq_bind, Option.bind_some]
    rfl

theorem misc_of_readMisc {ts : List Tree} (h : readMisc fuel s = some (ts, rest)) :
    ∃ u, Misc u ts ∧ s = u ++ rest ∧ StopsMisc rest := by
  induction fuel generalizing s ts with
  | zero => cases h
  | succ fuel ih =>
    rw [readMisc] at h
    split at h
    case h_1 t hskip =>
      simp only [Option.bind_eq_bind, Option.bind_eq_some_iff] at h
      obtain ⟨⟨c, t'⟩, hread, ⟨more, t''⟩, hmore, h⟩ := h
      obtain ⟨rfl, rfl⟩ := Prod.mk.inj (Option.some.inj h)
      obtain ⟨hc, rfl⟩ := readComment_eq_some_iff.1 hread
      obtain ⟨w, rfl, hw, -⟩ := skipSpace_eq_cons hskip
      obtain ⟨u, hu, rfl, hstops⟩ := ih hmore
      exact ⟨_, .comment hw hc hu, by simp, hstops⟩
    case h_2 t hskip =>
      simp only [Option.bind_eq_bind, Option.bind_eq_some_iff] at h
      obtain ⟨⟨n, t'⟩, hread, ⟨more, t''⟩, hmore, h⟩ := h
      obtain ⟨rfl, rfl⟩ := Prod.mk.inj (Option.some.inj h)
      obtain ⟨target, d, hd, rfl, rfl⟩ := readInstruction_eq_some_iff.1 hread
      obtain ⟨w, rfl, hw, -⟩ := skipSpace_eq_cons hskip
      obtain ⟨u, hu, rfl, hstops⟩ := ih hmore
      exact ⟨_, .instruction hw hd hu, by simp, hstops⟩
    case h_3 hcomment hinstruction =>
      obtain ⟨rfl, rfl⟩ := Prod.mk.inj (Option.some.inj h)
      refine ⟨_, .blanks List.all_takeWhile, List.takeWhile_append_dropWhile.symm, ?_, ?_, ?_⟩
      · cases hskip : skipSpace s with
        | nil => rfl
        | cons c t =>
          obtain ⟨_, _, _, hc⟩ := skipSpace_eq_cons hskip
          exact hc
      · rintro ⟨t, ht⟩
        exact hcomment t ht.symm
      · rintro ⟨t, ht⟩
        exact hinstruction t ht.symm

end DeckMerge.Xml
