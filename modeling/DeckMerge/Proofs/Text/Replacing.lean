import DeckMerge.Proofs.Text.Occurrence
import DeckMerge.Proofs.Text.Forms

/-!
Replacing every occurrence of a needle, as a walk over the text from the left. Where no occurrence
reaches over a seam, the texts on both sides are replaced apart.
-/

namespace DeckMerge.Text

variable {needle value s t a b : Text} {c : Char}

theorem replace_nil (hne : needle ≠ []) (value : Text) : replace needle value [] = [] := by
  rw [replace, splitOn_of_breakOn?_eq_none (breakOn?_nil hne), joinWith]

theorem replace_append_needle (hne : needle ≠ []) (value s : Text) :
    replace needle value (needle ++ s) = value ++ replace needle value s := by
  have hlt : s.length < (needle ++ s).length := by
    have := List.length_pos_iff.2 hne
    rw [List.length_append]
    omega
  rw [replace, splitOn_of_breakOn?_eq_some (breakOn?_of_isPrefix hne s) hlt,
    joinWith_cons_of_ne_nil (splitOn_ne_nil _ _), List.nil_append, replace]

theorem replace_cons (hne : needle ≠ []) (h : ¬ needle <+: c :: s) (value : Text) :
    replace needle value (c :: s) = c :: replace needle value s := by
  cases hb : breakOn? needle s with
  | none =>
    have hc : breakOn? needle (c :: s) = none := by rw [breakOn?_cons_of_not_isPrefix h, hb]; rfl
    rw [replace, replace, splitOn_of_breakOn?_eq_none hb, splitOn_of_breakOn?_eq_none hc]
    rfl
  | some x =>
    obtain ⟨before, rest⟩ := x
    have hc : breakOn? needle (c :: s) = some (c :: before, rest) := by
      rw [breakOn?_cons_of_not_isPrefix h, hb]
      rfl
    have hlt := (first_of_breakOn? hne hb).length_lt hne
    rw [replace, replace, splitOn_of_breakOn?_eq_some hb hlt,
      splitOn_of_breakOn?_eq_some hc (by rw [List.length_cons]; omega),
      joinWith_cons_of_ne_nil (splitOn_ne_nil _ _), joinWith_cons_of_ne_nil (splitOn_ne_nil _ _)]
    rfl

/-- A text is empty, begins with the needle, or begins with a character that is left. -/
theorem replace_induction {P : Text → Prop} (needle : Text) (hne : needle ≠ []) (nil : P [])
    (found : ∀ s, P s → P (needle ++ s)) (cons : ∀ c s, ¬ needle <+: c :: s → P s → P (c :: s))
    (s : Text) : P s := by
  induction hn : s.length using Nat.strongRecOn generalizing s with
  | ind n ih =>
    by_cases h : needle <+: s
    · obtain ⟨rest, rfl⟩ := h
      have hlength := List.length_pos_iff.2 hne
      rw [List.length_append] at hn
      exact found rest (ih rest.length (by omega) rest rfl)
    · cases s with
      | nil => exact nil
      | cons c s =>
        rw [List.length_cons] at hn
        exact cons c s h (ih s.length (by omega) s rfl)

theorem replace_of_not_isInfix (hne : needle ≠ []) (h : ¬ needle <:+: s) (value : Text) :
    replace needle value s = s := by
  rw [replace, splitOn_of_breakOn?_eq_none ((breakOn?_eq_none_iff hne).2 h), joinWith]

theorem replace_self (hne : needle ≠ []) (s : Text) : replace needle needle s = s := by
  induction s using replace_induction needle hne with
  | nil => exact replace_nil hne _
  | found s ih => rw [replace_append_needle hne, ih]
  | cons c s h ih => rw [replace_cons hne h, ih]

/-- No occurrence of the needle reaches over the seam of two texts. -/
def Seamless (needle a b : Text) : Prop :=
  ∀ l r, needle = l ++ r → l ≠ [] → r ≠ [] → l <:+ a → ¬ r <+: b

theorem replace_append (hne : needle ≠ []) (value : Text) (h : Seamless needle a b) :
    replace needle value (a ++ b) = replace needle value a ++ replace needle value b := by
  induction a using replace_induction needle hne with
  | nil => rw [replace_nil hne, List.nil_append, List.nil_append]
  | found a ih =>
    have ha : Seamless needle a b := fun l r heq hl hr hs =>
      h l r heq hl hr (hs.trans (List.suffix_append _ _))
    rw [List.append_assoc, replace_append_needle hne, replace_append_needle hne, ih ha,
      List.append_assoc]
  | cons c a hc ih =>
    have ha : Seamless needle a b := fun l r heq hl hr hs =>
      h l r heq hl hr (hs.trans (List.suffix_cons _ _))
    have hcb : ¬ needle <+: c :: (a ++ b) := by
      rintro ⟨t, ht⟩
      rcases append_cases (show needle ++ t = (c :: a) ++ b from ht) with ⟨w, hw, -⟩ | ⟨w, hw, hneedle, hb⟩
      · exact hc ⟨w, hw.symm⟩
      · exact h (c :: a) w hneedle (List.cons_ne_nil _ _) hw (List.suffix_refl _) ⟨t, hb.symm⟩
    rw [List.cons_append, replace_cons hne hcb, ih ha, replace_cons hne hc, List.cons_append]

theorem seamless_of_head (h : ∀ c ∈ b.head?, c ∉ needle) : Seamless needle a b := by
  rintro l r rfl - hr - ⟨t, rfl⟩
  cases r with
  | nil => exact hr rfl
  | cons c r => exact h c (by simp) (by simp)

theorem seamless_of_last (h : ∀ c ∈ a.getLast?, c ∉ needle) : Seamless needle a b := by
  rintro l r rfl hl - ⟨t, rfl⟩ -
  have hlast : (t ++ l).getLast? = some (l.getLast hl) := by
    rw [List.getLast?_append, List.getLast?_eq_some_getLast hl, Option.some_or]
  exact h _ hlast (List.mem_append_left _ (List.getLast_mem hl))

/-- Markup that does not hold the needle is left as it is. -/
theorem replace_append_left (hne : needle ≠ []) (hin : ¬ needle <:+: a)
    (hlast : ∀ c ∈ a.getLast?, c ∉ needle) (value b : Text) :
    replace needle value (a ++ b) = a ++ replace needle value b := by
  rw [replace_append hne value (seamless_of_last hlast), replace_of_not_isInfix hne hin]

/-! ### Ends of lines -/

theorem withLineFeeds_nil : withLineFeeds [] = [] := rfl

theorem withLineFeeds_pair (s : Text) : withLineFeeds ('\r' :: '\n' :: s) = '\n' :: withLineFeeds s := rfl

theorem withLineFeeds_cons (hc : c ≠ '\r') (s : Text) :
    withLineFeeds (c :: s) = c :: withLineFeeds s :=
  withLineFeeds.eq_3 _ _ (fun _ h _ => hc h) hc

theorem withLineFeeds_return (hs : s.head? ≠ some '\n') :
    withLineFeeds ('\r' :: s) = '\n' :: withLineFeeds s := by
  rw [withLineFeeds.eq_2]
  rintro t rfl
  exact hs rfl

theorem withLineFeeds_append {x : Text} (hx : '\r' ∉ x) (s : Text) :
    withLineFeeds (x ++ s) = x ++ withLineFeeds s := by
  induction x with
  | nil => rfl
  | cons c x ih =>
    rw [List.mem_cons, not_or] at hx
    rw [List.cons_append, withLineFeeds_cons (Ne.symm hx.1), ih hx.2, List.cons_append]

/-- A text in which no carriage return is followed by this one. -/
theorem withLineFeeds_append_cons (hc : c ≠ '\n') (x s : Text) :
    withLineFeeds (x ++ c :: s) = withLineFeeds x ++ withLineFeeds (c :: s) := by
  fun_induction withLineFeeds x with
  | case1 x ih => simp [withLineFeeds_pair, ih]
  | case2 x hx ih =>
    rw [List.cons_append, withLineFeeds_return, ih, List.cons_append]
    cases x with
    | nil => simpa using hc
    | cons d x =>
      rintro ⟨⟩
      exact hx x rfl
  | case3 d x _ hd ih => rw [List.cons_append, withLineFeeds_cons hd, ih, List.cons_append]
  | case4 => rfl

/-- Ends of lines between two texts that have none. -/
theorem withLineFeeds_between {x y : Text} (hx : '\r' ∉ x) (hc : c ≠ '\n') (hy : '\r' ∉ c :: y) (t s : Text) :
    withLineFeeds (x ++ (t ++ (c :: y ++ s))) = x ++ (withLineFeeds t ++ (c :: y ++ withLineFeeds s)) := by
  rw [withLineFeeds_append hx, List.cons_append, withLineFeeds_append_cons hc, ← List.cons_append,
    withLineFeeds_append hy]

/-- Text in which no line ends. -/
def OneLine (x : Text) : Prop := ∀ c ∈ x, c ≠ '\r' ∧ c ≠ '\n'

instance (x : Text) : Decidable (OneLine x) :=
  List.decidableBAll (fun c : Char => c ≠ '\r' ∧ c ≠ '\n') x

theorem OneLine.withLineFeeds_append {x : Text} (hx : OneLine x) (s : Text) :
    withLineFeeds (x ++ s) = x ++ withLineFeeds s :=
  Text.withLineFeeds_append (fun hmem => (hx _ hmem).1 rfl) s

theorem OneLine.isPrefix_withLineFeeds_iff {x : Text} (hx : OneLine x) :
    x <+: withLineFeeds s ↔ x <+: s := by
  induction x generalizing s with
  | nil => simp
  | cons c x ih =>
    obtain ⟨hc, hx⟩ := List.forall_mem_cons.1 hx
    cases s with
    | nil => rfl
    | cons d s =>
      by_cases hd : d = '\r'
      · subst hd
        have hfeed : ∃ t, withLineFeeds ('\r' :: s) = '\n' :: t := by
          by_cases hs : s.head? = some '\n'
          · cases s with
            | nil => cases hs
            | cons e s =>
              obtain rfl : e = '\n' := by simpa using hs
              exact ⟨_, withLineFeeds_pair s⟩
          · exact ⟨_, withLineFeeds_return hs⟩
        obtain ⟨t, ht⟩ := hfeed
        simp [ht, List.cons_prefix_cons, hc.1, hc.2]
      · rw [withLineFeeds_cons hd, List.cons_prefix_cons, List.cons_prefix_cons, ih hx]

theorem OneLine.isInfix_of_withLineFeeds {x : Text} (hx : OneLine x) (h : x <:+: withLineFeeds s) :
    x <:+: s := by
  induction hn : s.length using Nat.strongRecOn generalizing s with
  | ind n ih =>
    rcases hw : withLineFeeds s with _ | ⟨c, t⟩
    · rw [hw, List.infix_nil] at h
      rw [h]
      exact List.nil_infix
    rw [hw, List.infix_cons_iff, ← hw, hx.isPrefix_withLineFeeds_iff] at h
    rcases h with h | h
    · exact h.isInfix
    · have htail : ∃ r, withLineFeeds r = t ∧ r <:+ s ∧ r.length < s.length := by
        unfold withLineFeeds at hw
        split at hw
        case h_1 r => exact ⟨r, (List.cons.inj hw).2, ⟨['\r', '\n'], rfl⟩, by simp only [List.length_cons]; omega⟩
        case h_2 r _ => exact ⟨r, (List.cons.inj hw).2, ⟨['\r'], rfl⟩, by simp⟩
        case h_3 d r _ _ => exact ⟨r, (List.cons.inj hw).2, ⟨[d], rfl⟩, by simp⟩
        case h_4 => cases hw
      obtain ⟨r, rfl, hr, hlength⟩ := htail
      exact (ih r.length (hn ▸ hlength) h rfl).trans hr.isInfix

/-- Values of one line go in before or after the ends of lines are made alike. Only a carriage return
before the needle could meet a line feed behind it, if the value is empty. -/
theorem withLineFeeds_replace {x : Text} (hne : needle ≠ []) (hneedle : OneLine needle)
    (hx : OneLine x) (hs : x = [] → ¬ '\r' :: needle <:+: s) :
    withLineFeeds (replace needle x s) = replace needle x (withLineFeeds s) := by
  induction hn : s.length using Nat.strongRecOn generalizing s with
  | ind n ih =>
    by_cases h : needle <+: s
    · obtain ⟨rest, rfl⟩ := h
      have hlength := List.length_pos_iff.2 hne
      rw [List.length_append] at hn
      have hrest : x = [] → ¬ '\r' :: needle <:+: rest := fun hnil hin =>
        hs hnil (hin.trans (List.suffix_append _ _).isInfix)
      rw [replace_append_needle hne, hx.withLineFeeds_append, hneedle.withLineFeeds_append,
        replace_append_needle hne, ih rest.length (by omega) hrest rfl]
    · cases s with
      | nil => rw [replace_nil hne, withLineFeeds_nil, replace_nil hne]
      | cons c s =>
        rw [List.length_cons] at hn
        have htail : x = [] → ¬ '\r' :: needle <:+: s := fun hnil hin =>
          hs hnil (hin.trans (List.suffix_cons _ _).isInfix)
        have hfeed : ∀ t, ¬ needle <+: '\n' :: t := by
          intro t hprefix
          cases needle with
          | nil => exact hne rfl
          | cons d needle =>
            rw [List.cons_prefix_cons] at hprefix
            exact (hneedle d List.mem_cons_self).2 hprefix.1
        by_cases hc : c = '\r'
        · subst hc
          by_cases hhead : s.head? = some '\n'
          · cases s with
            | nil => cases hhead
            | cons e s =>
              obtain rfl : e = '\n' := by simpa using hhead
              rw [List.length_cons] at hn
              have hrest : x = [] → ¬ '\r' :: needle <:+: s := fun hnil hin =>
                htail hnil (hin.trans (List.suffix_cons _ _).isInfix)
              rw [replace_cons hne h, replace_cons hne (hfeed s), withLineFeeds_pair,
                withLineFeeds_pair, replace_cons hne (hfeed _), ih s.length (by omega) hrest rfl]
          · have hreplaced : (replace needle x s).head? ≠ some '\n' := by
              by_cases hprefix : needle <+: s
              · obtain ⟨rest, rfl⟩ := hprefix
                rw [replace_append_needle hne]
                cases x with
                | nil => exact absurd ⟨[], rest, rfl⟩ (hs rfl)
                | cons d x => simpa using (hx d List.mem_cons_self).2
              · cases s with
                | nil => simp [replace_nil hne]
                | cons d s =>
                  rw [replace_cons hne hprefix]
                  simpa using hhead
            rw [replace_cons hne h, withLineFeeds_return hreplaced, withLineFeeds_return hhead,
              replace_cons hne (hfeed _), ih s.length (by omega) htail rfl]
        · have hprefix : ¬ needle <+: c :: withLineFeeds s := by
            rwa [← withLineFeeds_cons hc, hneedle.isPrefix_withLineFeeds_iff]
          rw [replace_cons hne h, withLineFeeds_cons hc, withLineFeeds_cons hc,
            replace_cons hne hprefix, ih s.length (by omega) htail rfl]

end DeckMerge.Text
