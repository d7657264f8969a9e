import DeckMerge.Proofs.Placeholder.Token

/-!
Deleting the tokens of a text. No stretch between two tokens holds another one, but joining the
stretches can make one: `hasTokens_strip_iff` says exactly when.
-/

namespace DeckMerge.Placeholder

variable {s : Text} {t : Token} {c : Char}

/-- The stretches of a text before, between and behind its tokens. -/
def stretches (s : Text) : List Text :=
  (Token.read?.findAll s).1.map (·.1) ++ [(Token.read?.findAll s).2]

theorem strip_fst (s : Text) : (strip s).1 = (stretches s).flatten := by
  simp [strip, stretches, List.flatMap_def]

@[simp] theorem stretches_nil : stretches [] = [[]] := by
  simp [stretches, Recogniser.findAll_nil Token.read?_advances]

@[simp] theorem strip_nil : strip [] = ([], 0) := by
  simp [strip, Recogniser.findAll_nil Token.read?_advances]

theorem findAll_of_not_hasTokens (h : ¬ hasTokens s) : Token.read?.findAll s = ([], s) := by
  have hnone : Token.read?.find? s = none := by simpa [hasTokens] using h
  rw [Recogniser.findAll, hnone]

theorem strip_of_not_hasTokens (h : ¬ hasTokens s) : strip s = (s, 0) := by
  simp [strip, findAll_of_not_hasTokens h]

theorem findAll_token (h : t.Valid) (s : Text) : Token.read?.findAll (t.text ++ s) =
    (([], t) :: (Token.read?.findAll s).1, (Token.read?.findAll s).2) :=
  Recogniser.findAll_of_read Token.read?_advances (Token.read?_text h s)

@[simp] theorem stretches_token (h : t.Valid) (s : Text) :
    stretches (t.text ++ s) = [] :: stretches s := by
  simp [stretches, findAll_token h]

@[simp] theorem strip_token (h : t.Valid) (s : Text) :
    strip (t.text ++ s) = ((strip s).1, (strip s).2 + 1) := by
  simp [strip, findAll_token h]

theorem stretches_cons (h : Token.read? (c :: s) = none) :
    stretches (c :: s) = (stretches s).modifyHead (c :: ·) := by
  rw [stretches, Recogniser.findAll_cons Token.read?_advances h, stretches]
  generalize Token.read?.findAll s = r
  obtain ⟨found, tail⟩ := r
  cases found with
  | nil => rfl
  | cons => rfl

theorem strip_cons (h : Token.read? (c :: s) = none) :
    strip (c :: s) = (c :: (strip s).1, (strip s).2) := by
  rw [strip, Recogniser.findAll_cons Token.read?_advances h, strip]
  generalize Token.read?.findAll s = r
  obtain ⟨found, tail⟩ := r
  cases found with
  | nil => rfl
  | cons => rfl

/-! ### Across characters of no token -/

theorem read?_cons_eq_none (hc : c ≠ '\x7b') (s : Text) : Token.read? (c :: s) = none := by
  rw [← Option.not_isSome_iff_eq_none, Token.read?_isSome_iff]
  rintro ⟨t, -, hp⟩
  obtain ⟨w, hw⟩ := t.text_cons
  rw [hw] at hp
  exact hc (List.cons_prefix_cons.1 hp).1.symm

theorem strip_of_notMem (h : '\x7b' ∉ s) : strip s = (s, 0) := by
  induction s with
  | nil => simp
  | cons c s ih =>
    have hc : c ≠ '\x7b' := fun hc => h (by simp [hc])
    rw [strip_cons (read?_cons_eq_none hc s), ih (fun hs => h (List.mem_cons_of_mem c hs))]

/-- A character that no token holds parts the tokens before it from those behind. -/
theorem strip_append_cons (hc : ¬ isTokenChar c) (s s' : Text) :
    strip (s ++ c :: s') = ((strip s).1 ++ c :: (strip s').1, (strip s).2 + (strip s').2) := by
  induction s using Token.frontInduction with
  | nil =>
    have hb : c ≠ '\x7b' := fun hb => hc (by rw [hb]; decide)
    simp [strip_cons (read?_cons_eq_none hb s')]
  | token t s hv ih =>
    rw [List.append_assoc, strip_token hv, strip_token hv, ih]
    simp only [Prod.mk.injEq, true_and]
    omega
  | char d s h ih =>
    have h' : Token.read? (d :: (s ++ c :: s')) = none := Token.read?_append_eq_none hc h s'
    rw [strip_cons h, List.cons_append, strip_cons h', ih]
    rfl

/-! ### What is left -/

theorem stretches_prefix (s : Text) : ∃ l ls, stretches s = l :: ls ∧ l <+: s := by
  induction s using Token.frontInduction with
  | nil => exact ⟨[], [], by simp⟩
  | token t s hv ih => exact ⟨[], stretches s, stretches_token hv s, List.nil_prefix⟩
  | char c s h ih =>
    obtain ⟨l, ls, hl, hp⟩ := ih
    exact ⟨c :: l, ls, by simp [stretches_cons h, hl], List.cons_prefix_cons.2 ⟨rfl, hp⟩⟩

@[simp] theorem hasTokens_nil : ¬ hasTokens [] := by
  rw [hasTokens_iff]
  rintro ⟨t, -, ht⟩
  exact t.text_ne_nil (List.infix_nil.1 ht)

theorem not_hasTokens_of_mem_stretches {l : Text} (h : l ∈ stretches s) : ¬ hasTokens l := by
  induction s using Token.frontInduction generalizing l with
  | nil => simp_all
  | token t s hv ih =>
    rw [stretches_token hv] at h
    rcases List.mem_cons.1 h with rfl | h
    · exact hasTokens_nil
    · exact ih h
  | char c s hr ih =>
    obtain ⟨l', ls, hl, hp⟩ := stretches_prefix s
    rw [stretches_cons hr, hl] at h
    rcases List.mem_cons.1 h with rfl | h
    · have hl' : ¬ hasTokens l' := ih (by simp [hl])
      rw [hasTokens_iff] at hl' ⊢
      rintro ⟨t, hv, ht⟩
      rcases List.infix_cons_iff.1 ht with ht | ht
      · -- a token at the front of this stretch would stand at the front of the text
        have hs : (Token.read? (c :: s)).isSome :=
          Token.read?_isSome_iff.2 ⟨t, hv, ht.trans (List.cons_prefix_cons.2 ⟨rfl, hp⟩)⟩
        simp [hr] at hs
      · exact hl' ⟨t, hv, ht⟩
    · exact ih (by simp [hl, h])

/-- Joining the stretches makes a token out of the end of some and the beginning of the next. -/
def Rejoins (ls : List Text) : Prop :=
  ∃ before after l r, ∃ t : Token, ls = before ++ after ∧ t.Valid ∧ t.text = l ++ r ∧ l ≠ [] ∧ r ≠ [] ∧
    l <:+ before.flatten ∧ r <+: after.flatten

theorem Rejoins.hasTokens {ls : List Text} (h : Rejoins ls) : hasTokens ls.flatten := by
  obtain ⟨before, after, l, r, t, rfl, hv, ht, -, -, ⟨x, hx⟩, ⟨y, hy⟩⟩ := h
  refine hasTokens_iff.2 ⟨t, hv, x, y, ?_⟩
  simp [List.flatten_append, ← hx, ← hy, ht]

theorem Rejoins.cons {ls : List Text} (h : Rejoins ls) (piece : Text) : Rejoins (piece :: ls) := by
  obtain ⟨before, after, l, r, t, rfl, hv, ht, hl, hr, hbefore, hafter⟩ := h
  refine ⟨piece :: before, after, l, r, t, rfl, hv, ht, hl, hr, ?_, hafter⟩
  exact hbefore.trans (List.suffix_append piece _)

theorem rejoins_of_hasTokens_flatten {ls : List Text} (h : hasTokens ls.flatten)
    (hls : ∀ l ∈ ls, ¬ hasTokens l) : Rejoins ls := by
  induction ls with
  | nil => exact absurd h hasTokens_nil
  | cons piece ls ih =>
    obtain ⟨t, hv, ht⟩ := hasTokens_iff.1 h
    rw [List.flatten_cons, List.infix_append_iff_ne_nil] at ht
    rcases ht with ht | ht | ⟨l, r, hl, hr, heq, hsuffix, hprefix⟩
    · exact absurd (hasTokens_iff.2 ⟨t, hv, ht⟩) (hls piece (by simp))
    · exact (ih (hasTokens_iff.2 ⟨t, hv, ht⟩) fun l hl => hls l (by simp [hl])).cons piece
    · exact ⟨[piece], ls, l, r, t, rfl, hv, heq, hl, hr, by simpa using hsuffix, hprefix⟩

theorem hasTokens_strip_iff (s : Text) : hasTokens (strip s).1 ↔ Rejoins (stretches s) := by
  rw [strip_fst]
  exact ⟨fun h => rejoins_of_hasTokens_flatten h fun _ hl => not_hasTokens_of_mem_stretches hl,
    Rejoins.hasTokens⟩

end DeckMerge.Placeholder
