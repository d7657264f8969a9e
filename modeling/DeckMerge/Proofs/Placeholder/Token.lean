import DeckMerge.Placeholder.Token
import DeckMerge.Proofs.Text.Search
import Mathlib.Data.List.TakeDrop
import Mathlib.Data.List.TakeWhile

/-!
What reads as a token. A token has one written form, which starts with a brace and holds nothing but
key characters and marks, so what follows a text cannot change the tokens in it.
-/

namespace DeckMerge.Placeholder

/-- The characters of written tokens. -/
def isTokenChar (c : Char) : Bool := isKeyChar c || c ∈ "\x7b\x7d?#/".toList

namespace Kind

theorem opening_cons (k : Kind) : ∃ w, k.opening = '\x7b' :: w := by
  cases k <;> exact ⟨_, rfl⟩

theorem closing_cons (k : Kind) : ∃ w, k.closing = '\x7d' :: w := by
  cases k <;> exact ⟨_, rfl⟩

theorem isTokenChar_of_mem_opening {k : Kind} {c : Char} (h : c ∈ k.opening) : isTokenChar c := by
  have hall : k.opening.all isTokenChar := by cases k <;> decide
  exact List.all_eq_true.1 hall c h

theorem isTokenChar_of_mem_closing {k : Kind} {c : Char} (h : c ∈ k.closing) : isTokenChar c := by
  have hall : k.closing.all isTokenChar := by cases k <;> decide
  exact List.all_eq_true.1 hall c h

theorem mem_all (k : Kind) : k ∈ all := by cases k <;> decide

end Kind

namespace Token

variable {s rest rest' : Text} {t t' : Token}

theorem Valid.key_cons (h : t.Valid) : ∃ c w, t.key = c :: w ∧ isKeyChar c := by
  obtain ⟨hne, hkey⟩ := h
  cases hk : t.key with
  | nil => exact absurd hk hne
  | cons c w => exact ⟨c, w, rfl, hkey c (by simp [hk])⟩

theorem text_cons (t : Token) : ∃ w, t.text = '\x7b' :: w := by
  obtain ⟨w, hw⟩ := t.kind.opening_cons
  exact ⟨w ++ t.key ++ t.kind.closing, by simp [text, hw]⟩

theorem text_ne_nil (t : Token) : t.text ≠ [] := by
  obtain ⟨w, hw⟩ := t.text_cons
  simp [hw]

theorem isTokenChar_of_mem_text (h : t.Valid) {c : Char} (hc : c ∈ t.text) : isTokenChar c := by
  simp only [text, List.mem_append] at hc
  rcases hc with (hc | hc) | hc
  · exact Kind.isTokenChar_of_mem_opening hc
  · simp [isTokenChar, h.2 c hc]
  · exact Kind.isTokenChar_of_mem_closing hc

/-- A key ends where its closing mark starts, since a brace is no key character. -/
theorem span_key {k : Kind} {key : Text} (h : ∀ c ∈ key, isKeyChar c) (rest : Text) :
    (key ++ (k.closing ++ rest)).span isKeyChar = (key, k.closing ++ rest) := by
  obtain ⟨w, hw⟩ := k.closing_cons
  have hb : isKeyChar '\x7d' = false := by decide
  rw [List.span_eq_takeWhile_dropWhile, List.takeWhile_append_of_pos h,
    List.dropWhile_append_of_pos h]
  simp [hw, hb]

theorem readAs?_eq_some_iff {k : Kind} :
    readAs? k s = some (t, rest) ↔ t.kind = k ∧ t.Valid ∧ s = t.text ++ rest := by
  constructor
  · intro h
    simp only [readAs?, Option.bind_eq_bind, Option.bind_eq_some_iff,
      List.isPrefixOf?_eq_some_iff_append_eq, List.span_eq_takeWhile_dropWhile] at h
    obtain ⟨body, rfl, h⟩ := h
    split at h
    · simp at h
    · rename_i hne
      simp only [Option.bind_eq_some_iff,
        List.isPrefixOf?_eq_some_iff_append_eq, Option.pure_def, Option.some.injEq,
        Prod.mk.injEq] at h
      obtain ⟨tail, htail, rfl, rfl⟩ := h
      refine ⟨rfl, ⟨hne, fun c hc => List.mem_takeWhile_imp hc⟩, ?_⟩
      simp only [text, List.append_assoc, htail, List.takeWhile_append_dropWhile]
  · rintro ⟨rfl, ⟨hne, hkey⟩, rfl⟩
    have ho : t.kind.opening.isPrefixOf? (t.text ++ rest) =
        some (t.key ++ (t.kind.closing ++ rest)) :=
      List.isPrefixOf?_eq_some_iff_append_eq.2 (by simp [text])
    have hc : t.kind.closing.isPrefixOf? (t.kind.closing ++ rest) = some rest :=
      List.isPrefixOf?_eq_some_iff_append_eq.2 rfl
    simp only [readAs?, Option.bind_eq_bind, ho, Option.bind_some, span_key hkey, if_neg hne, hc]
    rfl

/-- No text starts with two tokens. -/
theorem text_append_inj (h : t.Valid) (h' : t'.Valid) (heq : t.text ++ rest = t'.text ++ rest') :
    t = t' ∧ rest = rest' := by
  obtain ⟨c, w, hk, hc⟩ := h.key_cons
  obtain ⟨c', w', hk', hc'⟩ := h'.key_cons
  have hmark : isKeyChar '?' = false := by decide
  have hkind : t.kind = t'.kind := by
    simp only [text, hk, hk'] at heq
    cases hkd : t.kind <;> cases hkd' : t'.kind <;> simp [hkd, hkd', Kind.opening] at heq ⊢
    all_goals
      obtain ⟨rfl, -⟩ := heq
      simp [hmark] at hc hc'
  have hkey : t.key ++ (t.kind.closing ++ rest) = t'.key ++ (t.kind.closing ++ rest') := by
    simpa [text, hkind] using heq
  have hspan := congrArg (List.span isKeyChar) hkey
  rw [span_key h.2, span_key h'.2] at hspan
  obtain ⟨hkeys, hrest⟩ := Prod.mk.inj hspan
  refine ⟨?_, List.append_cancel_left hrest⟩
  cases t
  cases t'
  simp_all

theorem read?_eq_some_iff : read? s = some (t, rest) ↔ t.Valid ∧ s = t.text ++ rest := by
  constructor
  · intro h
    obtain ⟨k, -, hk⟩ := List.exists_of_findSome?_eq_some h
    exact (readAs?_eq_some_iff.1 hk).2
  · rintro ⟨hv, rfl⟩
    have hr : readAs? t.kind (t.text ++ rest) = some (t, rest) := readAs?_eq_some_iff.2 ⟨rfl, hv, rfl⟩
    have hsome : (read? (t.text ++ rest)).isSome :=
      List.findSome?_isSome_iff.2 ⟨t.kind, t.kind.mem_all, by rw [hr]; rfl⟩
    obtain ⟨⟨t', rest'⟩, h⟩ := Option.isSome_iff_exists.1 hsome
    obtain ⟨k, -, hk⟩ := List.exists_of_findSome?_eq_some h
    obtain ⟨-, hv', heq⟩ := readAs?_eq_some_iff.1 hk
    obtain ⟨rfl, rfl⟩ := text_append_inj hv hv' heq
    exact h

theorem read?_text (h : t.Valid) (s : Text) : read? (t.text ++ s) = some (t, s) :=
  read?_eq_some_iff.2 ⟨h, rfl⟩

theorem read?_advances : read?.Advances := by
  intro s t rest h
  obtain ⟨-, rfl⟩ := read?_eq_some_iff.1 h
  have := List.length_pos_iff.2 t.text_ne_nil
  simp only [List.length_append]
  omega

theorem read?_isSome_iff : (read? s).isSome ↔ ∃ t : Token, t.Valid ∧ t.text <+: s := by
  constructor
  · intro h
    obtain ⟨⟨t, rest⟩, h⟩ := Option.isSome_iff_exists.1 h
    obtain ⟨hv, rfl⟩ := read?_eq_some_iff.1 h
    exact ⟨t, hv, List.prefix_append _ _⟩
  · rintro ⟨t, hv, rest, rfl⟩
    simp [read?_text hv]

/-- A text that does not start with a token still does not when a character that no token holds
follows it. -/
theorem read?_append_eq_none {c : Char} (hc : ¬ isTokenChar c) (h : read? s = none) (s' : Text) :
    read? (s ++ c :: s') = none := by
  rw [← Option.not_isSome_iff_eq_none, read?_isSome_iff] at h ⊢
  rintro ⟨t, hv, hp⟩
  apply h
  refine ⟨t, hv, ?_⟩
  obtain ⟨rest, heq⟩ := hp
  rcases List.append_eq_append_iff.1 heq with ⟨w, rfl, -⟩ | ⟨w, hw, hrest⟩
  · exact List.prefix_append _ _
  · cases w with
    | nil => simp [hw]
    | cons d w =>
      obtain ⟨rfl, -⟩ := List.cons.inj hrest
      exact absurd (isTokenChar_of_mem_text hv (by simp [hw])) hc

/-- Texts by what stands at their front: a token, or a character that begins none. -/
@[elab_as_elim] theorem frontInduction {P : Text → Prop} (nil : P [])
    (token : ∀ (t : Token) s, t.Valid → P s → P (t.text ++ s))
    (char : ∀ c s, read? (c :: s) = none → P s → P (c :: s)) (s : Text) : P s := by
  induction hn : s.length using Nat.strongRecOn generalizing s with
  | ind n ih =>
    cases s with
    | nil => exact nil
    | cons c s =>
      cases h : read? (c :: s) with
      | none => exact char c s h (ih s.length (by simp [← hn]) s rfl)
      | some x =>
        have hlt := read?_advances _ _ _ h
        obtain ⟨hv, heq⟩ := read?_eq_some_iff.1 h
        rw [heq]
        exact token _ _ hv (ih _ (hn ▸ hlt) _ rfl)

end Token

theorem hasTokens_iff {s : Text} : hasTokens s ↔ ∃ t : Token, t.Valid ∧ t.text <:+: s := by
  rw [hasTokens, Recogniser.find?_isSome_iff Token.read?_advances]
  constructor
  · rintro ⟨u, hu, h⟩
    obtain ⟨t, hv, hp⟩ := Token.read?_isSome_iff.1 h
    exact ⟨t, hv, hp.isInfix.trans hu.isInfix⟩
  · rintro ⟨t, hv, u, rest, rfl⟩
    exact ⟨t.text ++ rest, ⟨u, by simp⟩, Token.read?_isSome_iff.2 ⟨t, hv, List.prefix_append _ _⟩⟩

theorem hasTokens_mono {s s' : Text} (hs : hasTokens s) (h : s <:+: s') : hasTokens s' := by
  obtain ⟨t, ht, htext⟩ := hasTokens_iff.1 hs
  exact hasTokens_iff.2 ⟨t, ht, htext.trans h⟩

end DeckMerge.Placeholder
