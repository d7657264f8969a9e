import DeckMerge.Proofs.Placeholder.Tree
import DeckMerge.Proofs.Text.Forms

/-!
Where tokens stand. No token begins inside another, so the scan of a text finds every one.
-/

namespace DeckMerge.Placeholder

variable {s x y u v : Text} {t t' : Token} {found : List (Text × Token)} {tail : Text} {p : Nat × Nat}

namespace Token

/-- Behind its first two marks a token has no opening brace, and behind two opening braces a key. -/
theorem Valid.text_marks (h : t.Valid) : ∃ m w, t.text = '\x7b' :: m :: w ∧ isKeyChar m = false ∧
    '\x7b' ∉ w ∧ (m = '\x7b' → ∃ c w', w = c :: w' ∧ isKeyChar c) := by
  obtain ⟨k, key⟩ := t
  obtain ⟨c, key', rfl, hc⟩ := h.key_cons
  have hkey : '\x7b' ∉ c :: key' := fun hmem => absurd (h.2 _ hmem) (by decide)
  cases k with
  | scalar =>
    refine ⟨'\x7b', c :: key' ++ ['\x7d', '\x7d'], rfl, by decide, ?_, fun _ => ⟨c, _, rfl, hc⟩⟩
    simpa using hkey
  | condOpen => exact ⟨'?', c :: key' ++ ['\x7d'], rfl, by decide, by simpa using hkey, by simp⟩
  | condClose => exact ⟨'/', '?' :: c :: key' ++ ['\x7d'], rfl, by decide, by simpa using hkey, by simp⟩
  | loopOpen => exact ⟨'#', c :: key' ++ ['\x7d'], rfl, by decide, by simpa using hkey, by simp⟩
  | loopClose => exact ⟨'/', c :: key' ++ ['\x7d'], rfl, by decide, by simpa using hkey, by simp⟩

/-- No token begins inside another. -/
theorem Valid.read?_within (h : t.Valid) (heq : t.text = u ++ v) (hu : u ≠ []) (hv : v ≠ []) (s : Text) :
    read? (v ++ s) = none := by
  rw [← Option.not_isSome_iff_eq_none, read?_isSome_iff]
  rintro ⟨t', ht', rest, hprefix⟩
  obtain ⟨m', w', htext', hm', -⟩ := ht'.text_marks
  obtain ⟨m, w, htext, -, hbrace, hkey⟩ := h.text_marks
  obtain ⟨c, v, rfl⟩ := List.exists_cons_of_ne_nil hv
  obtain ⟨rfl, hrest⟩ : '\x7b' = c ∧ m' :: (w' ++ rest) = v ++ s :=
    List.cons.inj (by simpa [htext'] using hprefix)
  obtain ⟨c, u, rfl⟩ := List.exists_cons_of_ne_nil hu
  obtain ⟨-, hmarks⟩ := List.cons.inj (htext.symm.trans heq)
  cases u with
  | nil =>
    obtain ⟨rfl, rfl⟩ := List.cons.inj hmarks
    obtain ⟨c', w₁, rfl, hc'⟩ := hkey rfl
    obtain ⟨rfl, -⟩ := List.cons.inj hrest
    simp [hm'] at hc'
  | cons d u =>
    obtain ⟨-, rfl⟩ := List.cons.inj hmarks
    simp at hbrace

end Token

/-- The first position of each token and the one behind it, from left to right. -/
def places (start : Nat) : List (Text × Token) → List (Nat × Nat)
  | [] => []
  | (before, t) :: found =>
    let start' := start + before.length
    (start', start' + t.text.length) :: places (start' + t.text.length) found

theorem le_of_mem_places {start : Nat} (h : p ∈ places start found) : start ≤ p.1 ∧ p.1 < p.2 := by
  induction found generalizing start with
  | nil => simp [places] at h
  | cons f found ih =>
    obtain ⟨before, t⟩ := f
    have hpos := List.length_pos_iff.2 t.text_ne_nil
    rcases List.mem_cons.1 h with rfl | h
    · exact ⟨by simp, by simpa using hpos⟩
    · obtain ⟨hle, hlt⟩ := ih h
      exact ⟨by omega, hlt⟩

theorem pairwise_places (start : Nat) (found : List (Text × Token)) :
    (places start found).Pairwise fun p q => p.2 ≤ q.1 := by
  induction found generalizing start with
  | nil => exact .nil
  | cons f found ih => exact .cons (fun q hq => (le_of_mem_places hq).1) (ih _)

/-- A scan has a token at a place exactly if the token stands there. -/
theorem mem_spansFrom_iff (h : Token.read?.Cuts s found tail) (start i : Nat) :
    .token t i ∈ spansFrom start found tail ↔
      t.Valid ∧ ∃ u v, s = u ++ t.text ++ v ∧ i = start + u.length := by
  induction h generalizing start with
  | @tail tail hbare =>
    refine iff_of_false ?_ ?_
    · simp [spansFrom]
    · rintro ⟨ht, u, v, rfl, -⟩
      have hread := hbare (t.text ++ v) (by simp [t.text_ne_nil]) (by simp)
      simp [Token.read?_text ht] at hread
  | @form gap s rest tail t' found hbare hread hrest ih =>
    obtain ⟨ht', rfl⟩ := Token.read?_eq_some_iff.1 hread
    have hliteral : .token t i ∉ literalSpan gap start := by simp
    rw [spansFrom, List.mem_append, or_iff_right hliteral, List.mem_cons, ih, Span.token.injEq]
    constructor
    · rintro (⟨rfl, rfl⟩ | ⟨ht, u, v, rfl, rfl⟩)
      · exact ⟨ht', gap, rest, by simp, rfl⟩
      · exact ⟨ht, gap ++ t'.text ++ u, v, by simp, by simp; omega⟩
    · rintro ⟨ht, u, v, heq, rfl⟩
      rw [List.append_assoc u] at heq
      rcases Text.append_cases heq with ⟨w, rfl, hw⟩ | ⟨w, hne, rfl, hw⟩
      · by_cases hnil : w = []
        · obtain ⟨rfl, rfl⟩ := Token.text_append_inj ht' ht (by simpa [hnil] using hw)
          exact .inl (by simp [hnil])
        rcases Text.append_cases hw with ⟨w', rfl, hw'⟩ | ⟨w', hne', htext, hw'⟩
        · exact .inr ⟨ht, w', v, by simpa using hw', by simp; omega⟩
        · have hnone := ht'.read?_within htext hnil hne' rest
          rw [← hw', Token.read?_text ht] at hnone
          simp at hnone
      · have hnone := hbare w hne (List.suffix_append _ _)
        rw [← hw, Token.read?_text ht] at hnone
        simp at hnone

def Span.marker? : Span → Option Marker
  | .literal _ _ => none
  | .token t start => some ⟨t, start⟩

/-- The tokens of a text in order, each with its place. -/
def markers (s : Text) : List Marker := (scan s).filterMap Span.marker?

theorem filterMap_literalSpan (s : Text) (start : Nat) : (literalSpan s start).filterMap Span.marker? = [] := by
  rw [literalSpan]
  split <;> rfl

theorem places_eq_map (start : Nat) (found : List (Text × Token)) (tail : Text) :
    places start found = ((spansFrom start found tail).filterMap Span.marker?).map fun m => (m.start, m.stop) := by
  induction found generalizing start with
  | nil => simp [places, spansFrom, filterMap_literalSpan]
  | cons f found ih =>
    obtain ⟨before, t⟩ := f
    simp [places, spansFrom, filterMap_literalSpan, Span.marker?, Marker.stop, ih]

theorem marker?_eq_some_iff {q : Span} {m : Marker} : q.marker? = some m ↔ q = .token m.token m.start := by
  cases q with
  | literal => simp [Span.marker?]
  | token =>
    cases m
    simp [Span.marker?]

/-- A token stands in the text around these. -/
theorem mem_places_iff (h : Token.read?.Cuts s found tail) (start : Nat) : p ∈ places start found ↔
    ∃ (t : Token) (u v : Text), t.Valid ∧ s = u ++ t.text ++ v ∧ p = (start + u.length, start + u.length + t.text.length) := by
  simp only [places_eq_map start found tail, List.mem_map, List.mem_filterMap, marker?_eq_some_iff]
  constructor
  · rintro ⟨m, ⟨_, hm, rfl⟩, rfl⟩
    obtain ⟨ht, u, v, rfl, hstart⟩ := (mem_spansFrom_iff h start m.start).1 hm
    exact ⟨m.token, u, v, ht, rfl, by rw [Marker.stop, hstart]⟩
  · rintro ⟨t, u, v, ht, rfl, rfl⟩
    exact ⟨⟨t, start + u.length⟩, ⟨_, (mem_spansFrom_iff h start _).2 ⟨ht, u, v, rfl, rfl⟩, rfl⟩, rfl⟩

/-- Going over the tokens of a scan is going over their places. -/
theorem foldl_spansFrom {β : Type} (f : β → Nat → Nat → β) (b : β) (start : Nat)
    (found : List (Text × Token)) (tail : Text) :
    (spansFrom start found tail).foldl (fun b span =>
      match span with
      | .literal _ _ => b
      | .token _ _ => f b span.start span.stop) b =
    (places start found).foldl (fun b p => f b p.1 p.2) b := by
  induction found generalizing start b with
  | nil =>
    simp only [spansFrom, literalSpan]
    split <;> rfl
  | cons g found ih =>
    obtain ⟨before, t⟩ := g
    simp only [spansFrom, literalSpan, List.foldl_append, List.foldl_cons, ih, places]
    split <;> rfl

/-! ### Tokens over a cut -/

/-- A token begins in the first text and ends in the second. -/
def SplitsToken (x y : Text) : Prop :=
  ∃ (t : Token) (l r : Text), t.Valid ∧ t.text = l ++ r ∧ l ≠ [] ∧ r ≠ [] ∧ l <:+ x ∧ r <+: y

theorem SplitsToken.mono {x' y' : Text} (h : SplitsToken x y) (hx : x <:+ x') (hy : y <+: y') :
    SplitsToken x' y' := by
  obtain ⟨t, l, r, ht, htext, hl, hr, hlx, hry⟩ := h
  exact ⟨t, l, r, ht, htext, hl, hr, hlx.trans hx, hry.trans hy⟩

theorem SplitsToken.hasTokens (h : SplitsToken x y) : hasTokens (x ++ y) := by
  obtain ⟨t, l, r, ht, htext, -, -, ⟨u, rfl⟩, ⟨v, rfl⟩⟩ := h
  exact hasTokens_iff.2 ⟨t, ht, u, v, by simp [htext]⟩

theorem splitsToken_iff (h : Token.read?.Cuts (x ++ y) found tail) :
    SplitsToken x y ↔ ∃ p ∈ places 0 found, p.1 < x.length ∧ x.length < p.2 := by
  constructor
  · rintro ⟨t, l, r, ht, htext, hl, hr, ⟨u, rfl⟩, ⟨v, rfl⟩⟩
    have hlpos := List.length_pos_iff.2 hl
    have hrpos := List.length_pos_iff.2 hr
    refine ⟨_, (mem_places_iff h 0).2 ⟨t, u, v, ht, by simp [htext], rfl⟩, ?_⟩
    simp only [htext, List.length_append]
    omega
  · rintro ⟨p, hp, hstart, hstop⟩
    obtain ⟨t, u, v, ht, heq, rfl⟩ := (mem_places_iff h 0).1 hp
    rw [List.append_assoc] at heq
    rcases Text.append_cases heq with ⟨w, rfl, -⟩ | ⟨l, hl, rfl, heq'⟩
    · simp only [List.length_append] at hstart
      omega
    rcases Text.append_cases heq' with ⟨w, rfl, -⟩ | ⟨r, hr, htext, rfl⟩
    · simp only [List.length_append] at hstop
      omega
    · exact ⟨t, l, r, ht, htext, hl, hr, List.suffix_append _ _, List.prefix_append _ _⟩

end DeckMerge.Placeholder
