import DeckMerge.Proofs.Placeholder.Cleanup
import DeckMerge.Proofs.Placeholder.Places
import Mathlib.Data.List.Chain
import Mathlib.Data.List.Pairwise

/-!
The scan of a text. Its spans stand one behind the other over all of the text, and its tokens are all the
tokens of the text; what is read from the text in other ways is read from its spans.
-/

namespace DeckMerge.Placeholder

variable {s : Text} {t : Token} {p q : Span} {ps qs : List Span} {found : List (Text × Token)} {tail : Text}
  {i j k : Nat}

/-! ### Places of spans -/

/-- Spans that are not empty, one behind the other from one offset to another. -/
inductive Tiles : Nat → List Span → Nat → Prop
  | nil {i : Nat} : Tiles i [] i
  | cons {p : Span} {ps : List Span} {j : Nat} : p.start < p.stop → Tiles p.stop ps j → Tiles p.start (p :: ps) j

namespace Tiles

theorem append (h : Tiles i ps j) (h' : Tiles j qs k) : Tiles i (ps ++ qs) k := by
  induction h with
  | nil => exact h'
  | cons hp _ ih => exact .cons hp (ih h')

theorem le_start (h : Tiles i ps j) (hp : p ∈ ps) : i ≤ p.start := by
  induction h with
  | nil => simp at hp
  | cons hlt _ ih =>
    rcases List.mem_cons.1 hp with rfl | hp
    · exact le_refl _
    · exact hlt.le.trans (ih hp)

theorem pairwise (h : Tiles i ps j) : ps.Pairwise fun p q => p.stop ≤ q.start := by
  induction h with
  | nil => exact .nil
  | cons _ hrest ih => exact .cons (fun q hq => hrest.le_start hq) ih

/-- Two of the spans are the same one, or one stands before the other. -/
theorem eq_or_le (h : Tiles i ps j) (hp : p ∈ ps) (hq : q ∈ ps) :
    p = q ∨ p.stop ≤ q.start ∨ q.stop ≤ p.start := by
  have hsymm : Std.Symm fun p q : Span => p.stop ≤ q.start ∨ q.stop ≤ p.start := ⟨fun _ _ => Or.symm⟩
  have hapart : ps.Pairwise fun p q => p.stop ≤ q.start ∨ q.stop ≤ p.start := h.pairwise.imp .inl
  exact or_iff_not_imp_left.2 (hapart.forall hp hq)

end Tiles

theorem tiles_literalSpan (s : Text) (i : Nat) : Tiles i (literalSpan s i) (i + s.length) := by
  rw [literalSpan]
  split
  case isTrue hs => simpa [hs] using Tiles.nil
  case isFalse hs =>
    have hpos := List.length_pos_iff.2 hs
    exact .cons (p := .literal s i) (by simpa [Span.start, Span.stop, Span.text] using hpos) .nil

theorem tiles_spansFrom (i : Nat) (found : List (Text × Token)) (tail : Text) : Tiles i (spansFrom i found tail)
    (i + (found.flatMap (fun f => f.1 ++ f.2.text) ++ tail).length) := by
  induction found generalizing i with
  | nil => simpa [spansFrom] using tiles_literalSpan tail i
  | cons f found ih =>
    obtain ⟨before, t⟩ := f
    have hpos := List.length_pos_iff.2 t.text_ne_nil
    have hlt : (Span.token t (i + before.length)).start < (Span.token t (i + before.length)).stop := by
      simpa [Span.start, Span.stop, Span.text] using hpos
    have htoken := Tiles.cons hlt (ih (i + before.length + t.text.length))
    have hall := (tiles_literalSpan before i).append htoken
    simpa [spansFrom, Nat.add_assoc] using hall

theorem tiles_scan (s : Text) : Tiles 0 (scan s) s.length := by
  have htiles := tiles_spansFrom 0 (Token.read?.findAll s).1 (Token.read?.findAll s).2
  rwa [findAll_text, Nat.zero_add] at htiles

/-! ### Tokens and literal text -/

def Span.isToken : Span → Bool
  | .literal _ _ => false
  | .token _ _ => true

@[simp] theorem Span.isToken_literal (s : Text) (i : Nat) : (Span.literal s i).isToken = false := rfl

@[simp] theorem Span.isToken_token (t : Token) (i : Nat) : (Span.token t i).isToken := rfl

/-- The text between two of its offsets is the token. -/
structure Token.StandsIn (t : Token) (s : Text) (i j : Nat) : Prop where
  valid : t.Valid
  le_length : j ≤ s.length
  extract_eq : s.extract i j = t.text

/-- Behind literal text comes a token. -/
theorem isChain_spansFrom (i : Nat) (found : List (Text × Token)) (tail : Text) :
    (spansFrom i found tail).IsChain fun p q => p.isToken ∨ q.isToken := by
  induction found generalizing i with
  | nil =>
    rw [spansFrom, literalSpan]
    split
    · exact .nil
    · exact .singleton _
  | cons f found ih =>
    obtain ⟨before, t⟩ := f
    have htoken := Span.isToken_token t (i + before.length)
    have hrest := List.isChain_cons.2 ⟨fun _ _ => .inl htoken, ih (i + before.length + t.text.length)⟩
    rw [spansFrom, literalSpan]
    split
    · exact hrest
    · exact .cons_cons (.inr htoken) hrest

theorem mem_of_literal_mem_spansFrom {l : Text} (h : .literal l i ∈ spansFrom k found tail) :
    l ∈ found.map (·.1) ++ [tail] := by
  induction found generalizing k with
  | nil =>
    obtain ⟨-, hl⟩ := mem_literalSpan_iff.1 h
    simp [(Span.literal.inj hl).1]
  | cons f found ih =>
    obtain ⟨before, t⟩ := f
    rw [spansFrom, List.mem_append, List.mem_cons, mem_literalSpan_iff] at h
    rcases h with ⟨-, hl⟩ | hl | h
    · simp [(Span.literal.inj hl).1]
    · cases hl
    · exact List.mem_cons_of_mem _ (ih h)

theorem extract_append (u w v : Text) : (u ++ w ++ v).extract u.length (u.length + w.length) = w := by
  rw [List.extract_eq_take_drop, List.append_assoc, List.drop_left, Nat.add_sub_cancel_left, List.take_left]

/-- A scan's tokens are the tokens that stand in the text. -/
theorem standsIn_iff : t.StandsIn s i j ↔ .token t i ∈ scan s ∧ (Span.token t i).stop = j := by
  have hscan := mem_spansFrom_iff (t := t) (Recogniser.cuts_findAll Token.read?_advances s) 0 i
  rw [show scan s = spansFrom 0 _ _ from rfl, hscan, Span.stop, Span.start, Span.text]
  constructor
  · rintro ⟨ht, hj, hextract⟩
    have hpos := List.length_pos_iff.2 t.text_ne_nil
    have hlength := congrArg List.length hextract
    rw [List.extract_eq_take_drop, List.length_take, List.length_drop] at hlength
    have hdrop : s.drop i = t.text ++ s.drop j := by
      have hrest : (s.drop i).drop (j - i) = s.drop j := by
        rw [List.drop_drop]
        congr 1
        omega
      rw [← hextract, List.extract_eq_take_drop, ← hrest, List.take_append_drop]
    refine ⟨⟨ht, s.take i, s.drop j, ?_, ?_⟩, by omega⟩
    · rw [List.append_assoc, ← hdrop, List.take_append_drop]
    · rw [List.length_take]
      omega
  · rintro ⟨⟨ht, u, v, rfl, rfl⟩, rfl⟩
    rw [Nat.zero_add]
    exact ⟨ht, by simp, extract_append u t.text v⟩

/-- The scan of a text has the tokens that stand in the text, and the literal text between them. -/
theorem scan_tokenises (s : Text) :
    Tiles 0 (scan s) s.length ∧ (scan s).flatMap Span.text = s ∧
      ((scan s).IsChain fun p q => p.isToken ∨ q.isToken) ∧
      (∀ (t : Token) i j, t.StandsIn s i j ↔ .token t i ∈ scan s ∧ (Span.token t i).stop = j) ∧
      (∀ (t t' : Token) i i' j j', t.StandsIn s i j → t'.StandsIn s i' j' →
        (t, i, j) = (t', i', j') ∨ j ≤ i' ∨ j' ≤ i) ∧
      ∀ l i, .literal l i ∈ scan s → ∀ t : Token, t.Valid → ¬ t.text <:+: l := by
  refine ⟨tiles_scan s, scan_text s, isChain_spansFrom _ _ _, fun _ _ _ => standsIn_iff, ?_, ?_⟩
  · intro t t' i i' j j' h h'
    obtain ⟨hmem, rfl⟩ := standsIn_iff.1 h
    obtain ⟨hmem', rfl⟩ := standsIn_iff.1 h'
    rcases (tiles_scan s).eq_or_le hmem hmem' with heq | hapart
    · obtain ⟨rfl, rfl⟩ := Span.token.inj heq
      exact .inl rfl
    · exact .inr hapart
  · intro l i hl t ht hinfix
    exact not_hasTokens_of_mem_stretches (mem_of_literal_mem_spansFrom hl) (hasTokens_iff.2 ⟨t, ht, hinfix⟩)

def bracedText : Text := "\x7b\x7b\x7bA\x7d\x7d\x7d"

/-- In a row of opening braces the last two open the token. -/
theorem scan_tokenises_braced : Token.StandsIn ⟨.scalar, "A"⟩ bracedText 1 6 ∧
    .token ⟨.scalar, "A"⟩ 1 ∈ scan bracedText ∧ .literal "\x7b" 0 ∈ scan bracedText ∧
    ∀ t : Token, t.Valid → ¬ t.text <:+: "\x7b" := by
  have hkey : ("A" : Text).all isKeyChar := by decide
  have hstands : Token.StandsIn ⟨.scalar, "A"⟩ bracedText 1 6 :=
    ⟨⟨by decide, List.all_eq_true.1 hkey⟩, by decide, by decide⟩
  have hliteral : .literal "\x7b" 0 ∈ scan bracedText := by decide +kernel
  obtain ⟨-, -, -, htokens, -, hliterals⟩ := scan_tokenises bracedText
  exact ⟨hstands, ((htokens _ _ _).1 hstands).1, hliteral, hliterals _ _ hliteral⟩

/-! ### What is read from the spans -/

theorem hasTokens_eq_any (s : Text) : hasTokens s = (scan s).any Span.isToken := by
  rw [Bool.eq_iff_iff, List.any_eq_true, hasTokens_iff]
  constructor
  · rintro ⟨t, ht, u, v, rfl⟩
    have hstands : t.StandsIn (u ++ t.text ++ v) u.length (u.length + t.text.length) :=
      ⟨ht, by simp, extract_append u t.text v⟩
    exact ⟨_, (standsIn_iff.1 hstands).1, rfl⟩
  · rintro ⟨p, hp, htoken⟩
    cases p with
    | literal => simp at htoken
    | token t i =>
      obtain ⟨ht, -, hextract⟩ := standsIn_iff.2 ⟨hp, rfl⟩
      refine ⟨t, ht, ?_⟩
      rw [← hextract, List.extract_eq_take_drop]
      exact (List.take_prefix _ _).isInfix.trans (List.drop_suffix _ _).isInfix

theorem flatMap_filter_spansFrom (i : Nat) (found : List (Text × Token)) (tail : Text) :
    ((spansFrom i found tail).filter (!·.isToken)).flatMap Span.text = found.flatMap (·.1) ++ tail := by
  have hliteral : ∀ s i, ((literalSpan s i).filter (!·.isToken)).flatMap Span.text = s := by
    intro s i
    rw [literalSpan]
    split <;> simp_all [Span.text]
  induction found generalizing i with
  | nil => simpa [spansFrom] using hliteral tail i
  | cons f found ih =>
    obtain ⟨before, t⟩ := f
    simp [spansFrom, hliteral, ih]

theorem map_markers (s : Text) : (markers s).map (·.token) = tokens s := by
  have hspans : ∀ i found tail,
      ((spansFrom i found tail).filterMap Span.marker?).map (·.token) = found.map (·.2) := by
    intro i found tail
    induction found generalizing i with
    | nil => simp [spansFrom, filterMap_literalSpan]
    | cons f found ih =>
      obtain ⟨before, t⟩ := f
      simp [spansFrom, filterMap_literalSpan, Span.marker?, ih]
  exact hspans 0 _ _

/-- The text without its tokens is the literal text of its spans. -/
theorem strip_eq_spans (s : Text) : strip s =
    (((scan s).filter (!·.isToken)).flatMap Span.text, (markers s).length) := by
  have hlength := congrArg List.length (map_markers s)
  rw [List.length_map, tokens, List.length_map] at hlength
  rw [hlength]
  exact Prod.ext (flatMap_filter_spansFrom 0 _ _).symm rfl

theorem keys_eq_eraseDups (s : Text) : keys s = ((markers s).map (·.token.key)).eraseDups := by
  have hfold : ∀ ts : List Token, ts.foldl (fun ks t => if t.key ∈ ks then ks else ks ++ [t.key]) [] =
      (ts.map (·.key)).eraseDups := by
    intro ts
    induction ts using List.reverseRecOn with
    | nil => rfl
    | append_singleton ts t ih =>
      rw [List.foldl_append, ih, List.map_append, List.eraseDups_append, List.foldl_cons, List.foldl_nil]
      simp only [List.mem_eraseDups]
      split <;> simp_all [List.removeAll, List.eraseDups_cons]
  rw [keys, hfold, ← map_markers, List.map_map]
  rfl

theorem markers_eq_nil_iff : markers s = [] ↔ ¬ hasTokens s := by
  have hnone : ∀ p : Span, p.marker? = none ↔ ¬ p.isToken := by
    intro p
    cases p <;> simp [Span.marker?]
  rw [markers, List.filterMap_eq_nil_iff, hasTokens_eq_any]
  simp [hnone]

theorem keys_eq_nil_iff : keys s = [] ↔ ¬ hasTokens s := by
  rw [keys_eq_eraseDups, ← markers_eq_nil_iff]
  cases markers s <;> simp [List.eraseDups_cons]

end DeckMerge.Placeholder
