import DeckMerge.Proofs.Placeholder.Unrolling

/-!
Values and structure are apart. Two pages have the same shape if they bind the same keys, to texts that
are both empty or both not, or to as many entries of the same shape. Expanding a text then differs in
the values that are set aside and in nothing else: what stands in a value keeps, repeats or deletes no
part of the text.
-/

namespace DeckMerge.Placeholder

/-- Texts that are both empty or both not. -/
def SameFill (s t : Text) : Prop := s = [] ↔ t = []

/-- Entries that give the same keys texts of the same fill. -/
def SameFields (fields fields' : List (Text × Text)) : Prop :=
  ∀ key, Option.Rel SameFill (fields.lookup key) (fields'.lookup key)

inductive Bound.SameShape : Bound → Bound → Prop
  | text {s t : Text} : SameFill s t → SameShape (.text s) (.text t)
  | entries {items items' : List (List (Text × Text))} :
    List.Forall₂ SameFields items items' → SameShape (.entries items) (.entries items')

def Env.SameShape (env env' : Env) : Prop := ∀ key, Option.Rel Bound.SameShape (env key) (env' key)

/-- Pages that differ in what their texts are, but not in which of them are empty. -/
def Page.SameShape (p q : Page) : Prop := p.env.SameShape q.env

/-- Values related under equal keys are related under every key. -/
theorem rel_lookup_cons {α : Type} {R : α → α → Prop} {a a' : α} {xs xs' : List (Text × α)} {k : Text}
    (ha : R a a') (h : ∀ key, Option.Rel R (xs.lookup key) (xs'.lookup key)) (key : Text) :
    Option.Rel R (((k, a) :: xs).lookup key) (((k, a') :: xs').lookup key) := by
  simp only [List.lookup_cons]
  split
  · exact .some ha
  · exact h key

theorem SameFields.entryEnv {fields fields' : List (Text × Text)} (h : SameFields fields fields') :
    (entryEnv fields).SameShape (entryEnv fields') := by
  intro key
  have hkey := h key
  unfold Placeholder.entryEnv
  generalize fields.lookup key = s, fields'.lookup key = t at hkey
  cases hkey with
  | none => exact .none
  | some hfill => exact .some (.text hfill)

/-- Blocks have their bodies in scopes of the same shape. -/
theorem Env.SameShape.bodies {env env' : Env} (h : env.SameShape env') (opener : Token) :
    List.Forall₂ Env.SameShape (bodies env opener) (bodies env' opener) := by
  have hkey := h opener.key
  unfold Placeholder.bodies
  generalize env opener.key = b, env' opener.key = b' at hkey
  cases hkey with
  | none => exact .nil
  | some hb =>
    cases hb with
    | @text s t hfill =>
      by_cases hs : s = []
      · simp [hs, hfill.1 hs]
      · simp [hs, mt hfill.2 hs, h]
    | @entries items items' hitems =>
      have hnil : items = [] ↔ items' = [] := by
        rw [← List.length_eq_zero_iff, hitems.length_eq, List.length_eq_zero_iff]
      by_cases hk : opener.kind = .loopOpen
      · simp only [hk, if_true, List.forall₂_map_left_iff, List.forall₂_map_right_iff]
        exact hitems.imp fun _ _ hfields => hfields.entryEnv
      · by_cases hi : items = []
        · simp [hk, hi, hnil.1 hi]
        · simp [hk, hi, mt hnil.2 hi, h]

/-! ### Pieces without their values -/

def Piece.masked : Piece → Piece
  | .text s => .text s
  | .value key _ => .value key []

theorem flatMap_congr_of_forall₂ {α β : Type} {R : α → α → Prop} {f : α → List β} {xs ys : List α}
    (h : List.Forall₂ R xs ys) (hf : ∀ x y, R x y → f x = f y) : xs.flatMap f = ys.flatMap f := by
  induction h with
  | nil => rfl
  | cons hr _ ih => rw [List.flatMap_cons, List.flatMap_cons, hf _ _ hr, ih]

namespace Node

mutual

theorem masked_pieces {env env' : Env} (h : env.SameShape env') :
    (n : Node) → (n.pieces env).map Piece.masked = (n.pieces env').map Piece.masked
  | .literal _ => rfl
  | .stray _ => rfl
  | .scalar key => by
    have hkey := h key
    rw [pieces, pieces]
    generalize env key = b, env' key = b' at hkey
    cases hkey with
    | none => rfl
    | some hb => cases hb <;> rfl
  | .block opener children _ => by
    rw [pieces, pieces, List.map_flatMap, List.map_flatMap]
    exact flatMap_congr_of_forall₂ (h.bodies opener.token) fun _ _ h => masked_piecesAll h children

theorem masked_piecesAll {env env' : Env} (h : env.SameShape env') :
    (ns : List Node) → (piecesAll env ns).map Piece.masked = (piecesAll env' ns).map Piece.masked
  | [] => rfl
  | n :: ns => by
    rw [piecesAll, piecesAll, List.map_append, List.map_append, masked_pieces h n,
      masked_piecesAll h ns]

end

end Node

theorem slotted_masked (index : Nat) (ps : List Piece) :
    slotted index (ps.map Piece.masked) = slotted index ps := by
  induction ps generalizing index with
  | nil => rfl
  | cons p ps ih => cases p <;> simp [Piece.masked, slotted, ih]

theorem map_key_masked (ps : List Piece) :
    ((ps.map Piece.masked).filterMap Piece.slot?).map Slot.key =
      (ps.filterMap Piece.slot?).map Slot.key := by
  induction ps with
  | nil => rfl
  | cons p ps ih =>
    rw [List.map_cons]
    cases p with
    | text s => exact ih
    | value key v => exact congrArg (key :: ·) ih

/-! ### Expansions -/

theorem Page.SameShape.unrolled {p q : Page} (h : p.SameShape q) (s : Text) :
    p.unrolled s = q.unrolled s := by
  rw [Page.unrolled, Page.unrolled, ← slotted_masked, Node.masked_piecesAll h, slotted_masked]

theorem Page.SameShape.map_key {p q : Page} (h : p.SameShape q) (s : Text) :
    (p.expansion s).slots.map Slot.key = (q.expansion s).slots.map Slot.key := by
  rw [Page.expansion, Page.expansion, ← map_key_masked, Node.masked_piecesAll h, map_key_masked]

/-- Pages of the same shape expand a text to the same text, with slots for the same keys and as many
tokens deleted. -/
theorem expand_sameShape {p q : Page} (h : p.SameShape q) (s : Text) :
    ∃ e e', expand s p.binding = .ok e ∧ expand s q.binding = .ok e' ∧ e'.text = e.text ∧
      e'.slots.map Slot.key = e.slots.map Slot.key ∧ e'.residuals = e.residuals ∧
      e'.slots.length = e.slots.length := by
  refine ⟨p.expansion s, q.expansion s, expand_page p s, expand_page q s, ?_, ?_, ?_, ?_⟩
  · rw [Page.expansion, Page.expansion, h.unrolled]
  · rw [h.map_key]
  · rw [Page.expansion, Page.expansion, h.unrolled]
  · simpa using congrArg List.length (h.map_key s).symm

/-- A conditional, a loop and a conditional on what is empty. -/
def blocksText : Text :=
  "\x7b?A\x7d\x7b\x7bA\x7d\x7d\x7b/?A\x7d\x7b#W\x7d\x7b\x7bX\x7d\x7d;\x7b/W\x7d\x7b?E\x7de\x7b/?E\x7d"

def plainPage : Page :=
  [("A".toList, .text "a".toList), ("W".toList, .entries [[("X".toList, "1".toList)]]),
   ("E".toList, .text [])]

/-- The same keys, with markers and the mark of a slot in the values. -/
def quotingPage : Page :=
  [("A".toList, .text "\x7b/?A\x7d\x00\x30\x00\x7b\x7bX\x7d\x7d".toList),
   ("W".toList, .entries [[("X".toList, "\x7b/W\x7d".toList)]]), ("E".toList, .text [])]

theorem expand_sameShape_quoting : plainPage.SameShape quotingPage ∧
    ∃ e e', expand blocksText plainPage.binding = .ok e ∧
      expand blocksText quotingPage.binding = .ok e' ∧ e'.text = e.text ∧
      e'.slots.map Slot.key = e.slots.map Slot.key ∧ e'.residuals = e.residuals ∧
      e'.slots.length = e.slots.length := by
  have hfields : SameFields [("X".toList, "1".toList)] [("X".toList, "\x7b/W\x7d".toList)] :=
    rel_lookup_cons (by simp [SameFill]) fun _ => .none
  have h : plainPage.SameShape quotingPage :=
    rel_lookup_cons (.text (by simp [SameFill])) <|
      rel_lookup_cons (.entries (.cons hfields .nil)) <|
        rel_lookup_cons (.text (by simp [SameFill])) fun _ => .none
  exact ⟨h, expand_sameShape h blocksText⟩

end DeckMerge.Placeholder
