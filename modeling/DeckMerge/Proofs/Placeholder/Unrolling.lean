import DeckMerge.Placeholder.Expansion
import DeckMerge.Proofs.Association
import DeckMerge.Proofs.Placeholder.Cleanup
import DeckMerge.Proofs.Placeholder.Tree
import DeckMerge.Proofs.Sequence

/-!
What expanding a text means. A page binds keys to texts and to entries of texts; the blocks of a text
are unrolled from left to right, each in the scope where it stands. Expanding always succeeds on a
page, and the values that it sets aside are those that the unrolling meets.
-/

namespace DeckMerge.Placeholder

inductive Bound
  | text (s : Text)
  | entries (items : List (List (Text × Text)))

namespace Bound

def item (fields : List (Text × Text)) : Value :=
  .mapping (fields.map fun f => (.text f.1, .text f.2))

def value : Bound → Value
  | .text s => .text s
  | .entries items => .list (items.map item)

end Bound

/-- What the keys of a page stand for: texts, or entries that give texts to keys of their own. -/
abbrev Page := List (Text × Bound)

def Page.binding (p : Page) : Binding := p.map fun b => (b.1, b.2.value)

abbrev Env := Text → Option Bound

def Page.env (p : Page) : Env := fun key => p.lookup key

def entryEnv (fields : List (Text × Text)) : Env := fun key => (fields.lookup key).map .text

/-- The scopes in which a block has its body, in order. A loop over entries has it once for each, where
only the entry is visible; every other block has it once, in its own scope, if its key stands for
something that is not empty. -/
def bodies (env : Env) (opener : Token) : List Env :=
  match env opener.key with
  | none => []
  | some (.text s) => if s = [] then [] else [env]
  | some (.entries items) =>
    if opener.kind = .loopOpen then items.map entryEnv
    else if items = [] then [] else [env]

namespace Node

mutual

/-- The scalars with texts that are met when blocks are unrolled. -/
def unroll (env : Env) : Node → List Slot
  | .literal _ | .stray _ => []
  | .scalar key => match env key with
    | some (.text s) => [⟨key, s⟩]
    | _ => []
  | .block opener children _ => (bodies env opener.token).flatMap fun env => unrollAll env children

def unrollAll (env : Env) : List Node → List Slot
  | [] => []
  | n :: ns => n.unroll env ++ unrollAll env ns

end

mutual

def pieces (env : Env) : Node → List Piece
  | .literal s => [.text s]
  | .stray m => [.text m.token.text]
  | .scalar key => match env key with
    | some (.text s) => [.value key s]
    | _ => [.text (scalarText key)]
  | .block opener children _ => (bodies env opener.token).flatMap fun env => piecesAll env children

def piecesAll (env : Env) : List Node → List Piece
  | [] => []
  | n :: ns => n.pieces env ++ piecesAll env ns

end

end Node

/-! ### Expanding succeeds -/

/-- A scope shows the texts and entries of an environment. -/
def Scope.Shows (binding : Binding) (scope : Scope) (env : Env) : Prop :=
  ∀ key, scope.lookup binding key = .ok ((env key).map Bound.value)

theorem Page.shows (p : Page) : Scope.page.Shows p.binding p.env := by
  intro key
  simp [Scope.lookup, Page.binding, Page.env, Association.lookup_map_snd]

theorem shows_item (binding : Binding) (fields : List (Text × Text)) :
    (Scope.ofItem (Bound.item fields)).Shows binding (entryEnv fields) := by
  intro key
  have h : Fields.get? (fields.map fun f => (Key.text f.1, Value.text f.2)) key =
      (fields.lookup key).map Value.text := by
    induction fields with
    | nil => rfl
    | cons f fields ih =>
      obtain ⟨k, s⟩ := f
      have hk : (Key.text key == Key.text k) = (key == k) := by
        rw [Bool.eq_iff_iff]
        simp
      rw [Fields.get?] at ih ⊢
      simp only [List.map_cons, List.lookup_cons, hk, ih]
      split <;> rfl
  simp only [Bound.item, Scope.ofItem, Scope.lookup, h, entryEnv, Option.map_map]
  rfl

theorem isSet_value (b : Option Bound) : isSet (b.map Bound.value) = .ok (match b with
    | none => false
    | some (.text s) => !s.isEmpty
    | some (.entries items) => !items.isEmpty) := by
  match b with
  | none => rfl
  | some (.text s) => rfl
  | some (.entries items) => simp [isSet, Bound.value]

/-- The scopes of repetition show the environments of the bodies. -/
theorem forall₂_repetitions {binding : Binding} {scope : Scope} {env : Env}
    (h : scope.Shows binding env) {opener : Token} (hk : opener.kind = .loopOpen) :
    ∃ scopes, repetitions scope ((env opener.key).map Bound.value) = .ok scopes ∧
      List.Forall₂ (Scope.Shows binding) scopes (bodies env opener) := by
  unfold bodies
  match env opener.key with
  | none => exact ⟨[], rfl, .nil⟩
  | some (.text s) =>
    by_cases hs : s = []
    · exact ⟨[], by simp [repetitions, Bound.value, hs], by simp [hs]⟩
    · exact ⟨[scope], by simp [repetitions, Bound.value, hs], by simp [hs, h]⟩
  | some (.entries items) =>
    refine ⟨(items.map Bound.item).map .ofItem, rfl, ?_⟩
    simp only [hk, if_true, List.forall₂_map_left_iff, List.forall₂_map_right_iff]
    exact List.forall₂_same.2 fun fields _ => shows_item binding fields

mutual

theorem expandNode_eq {binding : Binding} {scope : Scope} {env : Env} (h : scope.Shows binding env) :
    (n : Node) → expandNode binding scope n = .ok (n.pieces env)
  | .literal _ => rfl
  | .stray _ => rfl
  | .scalar key => by
    rw [expandNode, h, Sequence.bind_ok, Node.pieces]
    match env key with
    | none => rfl
    | some (.text s) => rfl
    | some (.entries items) => rfl
  | .block opener children _ => by
    rw [expandNode, h, Sequence.bind_ok, Node.pieces]
    split
    case isTrue hk =>
      obtain ⟨scopes, hs, hb⟩ := forall₂_repetitions h hk
      have hm : scopes.mapM (fun scope => expandNodes binding scope children) =
          .ok ((bodies env opener.token).map fun env => Node.piecesAll env children) := by
        rw [Sequence.mapM_eq_ok_iff, List.forall₂_map_right_iff]
        exact hb.imp fun _ _ h => expandNodes_eq h children
      rw [hs, Sequence.bind_ok, hm, Sequence.bind_ok]
      rfl
    case isFalse hk =>
      rw [isSet_value, Sequence.bind_ok]
      unfold bodies
      match env opener.token.key with
      | none => rfl
      | some (.text s) =>
        by_cases hs : s = []
        · simp [hs]
        · simpa [hs] using expandNodes_eq h children
      | some (.entries items) =>
        by_cases hi : items = []
        · simp [hk, hi]
        · simpa [hk, hi] using expandNodes_eq h children

theorem expandNodes_eq {binding : Binding} {scope : Scope} {env : Env} (h : scope.Shows binding env) :
    (ns : List Node) → expandNodes binding scope ns = .ok (Node.piecesAll env ns)
  | [] => rfl
  | n :: ns => by
    rw [expandNodes, expandNode_eq h n, Sequence.bind_ok, expandNodes_eq h ns, Sequence.bind_ok]
    rfl

end

namespace Page

/-- The text with its blocks unrolled, before what is left over is deleted. -/
def unrolled (p : Page) (s : Text) : Text := slotted 0 (Node.piecesAll p.env (parse s))

def expansion (p : Page) (s : Text) : Expansion where
  text := (strip (p.unrolled s)).1
  slots := (Node.piecesAll p.env (parse s)).filterMap Piece.slot?
  residuals := (strip (p.unrolled s)).2

end Page

theorem expand_page (p : Page) (s : Text) : expand s p.binding = .ok (p.expansion s) := by
  rw [expand, expandNodes_eq p.shows, Sequence.bind_ok]
  rfl

/-! ### The values set aside -/

namespace Node

mutual

theorem filterMap_pieces (env : Env) : (n : Node) → (n.pieces env).filterMap Piece.slot? = n.unroll env
  | .literal _ => rfl
  | .stray _ => rfl
  | .scalar key => by
    rw [pieces, unroll]
    match env key with
    | none => rfl
    | some (.text s) => rfl
    | some (.entries items) => rfl
  | .block opener children _ => by
    rw [pieces, unroll, List.filterMap_flatMap]
    congr 1
    funext env
    exact filterMap_piecesAll env children

theorem filterMap_piecesAll (env : Env) :
    (ns : List Node) → (piecesAll env ns).filterMap Piece.slot? = unrollAll env ns
  | [] => rfl
  | n :: ns => by
    rw [piecesAll, unrollAll, List.filterMap_append, filterMap_pieces env n, filterMap_piecesAll env ns]

end

end Node

end DeckMerge.Placeholder
