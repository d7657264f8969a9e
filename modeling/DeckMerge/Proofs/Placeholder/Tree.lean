import DeckMerge.Placeholder.Tree
import DeckMerge.Proofs.Placeholder.Token

/-!
The tree of a text holds all of the text: reading its nodes back in order gives the text again.
-/

namespace DeckMerge.Placeholder

/-! ### Spans -/

theorem findAll_text (s : Text) :
    (Token.read?.findAll s).1.flatMap (fun p => p.1 ++ p.2.text) ++ (Token.read?.findAll s).2 = s := by
  induction s using Token.frontInduction with
  | nil => simp [Recogniser.findAll_nil Token.read?_advances]
  | token t s hv ih =>
    rw [Recogniser.findAll_of_read Token.read?_advances (Token.read?_text hv s)]
    simpa using ih
  | char c s h ih =>
    rw [Recogniser.findAll_cons Token.read?_advances h]
    revert ih
    generalize Token.read?.findAll s = r
    obtain ⟨found, tail⟩ := r
    intro ih
    cases found with
    | nil => simpa [Recogniser.withBefore] using ih
    | cons => simpa [Recogniser.withBefore] using ih

@[simp] theorem mem_literalSpan_iff {s : Text} {start : Nat} {p : Span} :
    p ∈ literalSpan s start ↔ s ≠ [] ∧ p = .literal s start := by
  rw [literalSpan]
  split <;> simp_all

theorem literalSpan_text (s : Text) (start : Nat) : (literalSpan s start).flatMap Span.text = s := by
  unfold literalSpan
  split
  · simp_all
  · simp [Span.text]

theorem spansFrom_text (start : Nat) (found : List (Text × Token)) (tail : Text) :
    (spansFrom start found tail).flatMap Span.text =
      found.flatMap (fun p => p.1 ++ p.2.text) ++ tail := by
  induction found generalizing start with
  | nil => simpa [spansFrom] using literalSpan_text tail start
  | cons p found ih =>
    rw [spansFrom, List.flatMap_append, List.flatMap_cons, literalSpan_text, ih]
    simp [Span.text]

/-- Spans are all of a text. -/
theorem scan_text (s : Text) : (scan s).flatMap Span.text = s := by
  rw [scan, spansFrom_text, findAll_text]

/-! ### Nodes -/

namespace Node

@[simp] theorem text_literal (s : Text) : (literal s).text = s := rfl

@[simp] theorem text_scalar (key : Text) : (scalar key).text = scalarText key := rfl

@[simp] theorem text_stray (m : Marker) : (stray m).text = m.token.text := rfl

@[simp] theorem text_block (opener : Marker) (children : List Node) (closer : Marker) :
    (block opener children closer).text = opener.token.text ++ textAll children ++ closer.token.text := rfl

@[simp] theorem textAll_nil : textAll [] = [] := rfl

@[simp] theorem textAll_cons (n : Node) (ns : List Node) : textAll (n :: ns) = n.text ++ textAll ns := rfl

@[simp] theorem textAll_append (ns ms : List Node) : textAll (ns ++ ms) = textAll ns ++ textAll ms := by
  induction ns with
  | nil => rfl
  | cons n ns ih => simp [ih]

end Node

namespace Builder

def text : List Frame → List Node → Text
  | [], level => Node.textAll level.reverse
  | (opener, before) :: frames, level =>
    text frames before ++ opener.token.text ++ Node.textAll level.reverse

@[simp] theorem text_nil (level : List Node) : text [] level = Node.textAll level.reverse := rfl

@[simp] theorem text_open (opener : Marker) (before : List Node) (frames : List Frame) (level : List Node) :
    text ((opener, before) :: frames) level =
      text frames before ++ opener.token.text ++ Node.textAll level.reverse := rfl

theorem text_append (frames : List Frame) (level before : List Node) :
    text frames (level ++ before) = text frames before ++ Node.textAll level.reverse := by
  cases frames with
  | nil => simp
  | cons frame frames =>
    obtain ⟨opener, outer⟩ := frame
    simp

theorem text_cons (frames : List Frame) (n : Node) (level : List Node) :
    text frames (n :: level) = text frames level ++ n.text := by
  simpa using text_append frames [n] level

theorem text_unwind (frames : List Frame) (opener : Marker) (level before : List Node) :
    text frames (level ++ .stray opener :: before) = text ((opener, before) :: frames) level := by
  rw [text_append, text_cons, text_open, Node.text_stray]

theorem text_of_close? {closer : Marker} {frames : List Frame} {level : List Node} {b : Builder}
    (h : close? closer frames level = some b) :
    text b.1 b.2 = text frames level ++ closer.token.text := by
  induction frames generalizing level with
  | nil => simp [close?] at h
  | cons frame frames ih =>
    obtain ⟨opener, before⟩ := frame
    rw [close?] at h
    split at h
    · obtain rfl := Option.some.inj h
      rw [text_cons]
      simp
    · rw [ih h, text_unwind]

theorem text_add (b : Builder) (p : Span) : text (b.add p).1 (b.add p).2 = text b.1 b.2 ++ p.text := by
  obtain ⟨frames, level⟩ := b
  cases p with
  | literal s start => simp [add, text_cons, Span.text]
  | token t start =>
    obtain ⟨kind, key⟩ := t
    cases kind with
    | scalar => simp [add, text_cons, Span.text, Token.text, scalarText]
    | condOpen => simp [add, Span.text]
    | loopOpen => simp [add, Span.text]
    | condClose | loopClose =>
      simp only [add, Span.text]
      cases h : close? _ frames level with
      | none => simp [text_cons]
      | some b => simpa using text_of_close? h

theorem text_foldl_add (spans : List Span) (b : Builder) :
    text (spans.foldl add b).1 (spans.foldl add b).2 = text b.1 b.2 ++ spans.flatMap Span.text := by
  induction spans generalizing b with
  | nil => simp
  | cons p spans ih => simp [ih, text_add]

theorem textAll_finish (frames : List Frame) (level : List Node) :
    Node.textAll (finish frames level) = text frames level := by
  induction frames generalizing level with
  | nil => rfl
  | cons frame frames ih =>
    obtain ⟨opener, before⟩ := frame
    rw [finish, ih, text_unwind]

end Builder

/-- Reading the tree of a text back gives the text. -/
theorem textAll_parse_eq (s : Text) : Node.textAll (parse s) = s := by
  rw [parse, treeOf, Builder.textAll_finish, Builder.text_foldl_add, scan_text]
  simp

end DeckMerge.Placeholder
