import DeckMerge.Proofs.Xml.Filling
import DeckMerge.Xml.Document

/-!
Documents with holes. Names are resolved, and complaints made, alike whatever fills the holes in the
texts.
-/

namespace DeckMerge.Xml

variable {w s : Text} {ts : List Tree} {ns : List Node} {scope : Declarations}

namespace Node

/-- Puts a text before siblings, as one with a text that comes first. -/
def consText (s : Text) : List Node → List Node
  | .text t :: ns => .text (s ++ t) :: ns
  | ns => if s = [] then ns else .text s :: ns

mutual

def fill (w : Text) : Node → Node
  | .element tag children => .element tag (fillAll w children)
  | n => n

/-- Fills the holes in the texts of siblings. A text that is empty then is gone. -/
def fillAll (w : Text) : List Node → List Node
  | [] => []
  | .text s :: ns => consText (fillText w s) (fillAll w ns)
  | n :: ns => fill w n :: fillAll w ns

end

def isText : Node → Bool
  | .text _ => true
  | _ => false

theorem consText_of_not_isText (h : ns.head?.any isText = false) (s : Text) :
    consText s ns = if s = [] then ns else .text s :: ns := by
  unfold consText
  split
  case h_1 => cases h
  case h_2 => rfl

end Node

/-- The document with its holes filled. -/
def Document.fill (w : Text) (d : Document) : Document :=
  ⟨d.declaration, ⟨d.root.tag, Node.fillAll w d.root.children⟩⟩

theorem resolveAll_text : resolveAll scope (.text s :: ts) =
    (.text s :: (resolveAll scope ts).1, (resolveAll scope ts).2) := rfl

theorem isText_resolve (t : Tree) : (resolve scope t).1.isText = t.isText := by
  cases t <;> rfl

theorem resolveAll_consText : resolveAll scope (Tree.consText s ts) =
    (Node.consText s (resolveAll scope ts).1, (resolveAll scope ts).2) := by
  by_cases hhead : ts.head?.any Tree.isText
  · match ts, hhead with
    | .text t :: ts, _ => rfl
  · rw [Bool.not_eq_true] at hhead
    have hnodes : (resolveAll scope ts).1.head?.any Node.isText = false := by
      cases ts with
      | nil => rfl
      | cons t ts =>
        change (resolve scope t).1.isText = false
        rw [isText_resolve]
        exact hhead
    rw [Tree.consText_of_not_isText hhead, Node.consText_of_not_isText hnodes]
    by_cases hs : s = []
    · rw [if_pos hs, if_pos hs]
    · rw [if_neg hs, if_neg hs, resolveAll_text]

mutual

theorem resolve_fill (w : Text) (scope : Declarations) : ∀ t : Tree,
    resolve scope (t.fill w) = ((resolve scope t).1.fill w, (resolve scope t).2)
  | .element name as children => by
    simp only [Tree.fill, resolve, resolveAll_fillAll w _ children, Node.fill]
  | .text _ | .comment _ | .instruction _ _ => rfl

theorem resolveAll_fillAll (w : Text) (scope : Declarations) : ∀ ts : List Tree,
    resolveAll scope (Tree.fillAll w ts) =
      (Node.fillAll w (resolveAll scope ts).1, (resolveAll scope ts).2)
  | [] => rfl
  | .text s :: ts => by
    rw [Tree.fillAll, resolveAll_consText, resolveAll_fillAll w scope ts, resolveAll_text, Node.fillAll]
  | .element name as children :: ts => by
    have hhead := resolve_fill w scope (.element name as children)
    rw [Tree.fillAll_element, resolveAll, ← Tree.fill, hhead, resolveAll_fillAll w scope ts]
    rfl
  | .comment c :: ts => by
    rw [Tree.fillAll_comment, resolveAll, resolveAll_fillAll w scope ts]
    rfl
  | .instruction target d :: ts => by
    rw [Tree.fillAll_instruction, resolveAll, resolveAll_fillAll w scope ts]
    rfl

end

/-- Texts whose roots differ in what fills their holes make documents that differ so, or none. -/
theorem exists_document_fill (p : Prolog) (o : Tree) (after : List Tree) :
    ∃ r : Option Document, ∀ w s, readSource s = some ⟨p, o.fill w, after⟩ →
      Document.ofText? s = r.map (Document.fill w) := by
  cases o with
  | element name as children =>
    let tag := (resolveTag [] name as).1
    let nodes := (resolveAll (tag.declarations ++ []) children).1
    let complaints := (if p.declaration.version = "1.0".toList then [] else [Complaint.warning]) ++
      (resolveAll [] p.nodes).2 ++ (resolve [] (.element name as children)).2 ++ (resolveAll [] after).2
    refine ⟨if complaints.getLast? = some .error then none else some ⟨p.declaration, ⟨tag, nodes⟩⟩,
      fun w s hs => ?_⟩
    have hcheck : Document.check s = some (⟨p.declaration, ⟨tag, Node.fillAll w nodes⟩⟩, complaints) := by
      rw [Document.check, hs]
      simp only [Option.bind_eq_bind, Option.bind_some, resolve_fill]
      rfl
    simp only [Document.ofText?, hcheck, Option.bind_eq_bind, Option.bind_some]
    split <;> rfl
  | text | comment | instruction =>
    refine ⟨none, fun w s hs => ?_⟩
    rw [Document.ofText?, Document.check, hs]
    rfl

end DeckMerge.Xml
