import DeckMerge.Proofs.Placeholder.Pairing
import DeckMerge.Proofs.Placeholder.Spans

/-!
Where the nodes of a tree stand. Every node of the tree of a text stands in the text where its markers say:
the text between the offsets of a block is the block read back.
-/

namespace DeckMerge.Placeholder

variable {s : Text} {n : Node} {ns ms : List Node} {m : Marker} {p : Span} {ps : List Span} {b b' : Builder} {i j : Nat}

namespace Node

/-! ### Nodes in a tree -/

mutual

/-- A node and all nodes in it. -/
def nodes : Node → List Node
  | .literal s => [.literal s]
  | .scalar key => [.scalar key]
  | .stray m => [.stray m]
  | .block opener children closer => .block opener children closer :: nodesAll children

def nodesAll : List Node → List Node
  | [] => []
  | n :: ns => n.nodes ++ nodesAll ns

end

mutual

/-- When the node stands at this offset, its markers have the offsets that its text gives them. -/
def StandsAt : Nat → Node → Prop
  | _, .literal _ => True
  | _, .scalar _ => True
  | i, .stray m => m.start = i
  | i, .block opener children closer => opener.opens closer ∧ opener.start = i ∧
      StandAt opener.stop children ∧ closer.start = opener.stop + (textAll children).length

def StandAt : Nat → List Node → Prop
  | _, [] => True
  | i, n :: ns => n.StandsAt i ∧ StandAt (i + n.text.length) ns

end

theorem standAt_append : StandAt i (ns ++ ms) ↔ StandAt i ns ∧ StandAt (i + (textAll ns).length) ms := by
  induction ns generalizing i with
  | nil => simp [StandAt]
  | cons n ns ih => simp [StandAt, ih, and_assoc, Nat.add_assoc]

theorem standAt_singleton : StandAt i [n] ↔ n.StandsAt i := by
  simp [StandAt]

mutual

/-- A node of a node that stands in a text stands in that text. -/
theorem exists_append_of_mem_nodes {u : Text} {n n' : Node} (h : n.StandsAt u.length) (hn : n' ∈ n.nodes)
    (v : Text) : ∃ u' v', u ++ n.text ++ v = u' ++ n'.text ++ v' ∧ n'.StandsAt u'.length := by
  cases n with
  | literal | scalar | stray =>
    obtain rfl := List.mem_singleton.1 hn
    exact ⟨u, v, rfl, h⟩
  | block opener children closer =>
    rcases List.mem_cons.1 hn with rfl | hn
    · exact ⟨u, v, rfl, h⟩
    · obtain ⟨-, hstart, hchildren, -⟩ := h
      have hlength : opener.stop = (u ++ opener.token.text).length := by
        rw [Marker.stop, hstart, List.length_append]
      rw [hlength] at hchildren
      obtain ⟨u', v', heq, hstands⟩ := exists_append_of_mem_nodesAll hchildren hn (closer.token.text ++ v)
      exact ⟨u', v', by rw [← heq]; simp [text], hstands⟩

theorem exists_append_of_mem_nodesAll {u : Text} {ns : List Node} {n' : Node} (h : StandAt u.length ns)
    (hn : n' ∈ nodesAll ns) (v : Text) :
    ∃ u' v', u ++ textAll ns ++ v = u' ++ n'.text ++ v' ∧ n'.StandsAt u'.length := by
  cases ns with
  | nil => simp [nodesAll] at hn
  | cons n ns =>
    obtain ⟨hfirst, hrest⟩ := h
    rcases List.mem_append.1 hn with hn | hn
    · obtain ⟨u', v', heq, hstands⟩ := exists_append_of_mem_nodes hfirst hn (textAll ns ++ v)
      exact ⟨u', v', by rw [← heq]; simp, hstands⟩
    · rw [← List.length_append] at hrest
      obtain ⟨u', v', heq, hstands⟩ := exists_append_of_mem_nodesAll hrest hn v
      exact ⟨u', v', by rw [← heq]; simp, hstands⟩

end

mutual

theorem markers_subset_of_mem_nodes {n n' : Node} (hn : n' ∈ n.nodes) : n'.markers ⊆ n.markers := by
  cases n with
  | literal | scalar | stray =>
    obtain rfl := List.mem_singleton.1 hn
    exact List.Subset.refl _
  | block opener children closer =>
    rcases List.mem_cons.1 hn with rfl | hn
    · exact List.Subset.refl _
    · intro m hm
      have hchildren := markersAll_subset_of_mem_nodesAll hn hm
      simp [markers, hchildren]

theorem markersAll_subset_of_mem_nodesAll {ns : List Node} {n' : Node} (hn : n' ∈ nodesAll ns) :
    n'.markers ⊆ markersAll ns := by
  cases ns with
  | nil => simp [nodesAll] at hn
  | cons n ns =>
    intro m hm
    rw [markersAll, List.mem_append]
    rcases List.mem_append.1 hn with hn | hn
    · exact .inl (markers_subset_of_mem_nodes hn hm)
    · exact .inr (markersAll_subset_of_mem_nodesAll hn hm)

end

end Node

/-! ### Building the tree -/

theorem textAll_tree_add (b : Builder) (p : Span) :
    Node.textAll (b.add p).tree = Node.textAll b.tree ++ p.text := by
  simp only [Builder.tree, Builder.textAll_finish, Builder.text_add]

/-- A span behind the text of the tree puts nothing in a wrong place. -/
theorem standAt_add (h : Node.StandAt 0 b.tree) (hp : p.start = (Node.textAll b.tree).length) :
    Node.StandAt 0 (b.add p).tree := by
  have hplain : ∀ n : Node, n.StandsAt p.start → Node.StandAt 0 (Builder.tree (b.1, n :: b.2)) := by
    intro n hn
    rw [Builder.tree, Builder.finish_cons, Node.standAt_append, Node.standAt_singleton, Nat.zero_add]
    exact ⟨h, hp ▸ hn⟩
  cases p with
  | literal s i => exact hplain (.literal s) trivial
  | token t i =>
    have hstray : Node.StandsAt i (.stray ⟨t, i⟩) := rfl
    have hopening : Node.StandAt 0 (Builder.tree ((⟨t, i⟩, b.2) :: b.1, [])) := by
      rw [Builder.tree, Builder.finish_frame, List.reverse_nil, ← Builder.finish_cons]
      exact hplain _ hstray
    have hclosing : Node.StandAt 0
        (Builder.tree ((Builder.close? ⟨t, i⟩ b.1 b.2).getD (b.1, .stray ⟨t, i⟩ :: b.2))) := by
      cases hclose : Builder.close? ⟨t, i⟩ b.1 b.2 with
      | none => exact hplain _ hstray
      | some b' =>
        obtain ⟨-, opener, before, children, -, hopens, -, htree, htree'⟩ := Builder.close?_eq_some hclose
        -- the block begins where its marker stood as a stray, and its children stay where they were
        rw [Builder.tree, htree] at h hp
        obtain ⟨hbefore, hopener, hchildren⟩ := Node.standAt_append.1 h
        have hopener : opener.start = 0 + (Node.textAll (Builder.finish b'.1 before)).length := hopener
        simp only [Node.textAll_append, Node.textAll_cons, Node.text_stray, List.length_append] at hp
        rw [Option.getD_some, Builder.tree, htree', Node.standAt_append, Node.standAt_singleton]
        refine ⟨hbefore, hopens, hopener, ?_, ?_⟩
        · rwa [Marker.stop, hopener]
        · rw [Marker.stop, hopener]
          simp only [Span.start] at hp ⊢
          omega
    obtain ⟨kind, key⟩ := t
    cases kind with
    | scalar => exact hplain (.scalar key) trivial
    | condOpen | loopOpen => exact hopening
    | condClose | loopClose => exact hclosing

theorem standAt_foldl (hps : Tiles i ps j) (h : Node.StandAt 0 b.tree) (hlength : (Node.textAll b.tree).length = i) :
    Node.StandAt 0 (Builder.tree (ps.foldl Builder.add b)) := by
  induction hps generalizing b with
  | nil => exact h
  | @cons p ps j _ _ ih =>
    refine ih (standAt_add h hlength.symm) ?_
    rw [textAll_tree_add, List.length_append, hlength, Span.stop]

theorem standAt_parse (s : Text) : Node.StandAt 0 (parse s) :=
  standAt_foldl (b := ([], [])) (tiles_scan s) trivial rfl

theorem exists_append_of_mem_parse (hn : n ∈ Node.nodesAll (parse s)) :
    ∃ u v, s = u ++ n.text ++ v ∧ n.StandsAt u.length := by
  obtain ⟨u, v, heq, hstands⟩ := Node.exists_append_of_mem_nodesAll (u := []) (standAt_parse s) hn []
  rw [List.nil_append, List.append_nil, textAll_parse_eq] at heq
  exact ⟨u, v, heq, hstands⟩

theorem mem_markers_of_mem_parse (hn : n ∈ Node.nodesAll (parse s)) (hm : m ∈ n.markers) : m ∈ markers s := by
  have hall := Node.markersAll_subset_of_mem_nodesAll hn hm
  rw [(parse_paired s).1] at hall
  exact (List.mem_filter.1 hall).1

/-- The tree of a text reads back as the text, and each block and each stray of it as the text between its
offsets. The markers of both are tokens of the text, and a block is closed by a marker that it is open for. -/
theorem parse_readsBack (s : Text) :
    Node.textAll (parse s) = s ∧
      (∀ opener children closer, .block opener children closer ∈ Node.nodesAll (parse s) →
        opener ∈ markers s ∧ closer ∈ markers s ∧ opener.opens closer ∧
          s.extract opener.start closer.stop = opener.token.text ++ Node.textAll children ++ closer.token.text) ∧
      ∀ m, .stray m ∈ Node.nodesAll (parse s) → m ∈ markers s ∧ s.extract m.start m.stop = m.token.text := by
  refine ⟨textAll_parse_eq s, fun opener children closer hblock => ?_, fun m hstray => ?_⟩
  · have hopener : opener ∈ markers s := mem_markers_of_mem_parse hblock (by simp [Node.markers])
    have hcloser : closer ∈ markers s := mem_markers_of_mem_parse hblock (by simp [Node.markers])
    obtain ⟨u, v, heq, hopens, hstart, -, hstop⟩ := exists_append_of_mem_parse hblock
    have hlength : closer.stop = u.length + (Node.block opener children closer).text.length := by
      rw [Marker.stop, hstop, Marker.stop, hstart, Node.text_block, List.length_append, List.length_append]
      omega
    have hextract : s.extract u.length closer.stop = (Node.block opener children closer).text := by
      rw [heq, hlength, extract_append]
    exact ⟨hopener, hcloser, hopens, by rw [hstart, hextract, Node.text_block]⟩
  · obtain ⟨u, v, heq, hstart⟩ := exists_append_of_mem_parse hstray
    have hstart : m.start = u.length := hstart
    have hextract : s.extract u.length (u.length + m.token.text.length) = m.token.text := by
      rw [heq]
      exact extract_append u m.token.text v
    exact ⟨mem_markers_of_mem_parse hstray (by simp [Node.markers]), by rw [Marker.stop, hstart, hextract]⟩

/-- A block with a marker in it that is never closed. -/
def crossedText : Text := "\x7b?A\x7d\x7b#B\x7dx\x7b/?A\x7d"

def crossedOpener : Marker := ⟨⟨.condOpen, "A"⟩, 0⟩

def crossedStray : Marker := ⟨⟨.loopOpen, "B"⟩, 4⟩

def crossedCloser : Marker := ⟨⟨.condClose, "A"⟩, 9⟩

theorem parse_readsBack_crossed :
    .block crossedOpener [.stray crossedStray, .literal "x"] crossedCloser ∈ Node.nodesAll (parse crossedText) ∧
      .stray crossedStray ∈ Node.nodesAll (parse crossedText) ∧
      crossedText.extract crossedOpener.start crossedCloser.stop = crossedOpener.token.text ++
        Node.textAll [.stray crossedStray, .literal "x"] ++ crossedCloser.token.text ∧
      crossedText.extract crossedStray.start crossedStray.stop = crossedStray.token.text := by
  have hparse : parse crossedText =
      [.block crossedOpener [.stray crossedStray, .literal "x"] crossedCloser] := by cbv
  have hblock : .block crossedOpener [.stray crossedStray, .literal "x"] crossedCloser ∈
      Node.nodesAll (parse crossedText) := by
    rw [hparse]
    exact List.mem_cons_self
  have hstray : .stray crossedStray ∈ Node.nodesAll (parse crossedText) := by
    rw [hparse]
    exact List.mem_cons_of_mem _ List.mem_cons_self
  obtain ⟨-, hblocks, hstrays⟩ := parse_readsBack crossedText
  exact ⟨hblock, hstray, (hblocks _ _ _ hblock).2.2.2, (hstrays _ hstray).2⟩

end DeckMerge.Placeholder
