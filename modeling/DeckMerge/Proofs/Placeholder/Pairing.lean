import DeckMerge.Proofs.Placeholder.Places
import Mathlib.Data.List.Nodup
import Mathlib.Data.Nat.Find

/-!
Which markers are partners. A closing marker pairs with the last opening marker of its kind and key that
no block before it has closed over; markers that are in no block are strays.
-/

namespace DeckMerge.Placeholder

/-! ### Markers in a tree -/

namespace Node

mutual

/-- The opening and closing markers of a node, in order. -/
def markers : Node → List Marker
  | .literal _ => []
  | .scalar _ => []
  | .stray m => [m]
  | .block opener children closer => opener :: (markersAll children ++ [closer])

def markersAll : List Node → List Marker
  | [] => []
  | n :: ns => n.markers ++ markersAll ns

end

mutual

/-- The blocks of a node, itself included: the pairs of their markers. -/
def blocks : Node → List (Marker × Marker)
  | .literal _ => []
  | .scalar _ => []
  | .stray _ => []
  | .block opener children closer => (opener, closer) :: blocksAll children

def blocksAll : List Node → List (Marker × Marker)
  | [] => []
  | n :: ns => n.blocks ++ blocksAll ns

end

mutual

def strays : Node → List Marker
  | .literal _ => []
  | .scalar _ => []
  | .stray m => [m]
  | .block _ children _ => straysAll children

def straysAll : List Node → List Marker
  | [] => []
  | n :: ns => n.strays ++ straysAll ns

end

@[simp] theorem markersAll_append (ns ms : List Node) : markersAll (ns ++ ms) = markersAll ns ++ markersAll ms := by
  induction ns with
  | nil => rfl
  | cons n ns ih => simp [markersAll, ih]

@[simp] theorem blocksAll_append (ns ms : List Node) : blocksAll (ns ++ ms) = blocksAll ns ++ blocksAll ms := by
  induction ns with
  | nil => rfl
  | cons n ns ih => simp [blocksAll, ih]

mutual

/-- A marker is a stray or one of the two markers of a block. -/
theorem markers_perm (n : Node) : n.markers.Perm (n.strays ++ n.blocks.flatMap fun p => [p.1, p.2]) :=
  match n with
  | .literal _ => .nil
  | .scalar _ => .nil
  | .stray _ => .refl _
  | .block opener children closer => by
    have hchildren := markersAll_perm children
    have hcloser : (markersAll children ++ [closer]).Perm (closer :: markersAll children) :=
      List.perm_append_singleton _ _
    exact ((hcloser.trans (hchildren.cons closer)).cons opener).trans
      (List.perm_append_comm_assoc [opener, closer] _ _)

theorem markersAll_perm (ns : List Node) :
    (markersAll ns).Perm (straysAll ns ++ (blocksAll ns).flatMap fun p => [p.1, p.2]) :=
  match ns with
  | [] => .nil
  | n :: ns => by
    have happend := (markers_perm n).append (markersAll_perm ns)
    simp only [markersAll, straysAll, blocksAll, List.flatMap_append, List.append_assoc] at happend ⊢
    exact happend.trans ((List.perm_append_comm_assoc _ _ _).append_left _)

end

variable {ns : List Node} {m : Marker} {p : Marker × Marker}

theorem mem_markersAll_iff : m ∈ markersAll ns ↔ m ∈ straysAll ns ∨ ∃ p ∈ blocksAll ns, m = p.1 ∨ m = p.2 := by
  rw [(markersAll_perm ns).mem_iff]
  simp

/-- Where every marker stands once, no marker is in two places of the tree. -/
theorem nodup_of_nodup_markersAll (h : (markersAll ns).Nodup) :
    (straysAll ns).Nodup ∧ (blocksAll ns).Nodup ∧
      ∀ m ∈ straysAll ns, ∀ p ∈ blocksAll ns, m ≠ p.1 ∧ m ≠ p.2 := by
  obtain ⟨hstrays, hblocks, hdisjoint⟩ := List.nodup_append.1 ((markersAll_perm ns).nodup_iff.1 h)
  refine ⟨hstrays, ?_, fun m hm p hp => ?_⟩
  · refine (List.nodup_flatMap.1 hblocks).2.imp ?_
    rintro p _ hpq rfl
    exact hpq (List.mem_cons_self (a := p.1)) List.mem_cons_self
  · have hmem : ∀ x ∈ [p.1, p.2], m ≠ x := fun x hx => hdisjoint m hm x (List.mem_flatMap.2 ⟨p, hp, hx⟩)
    exact ⟨hmem _ (by simp), hmem _ (by simp)⟩

end Node

/-! ### Builders -/

namespace Builder

variable {frames : List Frame} {level : List Node} {closer : Marker} {b : Builder}

/-- What is put into the innermost level comes last. -/
theorem finish_append (frames : List Frame) (new level : List Node) :
    finish frames (new ++ level) = finish frames level ++ new.reverse := by
  induction frames generalizing new level with
  | nil => simp [finish]
  | cons frame frames ih =>
    obtain ⟨opener, before⟩ := frame
    rw [finish, finish, List.append_assoc, ih]

theorem finish_cons (frames : List Frame) (n : Node) (level : List Node) :
    finish frames (n :: level) = finish frames level ++ [n] := finish_append frames [n] level

theorem finish_frame (frames : List Frame) (opener : Marker) (before level : List Node) :
    finish ((opener, before) :: frames) level = finish frames before ++ .stray opener :: level.reverse := by
  rw [finish, finish_append, finish_cons]
  simp

theorem close?_eq_none_iff : close? closer frames level = none ↔ ∀ f ∈ frames, ¬ f.1.opens closer := by
  induction frames generalizing level with
  | nil => simp [close?]
  | cons frame frames ih =>
    obtain ⟨opener, before⟩ := frame
    rw [close?]
    split
    case isTrue hopens => simp [hopens]
    case isFalse hopens => simp [ih, hopens]

/-- A closing marker finds the innermost frame that it closes. What stood behind that frame's marker
becomes the block, the markers of the frames inside it being strays of it. -/
theorem close?_eq_some (h : close? closer frames level = some b) :
    ∃ inner opener before children, frames = inner ++ (opener, before) :: b.1 ∧ opener.opens closer ∧
      (∀ f ∈ inner, ¬ f.1.opens closer) ∧
      finish frames level = finish b.1 before ++ .stray opener :: children ∧
      finish b.1 b.2 = finish b.1 before ++ [.block opener children closer] := by
  induction frames generalizing level with
  | nil => simp [close?] at h
  | cons frame frames ih =>
    obtain ⟨opener, before⟩ := frame
    rw [close?] at h
    split at h
    case isTrue hopens =>
      obtain rfl := Option.some.inj h
      exact ⟨[], opener, before, level.reverse, rfl, hopens, by simp, finish_frame _ _ _ _, finish_cons _ _ _⟩
    case isFalse hopens =>
      obtain ⟨inner, o, before', children, rfl, ho, hinner, hfinish, hblock⟩ := ih h
      refine ⟨(opener, before) :: inner, o, before', children, rfl, ho, ?_, ?_, hblock⟩
      · exact List.forall_mem_cons.2 ⟨hopens, hinner⟩
      · rw [finish, hfinish]

end Builder

/-! ### Partners -/

variable {ms : List Marker} {B : List (Marker × Marker)} {m c : Marker} {x y : Nat}

/-- At this place the marker's block could still be open: no block has closed over it. -/
def Free (B : List (Marker × Marker)) (m : Marker) (x : Nat) : Prop :=
  m.start < x ∧ ∀ p ∈ B, ¬ (p.1.start ≤ m.start ∧ m.start < p.2.start ∧ p.2.start < x)

/-- A closing marker may close the block of this one. -/
def MayClose (ms : List Marker) (B : List (Marker × Marker)) (m c : Marker) : Prop :=
  m ∈ ms ∧ m.opens c ∧ Free B m c.start

/-- The last of the markers whose blocks a closing marker may close is its partner. -/
def Partners (ms : List Marker) (B : List (Marker × Marker)) (m c : Marker) : Prop :=
  MayClose ms B m c ∧ ∀ m', MayClose ms B m' c → m'.start ≤ m.start

/-- Only the blocks closed before a place count for what is free there. -/
theorem free_congr {B' : List (Marker × Marker)} (h : ∀ p, p.2.start < x → (p ∈ B' ↔ p ∈ B)) :
    Free B' m x ↔ Free B m x := by
  refine and_congr_right fun _ => ⟨fun hfree p hp hover => ?_, fun hfree p hp hover => ?_⟩
  · exact hfree p ((h p hover.2.2).2 hp) hover
  · exact hfree p ((h p hover.2.2).1 hp) hover

theorem free_iff_of_le (hB : ∀ p ∈ B, p.2.start < x) (hm : m.start < x) (hxy : x ≤ y) :
    Free B m y ↔ Free B m x := by
  refine ⟨fun h => ⟨hm, fun p hp hover => ?_⟩, fun h => ⟨by omega, fun p hp hover => ?_⟩⟩
  · exact h.2 p hp ⟨hover.1, hover.2.1, by omega⟩
  · exact h.2 p hp ⟨hover.1, hover.2.1, hB p hp⟩

/-- A later marker, and the block that it closes, change nothing for the markers before it. -/
theorem partners_congr {B' : List (Marker × Marker)} (h : ∀ p, p.2.start < x → (p ∈ B' ↔ p ∈ B))
    (hx : x ≤ c.start) {c' : Marker} (hc' : c'.start < x) :
    Partners (ms ++ [c]) B' m c' ↔ Partners ms B m c' := by
  have hmay : ∀ m, MayClose (ms ++ [c]) B' m c' ↔ MayClose ms B m c' := by
    intro m
    have hfree : Free B' m c'.start ↔ Free B m c'.start := free_congr fun p hp => h p (hp.trans hc')
    simp only [MayClose, hfree, List.mem_append, List.mem_singleton, or_and_right, or_iff_left_iff_imp]
    rintro ⟨rfl, -, hlater⟩
    have hlt := hlater.1
    omega
  simp only [Partners, hmay]

theorem opener?_of_opens (h : m.opens c) : m.token.kind.opener? = none ∧ c.token.kind.opener? ≠ none := by
  simp only [Marker.opens, Bool.and_eq_true, beq_iff_eq] at h
  obtain ⟨hkind, -⟩ := h
  rw [hkind]
  refine ⟨?_, nofun⟩
  revert hkind
  cases c.token.kind <;> cases m.token.kind <;> decide

/-- The nodes of a builder in order, as if the text ended there. -/
def Builder.tree (b : Builder) : List Node := Builder.finish b.1 b.2

/-- What has been built of the opening and closing markers that start before a place: the markers are all in
the tree, those of the open frames are the free ones, and the blocks are the pairs of partners. -/
structure Paired (ms : List Marker) (x : Nat) (b : Builder) : Prop where
  before : ∀ m ∈ ms, m.start < x
  markers : Node.markersAll b.tree = ms
  inward : (b.1.map (·.1)).Pairwise fun m n => n.start < m.start
  frames : ∀ m, m ∈ b.1.map (·.1) ↔ m ∈ ms ∧ m.token.kind.opener? = none ∧ Free (Node.blocksAll b.tree) m x
  partners : ∀ m, ∀ c ∈ ms, (m, c) ∈ Node.blocksAll b.tree ↔ Partners ms (Node.blocksAll b.tree) m c

namespace Paired

variable {b b' : Builder}

theorem nil : Paired [] 0 ([], []) where
  before := nofun
  markers := rfl
  inward := .nil
  frames := by simp
  partners := nofun

theorem mem_of_mem_blocks (h : Paired ms x b) {p : Marker × Marker} (hp : p ∈ Node.blocksAll b.tree) :
    p.1 ∈ ms ∧ p.2 ∈ ms := by
  rw [← h.markers, Node.mem_markersAll_iff, Node.mem_markersAll_iff]
  exact ⟨.inr ⟨p, hp, .inl rfl⟩, .inr ⟨p, hp, .inr rfl⟩⟩

theorem blocks_before (h : Paired ms x b) : ∀ p ∈ Node.blocksAll b.tree, p.2.start < x :=
  fun _ hp => h.before _ (h.mem_of_mem_blocks hp).2

theorem mono (h : Paired ms x b) (hxy : x ≤ y) : Paired ms y b where
  before m hm := (h.before m hm).trans_le hxy
  markers := h.markers
  inward := h.inward
  frames m := by
    rw [h.frames]
    refine and_congr_right fun hm => and_congr_right fun _ => ?_
    rw [free_iff_of_le h.blocks_before (h.before m hm) hxy]
  partners := h.partners

/-- Nodes without markers change nothing. -/
theorem plain (h : Paired ms x b) {n : Node} (hmarkers : n.markers = []) (hblocks : n.blocks = []) :
    Paired ms x (b.1, n :: b.2) := by
  have hm : Node.markersAll (Builder.tree (b.1, n :: b.2)) = Node.markersAll b.tree := by
    simp [Builder.tree, Builder.finish_cons, Node.markersAll, hmarkers]
  have hB : Node.blocksAll (Builder.tree (b.1, n :: b.2)) = Node.blocksAll b.tree := by
    simp [Builder.tree, Builder.finish_cons, Node.blocksAll, hblocks]
  exact ⟨h.before, hm ▸ h.markers, h.inward, hB ▸ h.frames, hB ▸ h.partners⟩

section Marker

variable (h : Paired ms x b) (hx : x ≤ c.start)
include h hx

theorem before_append : ∀ m ∈ ms ++ [c], m.start < c.start + 1 := by
  simp only [List.mem_append, List.mem_singleton]
  rintro m (hm | rfl)
  · have hlt := h.before m hm
    omega
  · exact Nat.lt_succ_self _

theorem notMem_blocks (m : Marker) : (m, c) ∉ Node.blocksAll b.tree := fun hmem =>
  absurd (h.blocks_before _ hmem) (Nat.not_lt.2 hx)

theorem free_iff (hm : m ∈ ms) :
    Free (Node.blocksAll b.tree) m (c.start + 1) ↔ Free (Node.blocksAll b.tree) m x :=
  free_iff_of_le h.blocks_before (h.before m hm) (Nat.le_succ_of_le hx)

/-- The pairs of earlier markers stay. -/
theorem partners_append {B' : List (Marker × Marker)} {c' : Marker} (hc' : c' ∈ ms)
    (hB : ∀ p, p.2.start < c.start → (p ∈ B' ↔ p ∈ Node.blocksAll b.tree)) (m : Marker) :
    (m, c') ∈ B' ↔ Partners (ms ++ [c]) B' m c' := by
  have hlt := h.before c' hc'
  rw [partners_congr (fun p hp => hB p (hp.trans_le hx)) hx hlt, ← h.partners m c' hc']
  exact hB (m, c') (hlt.trans_le hx)

/-- The markers that a closing marker may close are those of the frames. -/
theorem mayClose_iff {B' : List (Marker × Marker)}
    (hB : ∀ p, p.2.start < c.start → (p ∈ B' ↔ p ∈ Node.blocksAll b.tree)) :
    MayClose (ms ++ [c]) B' m c ↔ m ∈ b.1.map (·.1) ∧ m.opens c := by
  have hne : m.start < c.start → m ≠ c := by
    rintro hlt rfl
    exact absurd hlt (Nat.lt_irrefl _)
  have hfree : m ∈ ms → (Free B' m c.start ↔ Free (Node.blocksAll b.tree) m x) := fun hm => by
    rw [free_congr hB, free_iff_of_le h.blocks_before (h.before m hm) hx]
  rw [h.frames, MayClose, List.mem_append, List.mem_singleton]
  constructor
  · rintro ⟨hm, hopens, hlater⟩
    have hm := hm.resolve_right (hne hlater.1)
    exact ⟨⟨hm, (opener?_of_opens hopens).1, (hfree hm).1 hlater⟩, hopens⟩
  · rintro ⟨⟨hm, -, hlater⟩, hopens⟩
    exact ⟨.inl hm, hopens, (hfree hm).2 hlater⟩

/-- An opening marker opens a frame. -/
theorem opening (hkind : c.token.kind.opener? = none) :
    Paired (ms ++ [c]) (c.start + 1) ((c, b.2) :: b.1, []) := by
  have htree : Builder.tree ((c, b.2) :: b.1, []) = b.tree ++ [.stray c] := Builder.finish_frame _ _ _ _
  have hB : Node.blocksAll (Builder.tree ((c, b.2) :: b.1, [])) = Node.blocksAll b.tree := by
    simp [htree, Node.blocksAll, Node.blocks]
  refine ⟨before_append h hx, ?_, ?_, ?_, ?_⟩
  · simp [htree, h.markers, Node.markersAll, Node.markers]
  · refine List.pairwise_cons.2 ⟨fun m hm => ?_, h.inward⟩
    exact (h.before m ((h.frames m).1 hm).1).trans_le hx
  · intro m
    rw [hB, List.map_cons, List.mem_cons, h.frames, List.mem_append, List.mem_singleton]
    constructor
    · rintro (rfl | ⟨hm, hopener, hlater⟩)
      · refine ⟨.inr rfl, hkind, Nat.lt_succ_self _, fun p hp hover => ?_⟩
        have hlt := h.blocks_before p hp
        omega
      · exact ⟨.inl hm, hopener, (free_iff h hx hm).2 hlater⟩
    · rintro ⟨hm | rfl, hopener, hlater⟩
      · exact .inr ⟨hm, hopener, (free_iff h hx hm).1 hlater⟩
      · exact .inl rfl
  · rw [hB]
    intro m c' hc'
    rcases List.mem_append.1 hc' with hc' | hc'
    · exact partners_append h hx hc' (fun _ _ => Iff.rfl) m
    · obtain rfl := List.mem_singleton.1 hc'
      refine iff_of_false (notMem_blocks h hx m) fun hpartners => ?_
      exact (opener?_of_opens hpartners.1.2.1).2 hkind

/-- A closing marker that no frame waits for is a stray. -/
theorem stray (hnone : ∀ f ∈ b.1, ¬ f.1.opens c) (hkind : c.token.kind.opener? ≠ none) :
    Paired (ms ++ [c]) (c.start + 1) (b.1, .stray c :: b.2) := by
  have htree : Builder.tree (b.1, .stray c :: b.2) = b.tree ++ [.stray c] := Builder.finish_cons _ _ _
  have hB : Node.blocksAll (Builder.tree (b.1, .stray c :: b.2)) = Node.blocksAll b.tree := by
    simp [htree, Node.blocksAll, Node.blocks]
  refine ⟨before_append h hx, ?_, h.inward, ?_, ?_⟩
  · simp [htree, h.markers, Node.markersAll, Node.markers]
  · intro m
    rw [hB, h.frames, List.mem_append, List.mem_singleton]
    constructor
    · rintro ⟨hm, hopener, hlater⟩
      exact ⟨.inl hm, hopener, (free_iff h hx hm).2 hlater⟩
    · rintro ⟨hm | rfl, hopener, hlater⟩
      · exact ⟨hm, hopener, (free_iff h hx hm).1 hlater⟩
      · exact absurd hopener hkind
  · rw [hB]
    intro m c' hc'
    rcases List.mem_append.1 hc' with hc' | hc'
    · exact partners_append h hx hc' (fun _ _ => Iff.rfl) m
    · obtain rfl := List.mem_singleton.1 hc'
      refine iff_of_false (notMem_blocks h hx m) fun hpartners => ?_
      obtain ⟨hm, hopens⟩ := (mayClose_iff h hx fun _ _ => Iff.rfl).1 hpartners.1
      obtain ⟨f, hf, rfl⟩ := List.mem_map.1 hm
      exact hnone f hf hopens

/-- A closing marker makes a block of the innermost frame that waits for it. -/
theorem closing (hclose : Builder.close? c b.1 b.2 = some b') : Paired (ms ++ [c]) (c.start + 1) b' := by
  obtain ⟨inner, o, before, children, hframes, hopens, hinner, htree, htree'⟩ := Builder.close?_eq_some hclose
  obtain ⟨-, hkind⟩ := opener?_of_opens hopens
  have hmem : ∀ p, p ∈ Node.blocksAll b'.tree ↔ p ∈ Node.blocksAll b.tree ∨ p = (o, c) := by
    intro p
    simp only [Builder.tree, htree, htree', Node.blocksAll_append, Node.blocksAll, Node.blocks, List.mem_append,
      List.mem_cons, List.append_nil, List.nil_append]
    tauto
  have hsame : ∀ p, p.2.start < c.start → (p ∈ Node.blocksAll b'.tree ↔ p ∈ Node.blocksAll b.tree) := by
    intro p hp
    rw [hmem, or_iff_left_iff_imp]
    rintro rfl
    exact absurd hp (Nat.lt_irrefl _)
  have hinward := h.inward
  rw [hframes, List.map_append, List.map_cons, List.pairwise_append, List.pairwise_cons] at hinward
  obtain ⟨-, ⟨houter, hinward'⟩, hlast⟩ := hinward
  have hframe : ∀ m, m ∈ b.1.map (·.1) ↔ m ∈ inner.map (·.1) ∨ m = o ∨ m ∈ b'.1.map (·.1) := by
    simp [hframes]
  refine ⟨before_append h hx, ?_, hinward', ?_, ?_⟩
  · rw [← h.markers]
    simp [Builder.tree, htree, htree', Node.markersAll, Node.markers]
  · intro m
    rw [List.mem_append, List.mem_singleton]
    constructor
    · intro hm
      obtain ⟨hms, hopener, hfree⟩ := (h.frames m).1 ((hframe m).2 (.inr (.inr hm)))
      have hlt := h.before m hms
      refine ⟨.inl hms, hopener, by omega, fun p hp hover => ?_⟩
      rcases (hmem p).1 hp with hp | rfl
      · exact hfree.2 p hp ⟨hover.1, hover.2.1, h.blocks_before p hp⟩
      · exact absurd hover.1 (Nat.not_le.2 (houter m hm))
    · rintro ⟨hms | rfl, hopener, hfree⟩
      · have hlt := h.before m hms
        have hout : m.start < o.start := by
          have hover := hfree.2 (o, c) ((hmem _).2 (.inr rfl))
          dsimp only at hover
          omega
        have hfree' : Free (Node.blocksAll b.tree) m x := ⟨hlt, fun p hp hover =>
          hfree.2 p ((hmem p).2 (.inl hp)) ⟨hover.1, hover.2.1, by omega⟩⟩
        rcases (hframe m).1 ((h.frames m).2 ⟨hms, hopener, hfree'⟩) with hm | rfl | hm
        · exact absurd hout (Nat.not_lt.2 (hlast m hm o List.mem_cons_self).le)
        · exact absurd hout (Nat.lt_irrefl _)
        · exact hm
      · exact absurd hopener hkind
  · intro m c' hc'
    rcases List.mem_append.1 hc' with hc' | hc'
    · exact partners_append h hx hc' hsame m
    · obtain rfl := List.mem_singleton.1 hc'
      have hmay : ∀ m, MayClose (ms ++ [c']) (Node.blocksAll b'.tree) m c' ↔ m ∈ b.1.map (·.1) ∧ m.opens c' :=
        fun m => mayClose_iff h hx hsame
      rw [hmem, or_iff_right (notMem_blocks h hx m), Prod.mk.injEq, and_iff_left rfl, Partners]
      simp only [hmay, hframe]
      constructor
      · rintro rfl
        refine ⟨⟨.inr (.inl rfl), hopens⟩, ?_⟩
        rintro m' ⟨hm' | rfl | hm', hopens'⟩
        · obtain ⟨f, hf, rfl⟩ := List.mem_map.1 hm'
          exact absurd hopens' (hinner f hf)
        · exact le_refl _
        · exact (houter m' hm').le
      · rintro ⟨⟨hm | rfl | hm, hopens'⟩, hmax⟩
        · obtain ⟨f, hf, rfl⟩ := List.mem_map.1 hm
          exact absurd hopens' (hinner f hf)
        · rfl
        · exact absurd (hmax o ⟨.inr (.inl rfl), hopens⟩) (Nat.not_le.2 (houter m hm))

end Marker

end Paired

/-! ### The tree of a text -/

def Marker.isScalar (m : Marker) : Bool := m.token.kind == .scalar

theorem pairwise_markers (s : Text) : (markers s).Pairwise fun m n => m.start < n.start := by
  have hplaces := pairwise_places 0 (Token.read?.findAll s).1
  rw [places_eq_map _ _ (Token.read?.findAll s).2, List.pairwise_map] at hplaces
  refine hplaces.imp fun {m n} hle => ?_
  have hpos := List.length_pos_iff.2 m.token.text_ne_nil
  simp only [Marker.stop] at hle
  omega

namespace Paired

variable {b : Builder}

theorem literal (h : Paired ms x b) (s : Text) (n : Nat) : Paired ms x (b.add (.literal s n)) :=
  h.plain (by rw [Node.markers]) (by rw [Node.blocks])

theorem token (h : Paired ms x b) (t : Token) {n : Nat} (hx : x ≤ n) :
    Paired (ms ++ [⟨t, n⟩].filter (!·.isScalar)) (n + 1) (b.add (.token t n)) := by
  have hclosing : t.kind.opener? ≠ none →
      Paired (ms ++ [⟨t, n⟩]) (n + 1) ((Builder.close? ⟨t, n⟩ b.1 b.2).getD (b.1, .stray ⟨t, n⟩ :: b.2)) := by
    intro hkind
    cases hclose : Builder.close? ⟨t, n⟩ b.1 b.2 with
    | none => exact h.stray hx (Builder.close?_eq_none_iff.1 hclose) hkind
    | some b' => exact h.closing hx hclose
  obtain ⟨kind, key⟩ := t
  cases kind with
  | scalar =>
    have hplain := h.plain (n := .scalar key) (by rw [Node.markers]) (by rw [Node.blocks])
    simpa [Marker.isScalar, Builder.add] using hplain.mono (by omega : x ≤ n + 1)
  | condOpen | loopOpen => exact h.opening hx rfl
  | condClose | loopClose => exact hclosing (Option.some_ne_none _)

theorem foldl (h : Paired ms x b) {ps : List Span} (hx : ∀ m ∈ ps.filterMap Span.marker?, x ≤ m.start)
    (hps : (ps.filterMap Span.marker?).Pairwise fun m n => m.start < n.start) :
    ∃ y, Paired (ms ++ (ps.filterMap Span.marker?).filter (!·.isScalar)) y (ps.foldl Builder.add b) := by
  induction ps generalizing ms x b with
  | nil => exact ⟨x, by simpa using h⟩
  | cons p ps ih =>
    cases p with
    | literal s n => exact ih (h.literal s n) hx hps
    | token t n =>
      obtain ⟨hfirst, hps⟩ := List.pairwise_cons.1 hps
      obtain ⟨y, hrest⟩ := ih (h.token t (hx _ List.mem_cons_self)) hfirst hps
      refine ⟨y, ?_⟩
      rwa [List.append_assoc, ← List.filter_append] at hrest

end Paired

/-- A scalar opens nothing and closes nothing. -/
theorem isScalar_of_opens (h : m.opens c) : m.isScalar = false ∧ c.isScalar = false := by
  obtain ⟨hm, hc⟩ := opener?_of_opens h
  simp only [Marker.opens, Bool.and_eq_true, beq_iff_eq] at h
  obtain ⟨hkind, -⟩ := h
  simp only [Marker.isScalar, beq_eq_false_iff_ne]
  constructor
  · intro hscalar
    rw [hscalar] at hkind
    revert hkind
    cases c.token.kind <;> decide
  · intro hscalar
    rw [hscalar] at hkind
    cases hkind

/-- The tree of a text holds its opening and closing markers in order, and its blocks are the partners. -/
theorem parse_paired (s : Text) :
    Node.markersAll (parse s) = (markers s).filter (!·.isScalar) ∧
      ∀ m, ∀ c ∈ markers s,
        ((m, c) ∈ Node.blocksAll (parse s) ↔ Partners (markers s) (Node.blocksAll (parse s)) m c) := by
  obtain ⟨y, h⟩ : ∃ y, Paired ((markers s).filter (!·.isScalar)) y ((scan s).foldl Builder.add ([], [])) :=
    Paired.nil.foldl (fun _ _ => Nat.zero_le _) (pairwise_markers s)
  have hparse : Builder.tree ((scan s).foldl Builder.add ([], [])) = parse s := rfl
  have hmarkers := h.markers
  have hpartners := h.partners
  rw [hparse] at hmarkers hpartners
  have hmay : ∀ m c, MayClose ((markers s).filter (!·.isScalar)) (Node.blocksAll (parse s)) m c ↔
      MayClose (markers s) (Node.blocksAll (parse s)) m c := by
    intro m c
    simp only [MayClose, List.mem_filter, and_assoc, Bool.not_eq_true']
    refine and_congr_right fun _ => ⟨fun h => h.2, fun h => ⟨(isScalar_of_opens h.1).1, h⟩⟩
  refine ⟨hmarkers, fun m c hc => ?_⟩
  by_cases hscalar : c.isScalar
  · refine iff_of_false (fun hmem => ?_) fun hpartners => ?_
    · have hc' : c ∈ Node.markersAll (parse s) := Node.mem_markersAll_iff.2 (.inr ⟨_, hmem, .inr rfl⟩)
      rw [hmarkers, List.mem_filter] at hc'
      simp [hscalar] at hc'
    · simp [(isScalar_of_opens hpartners.1.2.1).2] at hscalar
  · rw [hpartners m c (List.mem_filter.2 ⟨hc, by simpa using hscalar⟩)]
    simp only [Partners, hmay]

/-! ### Numbered tokens -/

section Numbered

variable {s : Text} {i j k : Nat}

/-- The tokens of these numbers are the markers of a block. -/
def IsBlock (s : Text) (i j : Nat) : Prop :=
  ∃ m c, (markers s)[i]? = some m ∧ (markers s)[j]? = some c ∧ (m, c) ∈ Node.blocksAll (parse s)

/-- The token of this number is a stray. -/
def IsStray (s : Text) (k : Nat) : Prop := ∃ m, (markers s)[k]? = some m ∧ m ∈ Node.straysAll (parse s)

/-- One token could be closed by another: it comes before it, is of its kind and key, and no block that
starts no later ends between them. -/
def IsOpenAt (s : Text) (i j : Nat) : Prop :=
  i < j ∧ (∃ m c, (markers s)[i]? = some m ∧ (markers s)[j]? = some c ∧ m.opens c) ∧
    ∀ i' j', IsBlock s i' j' → ¬ (i' ≤ i ∧ i < j' ∧ j' < j)

theorem start_lt_iff {m c : Marker} (hm : (markers s)[i]? = some m) (hc : (markers s)[j]? = some c) :
    m.start < c.start ↔ i < j := by
  obtain ⟨hi, rfl⟩ := List.getElem?_eq_some_iff.1 hm
  obtain ⟨hj, rfl⟩ := List.getElem?_eq_some_iff.1 hc
  have hlt := List.pairwise_iff_getElem.1 (pairwise_markers s)
  rcases Nat.lt_trichotomy i j with h | rfl | h
  · exact iff_of_true (hlt i j hi hj h) h
  · simp
  · exact iff_of_false (Nat.lt_asymm (hlt j i hj hi h)) (Nat.lt_asymm h)

/-- Every block has two numbers. -/
theorem exists_isBlock {p : Marker × Marker} (hp : p ∈ Node.blocksAll (parse s)) :
    ∃ i j : Nat, (markers s)[i]? = some p.1 ∧ (markers s)[j]? = some p.2 := by
  have hmem : ∀ m ∈ Node.markersAll (parse s), ∃ i : Nat, (markers s)[i]? = some m := by
    intro m hm
    rw [(parse_paired s).1, List.mem_filter] at hm
    exact List.mem_iff_getElem?.1 hm.1
  obtain ⟨i, hi⟩ := hmem _ (Node.mem_markersAll_iff.2 (.inr ⟨p, hp, .inl rfl⟩))
  obtain ⟨j, hj⟩ := hmem _ (Node.mem_markersAll_iff.2 (.inr ⟨p, hp, .inr rfl⟩))
  exact ⟨i, j, hi, hj⟩

theorem isOpenAt_iff {m c : Marker} (hm : (markers s)[i]? = some m) (hc : (markers s)[j]? = some c) :
    IsOpenAt s i j ↔ MayClose (markers s) (Node.blocksAll (parse s)) m c := by
  have hopens : (∃ m c, (markers s)[i]? = some m ∧ (markers s)[j]? = some c ∧ m.opens c) ↔ m.opens c := by
    simp [hm, hc]
  have hover : (∀ i' j', IsBlock s i' j' → ¬ (i' ≤ i ∧ i < j' ∧ j' < j)) ↔
      ∀ p ∈ Node.blocksAll (parse s), ¬ (p.1.start ≤ m.start ∧ m.start < p.2.start ∧ p.2.start < c.start) := by
    constructor
    · intro h p hp
      obtain ⟨i', j', hi', hj'⟩ := exists_isBlock hp
      rw [← Nat.not_lt, start_lt_iff hm hi', start_lt_iff hm hj', start_lt_iff hj' hc, Nat.not_lt]
      exact h i' j' ⟨p.1, p.2, hi', hj', hp⟩
    · rintro h i' j' ⟨o, e, hi', hj', hp⟩
      rw [← Nat.not_lt, ← start_lt_iff hm hi', ← start_lt_iff hm hj', ← start_lt_iff hj' hc, Nat.not_lt]
      exact h (o, e) hp
  rw [IsOpenAt, MayClose, Free, hopens, hover, start_lt_iff hm hc,
    and_iff_right (List.mem_of_getElem? hm)]
  exact and_left_comm

/-- A block's closing marker closes the last open marker of its kind and key. -/
theorem isBlock_iff (s : Text) (i j : Nat) :
    IsBlock s i j ↔ IsOpenAt s i j ∧ ∀ i', IsOpenAt s i' j → i' ≤ i := by
  constructor
  · rintro ⟨m, c, hm, hc, hblock⟩
    obtain ⟨hopen, hlast⟩ := ((parse_paired s).2 m c (List.mem_of_getElem? hc)).1 hblock
    refine ⟨(isOpenAt_iff hm hc).2 hopen, fun i' hi' => ?_⟩
    obtain ⟨m', c', hm', hc', -⟩ := hi'.2.1
    obtain rfl := Option.some.inj (hc.symm.trans hc')
    rw [← Nat.not_lt, ← start_lt_iff hm hm', Nat.not_lt]
    exact hlast m' ((isOpenAt_iff hm' hc).1 hi')
  · rintro ⟨hopen, hlast⟩
    obtain ⟨m, c, hm, hc, -⟩ := hopen.2.1
    refine ⟨m, c, hm, hc, ((parse_paired s).2 m c (List.mem_of_getElem? hc)).2
      ⟨(isOpenAt_iff hm hc).1 hopen, fun m' hm' => ?_⟩⟩
    obtain ⟨i', hi'⟩ := List.mem_iff_getElem?.1 hm'.1
    rw [← Nat.not_lt, start_lt_iff hm hi', Nat.not_lt]
    exact hlast i' ((isOpenAt_iff hi' hc).2 hm')

theorem nodup_markersAll_parse (s : Text) : (Node.markersAll (parse s)).Nodup := by
  have hdistinct : (markers s).Nodup := (pairwise_markers s).imp fun {m n} hlt => by
    rintro rfl
    exact absurd hlt (Nat.lt_irrefl _)
  rw [(parse_paired s).1]
  exact hdistinct.filter _

/-- An opening or closing marker that is in no block is a stray. -/
theorem isStray_iff (s : Text) (k : Nat) :
    IsStray s k ↔ (∃ m, (markers s)[k]? = some m ∧ m.token.kind ≠ .scalar) ∧
      ∀ i, ¬ IsBlock s i k ∧ ¬ IsBlock s k i := by
  obtain ⟨-, -, hapart⟩ := Node.nodup_of_nodup_markersAll (nodup_markersAll_parse s)
  have hmem : ∀ m ∈ markers s, m ∈ Node.markersAll (parse s) ↔ m.token.kind ≠ .scalar := by
    intro m hm
    rw [(parse_paired s).1, List.mem_filter, and_iff_right hm]
    simp [Marker.isScalar]
  constructor
  · rintro ⟨m, hm, hstray⟩
    refine ⟨⟨m, hm, (hmem m (List.mem_of_getElem? hm)).1 (Node.mem_markersAll_iff.2 (.inl hstray))⟩,
      fun i => ⟨?_, ?_⟩⟩
    · rintro ⟨o, c, -, hc, hblock⟩
      exact (hapart m hstray _ hblock).2 (Option.some.inj (hm.symm.trans hc))
    · rintro ⟨o, c, ho, -, hblock⟩
      exact (hapart m hstray _ hblock).1 (Option.some.inj (hm.symm.trans ho))
  · rintro ⟨⟨m, hm, hkind⟩, hfree⟩
    refine ⟨m, hm, ?_⟩
    rcases Node.mem_markersAll_iff.1 ((hmem m (List.mem_of_getElem? hm)).2 hkind) with hstray | ⟨p, hp, hmp⟩
    · exact hstray
    · obtain ⟨i, j, hi, hj⟩ := exists_isBlock hp
      rcases hmp with rfl | rfl
      · exact absurd ⟨p.1, p.2, hm, hj, hp⟩ (hfree j).2
      · exact absurd ⟨p.1, p.2, hi, hm, hp⟩ (hfree i).1

/-- No token both opens a block and closes one. -/
theorem IsBlock.ne (h : IsBlock s i j) {i' j' : Nat} (h' : IsBlock s i' j') : i' ≠ j := by
  rintro rfl
  obtain ⟨-, ⟨m, c, -, hc, hopens⟩, -⟩ := ((isBlock_iff s i i').1 h).1
  obtain ⟨-, ⟨m', c', hm', -, hopens'⟩, -⟩ := ((isBlock_iff s i' j').1 h').1
  obtain rfl := Option.some.inj (hc.symm.trans hm')
  exact (opener?_of_opens hopens).2 (opener?_of_opens hopens').1

/-- A block that begins within another one also ends there. -/
theorem IsBlock.within (h : IsBlock s i j) {i' j' : Nat} (h' : IsBlock s i' j') (hi : i < i') (hj : i' < j) :
    j' < j := by
  obtain ⟨-, hlast⟩ := (isBlock_iff s i j).1 h
  obtain ⟨hopen', -⟩ := (isBlock_iff s i' j').1 h'
  rcases Nat.lt_trichotomy j' j with hlt | rfl | hlt
  · exact hlt
  · exact absurd (hlast i' hopen') (Nat.not_le.2 hi)
  · exact absurd ⟨hi.le, hj, hlt⟩ (hopen'.2.2 i j h)

/-- Two blocks are apart, or one is within the other. -/
theorem IsBlock.nested (h : IsBlock s i j) {i' j' : Nat} (h' : IsBlock s i' j') :
    (i = i' ∧ j = j') ∨ j < i' ∨ j' < i ∨ (i < i' ∧ j' < j) ∨ (i' < i ∧ j < j') := by
  have hopen := ((isBlock_iff s i j).1 h).1
  have hopen' := ((isBlock_iff s i' j').1 h').1
  have hne := h.ne h'
  have hne' := h'.ne h
  rcases Nat.lt_trichotomy i i' with hlt | rfl | hlt
  · have hwithin := h.within h' hlt
    omega
  · have hover := hopen.2.2 i j' h'
    have hover' := hopen'.2.2 i j h
    have hi := hopen.1
    have hi' := hopen'.1
    omega
  · have hwithin := h'.within h hlt
    omega

/-- A closing marker that could close a block is no stray within it. -/
theorem IsBlock.not_isStray (h : IsBlock s i j) (hik : i < k) (hkj : k < j)
    (hopens : ∃ m c, (markers s)[i]? = some m ∧ (markers s)[k]? = some c ∧ m.opens c) : ¬ IsStray s k := by
  classical
  have hopen : IsOpenAt s i k := ⟨hik, hopens, fun i' j' h' hover =>
    ((isBlock_iff s i j).1 h).1.2.2 i' j' h' ⟨hover.1, hover.2.1, hover.2.2.trans hkj⟩⟩
  have hblock : IsBlock s (Nat.findGreatest (IsOpenAt s · k) k) k := by
    refine (isBlock_iff s _ k).2 ⟨Nat.findGreatest_spec (P := (IsOpenAt s · k)) hik.le hopen, fun i' hi' => ?_⟩
    exact Nat.le_findGreatest hi'.1.le hi'
  exact fun hstray => (((isStray_iff s k).1 hstray).2 _).1 hblock

end Numbered

/-! ### Nested blocks -/

/-- Spans in which blocks are properly nested: each one that opens is closed behind other such spans. -/
inductive Nested : List Span → Prop
  | nil : Nested []
  | literal {s : Text} {n : Nat} {ps : List Span} : Nested ps → Nested (.literal s n :: ps)
  | scalar {key : Text} {n : Nat} {ps : List Span} : Nested ps → Nested (.token ⟨.scalar, key⟩ n :: ps)
  | block {o c : Marker} {ps qs : List Span} : o.opens c → Nested ps → Nested qs →
    Nested (.token o.token o.start :: (ps ++ .token c.token c.start :: qs))

namespace Builder

variable {o c : Marker}

theorem add_opener (h : o.opens c) (b : Builder) : b.add (.token o.token o.start) = ((o, b.2) :: b.1, []) := by
  obtain ⟨hopener, -⟩ := opener?_of_opens h
  obtain ⟨hscalar, -⟩ := isScalar_of_opens h
  obtain ⟨⟨kind, key⟩, start⟩ := o
  cases kind with
  | scalar => simp [Marker.isScalar] at hscalar
  | condOpen | loopOpen => rfl
  | condClose | loopClose => cases hopener

theorem add_closer (h : o.opens c) (frames : List Frame) (before level : List Node) :
    add ((o, before) :: frames, level) (.token c.token c.start) =
      (frames, .block o level.reverse c :: before) := by
  obtain ⟨-, hopener⟩ := opener?_of_opens h
  obtain ⟨⟨kind, key⟩, start⟩ := c
  cases kind with
  | scalar | condOpen | loopOpen => exact absurd rfl hopener
  | condClose | loopClose => simp [add, close?, h]

end Builder

/-- Nested blocks leave the frames as they were, and no strays. -/
theorem Nested.foldl_add {ps : List Span} (h : Nested ps) (frames : List Frame) (level : List Node) :
    ∃ ns, ps.foldl Builder.add (frames, level) = (frames, ns.reverse ++ level) ∧ Node.straysAll ns = [] := by
  induction h generalizing frames level with
  | nil => exact ⟨[], rfl, rfl⟩
  | @literal s n ps _ ih =>
    obtain ⟨ns, hns, hstrays⟩ := ih frames (.literal s :: level)
    refine ⟨.literal s :: ns, ?_, by simpa [Node.straysAll, Node.strays] using hstrays⟩
    rw [List.foldl_cons, Builder.add, hns]
    simp
  | @scalar key n ps _ ih =>
    obtain ⟨ns, hns, hstrays⟩ := ih frames (.scalar key :: level)
    refine ⟨.scalar key :: ns, ?_, by simpa [Node.straysAll, Node.strays] using hstrays⟩
    rw [List.foldl_cons, Builder.add, hns]
    simp
  | @block o c ps qs hopens _ _ ihps ihqs =>
    obtain ⟨children, hchildren, hstrays⟩ := ihps ((o, level) :: frames) []
    obtain ⟨ns, hns, hstrays'⟩ := ihqs frames (.block o children c :: level)
    refine ⟨.block o children c :: ns, ?_, by simp [Node.straysAll, Node.strays, hstrays, hstrays']⟩
    rw [List.foldl_cons, Builder.add_opener hopens, List.foldl_append, hchildren, List.foldl_cons,
      Builder.add_closer hopens, List.append_nil, List.reverse_reverse, hns]
    simp

theorem straysAll_of_nested {s : Text} (h : Nested (scan s)) : Node.straysAll (parse s) = [] := by
  obtain ⟨ns, hns, hstrays⟩ := h.foldl_add [] []
  have hparse : parse s = Builder.tree ((scan s).foldl Builder.add ([], [])) := rfl
  rw [hparse, hns, Builder.tree, List.append_nil, Builder.finish, List.reverse_reverse, hstrays]

/-- The blocks of a text's tree are the pairs of an opening and a closing token of which the first is the
last one still open for the second, and all other opening and closing tokens are strays. Blocks are nested
or apart, a closing token within a block of its kind and key is no stray, and where blocks are properly
nested there are no strays. -/
theorem parse_pairing (s : Text) :
    (∀ p ∈ Node.blocksAll (parse s), ∃ i j : Nat, (markers s)[i]? = some p.1 ∧ (markers s)[j]? = some p.2 ∧
      IsBlock s i j) ∧
    (∀ m ∈ Node.straysAll (parse s), ∃ k : Nat, (markers s)[k]? = some m ∧ IsStray s k) ∧
    (Node.blocksAll (parse s)).Nodup ∧ (Node.straysAll (parse s)).Nodup ∧
    (∀ i j, IsBlock s i j ↔ IsOpenAt s i j ∧ ∀ i', IsOpenAt s i' j → i' ≤ i) ∧
    (∀ k, IsStray s k ↔ (∃ m, (markers s)[k]? = some m ∧ m.token.kind ≠ .scalar) ∧
      ∀ i, ¬ IsBlock s i k ∧ ¬ IsBlock s k i) ∧
    (∀ i j i' j', IsBlock s i j → IsBlock s i' j' →
      (i = i' ∧ j = j') ∨ j < i' ∨ j' < i ∨ (i < i' ∧ j' < j) ∨ (i' < i ∧ j < j')) ∧
    (∀ i j k, IsBlock s i j → i < k → k < j →
      (∃ m c, (markers s)[i]? = some m ∧ (markers s)[k]? = some c ∧ m.opens c) → ¬ IsStray s k) ∧
    (Nested (scan s) → Node.straysAll (parse s) = []) := by
  obtain ⟨hstrays, hblocks, -⟩ := Node.nodup_of_nodup_markersAll (nodup_markersAll_parse s)
  refine ⟨fun p hp => ?_, fun m hm => ?_, hblocks, hstrays, isBlock_iff s, isStray_iff s,
    fun i j i' j' h h' => h.nested h', fun i j k h hik hkj hopens => h.not_isStray hik hkj hopens,
    straysAll_of_nested⟩
  · obtain ⟨i, j, hi, hj⟩ := exists_isBlock hp
    exact ⟨i, j, hi, hj, p.1, p.2, hi, hj, hp⟩
  · have hmem := Node.mem_markersAll_iff.2 (.inl hm)
    rw [(parse_paired s).1, List.mem_filter] at hmem
    obtain ⟨k, hk⟩ := List.mem_iff_getElem?.1 hmem.1
    exact ⟨k, hk, m, hk, hm⟩

/-- A closing token for two opening ones, with another block begun in between. -/
def tangledText : Text := "\x7b?A\x7d\x7b?A\x7d\x7b#B\x7d\x7b/?A\x7d\x7b/B\x7d"

def nestedText : Text := "\x7b#B\x7d\x7b?A\x7dx\x7b/?A\x7d\x7b/B\x7d"

/-- The later opening token is closed, and the block that was begun behind it can no longer be. -/
theorem parse_pairing_tangled :
    IsBlock tangledText 1 3 ∧ (∀ i, IsOpenAt tangledText i 3 → i ≤ 1) ∧
      IsStray tangledText 2 ∧ (∀ i, ¬ IsBlock tangledText i 2 ∧ ¬ IsBlock tangledText 2 i) ∧
      Nested (scan nestedText) ∧ Node.straysAll (parse nestedText) = [] := by
  have hblock : IsBlock tangledText 1 3 :=
    ⟨⟨⟨.condOpen, "A"⟩, 4⟩, ⟨⟨.condClose, "A"⟩, 12⟩, by decide +kernel, by decide +kernel, by decide +kernel⟩
  have hstray : IsStray tangledText 2 := ⟨⟨⟨.loopOpen, "B"⟩, 8⟩, by decide +kernel, by decide +kernel⟩
  have hscan : scan nestedText = [.token ⟨.loopOpen, "B"⟩ 0, .token ⟨.condOpen, "A"⟩ 4, .literal "x" 8,
      .token ⟨.condClose, "A"⟩ 9, .token ⟨.loopClose, "B"⟩ 14] := by decide +kernel
  have hnested : Nested (scan nestedText) := by
    rw [hscan]
    have hinner : Nested [.token ⟨.condOpen, "A"⟩ 4, .literal "x" 8, .token ⟨.condClose, "A"⟩ 9] :=
      .block (o := ⟨⟨.condOpen, "A"⟩, 4⟩) (c := ⟨⟨.condClose, "A"⟩, 9⟩) (by decide) (.literal .nil) .nil
    exact .block (o := ⟨⟨.loopOpen, "B"⟩, 0⟩) (c := ⟨⟨.loopClose, "B"⟩, 14⟩) (by decide) hinner .nil
  obtain ⟨-, -, -, -, hblocks, hstrays, -, -, -⟩ := parse_pairing tangledText
  obtain ⟨-, -, -, -, -, -, -, -, hnone⟩ := parse_pairing nestedText
  exact ⟨hblock, ((hblocks 1 3).1 hblock).2, hstray, ((hstrays 2).1 hstray).2, hnested, hnone hnested⟩

end DeckMerge.Placeholder
