import DeckMerge.Proofs.Xml.Names
import DeckMerge.Proofs.Xml.Node

/-!
Nodes that read back as they are written. All content that is read without an error is made of such
nodes; written, it is content again, and it resolves to the same nodes.
-/

namespace DeckMerge.Xml

variable {es : Entities} {depth : Nat} {scope : Declarations} {ps : List Piece} {ts : List Tree}
  {ns : List Node} {s c d target : Text} {named : Bool}

/-! ### Marks of two characters -/

theorem ended_pair_iff {a b : Char} : Text.Ended [a, b] c ↔ ¬ [a, b] <:+: c ++ [a] := by
  constructor
  · rintro h ⟨u, v, huv⟩
    have hlength := h.leftmost u (v ++ [b]) (by rw [← List.append_assoc, huv]; simp)
    have := congrArg List.length huv
    simp only [List.length_append, List.length_cons, List.length_nil] at this
    omega
  · refine fun h => ⟨by simp, fun u v huv => ?_⟩
    by_contra hlength
    refine h ?_
    have hle : (u ++ [a, b]).length ≤ (c ++ [a]).length := by
      simp only [List.length_append, List.length_cons, List.length_nil]
      omega
    have hc : c ++ [a] <+: c ++ [a, b] := ⟨[b], by simp⟩
    have hu : u ++ [a, b] <+: c ++ [a, b] := ⟨v, huv.symm⟩
    exact (List.suffix_append u [a, b]).isInfix.trans (List.prefix_of_prefix_length_le hu hc hle).isInfix

theorem Ended.withLineFeeds {a b : Char} (ha : a ≠ '\r' ∧ a ≠ '\n') (hb : b ≠ '\r' ∧ b ≠ '\n')
    (h : Text.Ended [a, b] c) : Text.Ended [a, b] (Text.withLineFeeds c) := by
  rw [ended_pair_iff] at h ⊢
  have hline : Text.OneLine [a, b] := by simp [Text.OneLine, ha, hb]
  have happend : Text.withLineFeeds c ++ [a] = Text.withLineFeeds (c ++ [a]) := by
    rw [Text.withLineFeeds_append_cons ha.2, Text.withLineFeeds_cons ha.1]
    rfl
  rw [happend]
  exact mt hline.isInfix_of_withLineFeeds h

/-! ### Trees that may be written -/

/-- What is written behind an instruction's target. -/
def spaced (d : Text) : Text := if d = [] then [] else ' ' :: d

mutual

/-- Trees whose nodes may stand where they do, as deep as they lie. -/
def Tree.Proper : Nat → Tree → Prop
  | depth, .element name as children =>
    depth ≤ maxDepth ∧ ProperTag name as ∧ AllProper (depth + 1) children
  | _, .text s => s ≠ [] ∧ s.all isLegal
  | _, .comment c => IsComment c
  | _, .instruction target d => IsInstruction target (spaced d) ∧ skipSpace d = d

/-- Siblings of which no two texts meet. -/
def AllProper : Nat → List Tree → Prop
  | _, [] => True
  | depth, t :: ts => t.Proper depth ∧ (t.isText → ts.head?.any Tree.isText = false) ∧ AllProper depth ts

end

theorem AllProper.consText (h : AllProper depth ts) (hs : s.all isLegal) :
    AllProper depth (Tree.consText s ts) := by
  by_cases hhead : ts.head?.any Tree.isText
  · match ts, hhead with
    | .text t :: ts, _ =>
      obtain ⟨⟨hne, hlegal⟩, hnext, hts⟩ := h
      exact ⟨⟨by simp [hne], by rw [List.all_append, hs, hlegal]; rfl⟩, hnext, hts⟩
  · rw [Bool.not_eq_true] at hhead
    rw [Tree.consText_of_not_isText hhead]
    split
    case isTrue => exact h
    case isFalse hne => exact ⟨⟨hne, hs⟩, fun _ => hhead, h⟩

theorem AllProper.join {us : List Tree} (h : AllProper depth ts) (hus : AllProper depth us) :
    AllProper depth (Tree.join ts us) := by
  induction ts with
  | nil => exact hus
  | cons t ts ih =>
    obtain ⟨ht, -, hts⟩ := h
    cases t with
    | text s => exact (ih hts).consText ht.2
    | _ => exact ⟨ht, by simp [Tree.isText], ih hts⟩

theorem IsInstruction.spaced (h : IsInstruction target d) : IsInstruction target (spaced (skipSpace d)) := by
  obtain ⟨w, hw⟩ : ∃ w, d = w ++ skipSpace d := ⟨d.takeWhile isSpace, List.takeWhile_append_dropWhile.symm⟩
  have hended : ¬ ['?', '>'] <:+: d ++ ['?'] := ended_pair_iff.1 h.ended
  have hlegal := h.legal
  rw [hw] at hended hlegal
  rw [List.all_append, Bool.and_eq_true] at hlegal
  rw [Xml.spaced]
  split
  case isTrue => exact ⟨h.name, h.notReserved, ended_pair_iff.2 (by decide), rfl, .inl rfl⟩
  case isFalse =>
    refine ⟨h.name, h.notReserved, ended_pair_iff.2 fun hin => ?_, ?_, .inr rfl⟩
    · rw [List.cons_append, List.infix_cons_iff] at hin
      rcases hin with hin | hin
      · exact absurd (List.cons_prefix_cons.1 hin).1 (by decide)
      · refine hended (hin.trans ?_)
        rw [List.append_assoc]
        exact (List.suffix_append _ _).isInfix
    · rw [List.all_cons, hlegal.2]
      rfl

theorem skipSpace_skipSpace (d : Text) : skipSpace (skipSpace d) = skipSpace d := by
  cases h : skipSpace d with
  | nil => rfl
  | cons c t =>
    obtain ⟨-, -, -, hc⟩ := skipSpace_eq_cons h
    exact skipSpace_cons hc t

theorem Values.legal {quote : Option Char} {u v : Text} (h : Values es quote u v) : v.all isLegal := by
  induction h with
  | nil => rfl
  | @plain es quote c u v _ _ _ hc _ ih =>
    rw [List.all_cons, ih, Bool.and_true]
    split
    · decide
    · exact hc
  | char hu _ ih => rw [List.all_cons, ih, hu.legal]; rfl
  | entity _ _ _ _ ihx ih => rw [List.all_append, ihx, ih]; rfl

theorem TagRest.properTag {u name : Text} {as : List (Text × Text)} {isEmpty : Bool}
    (hname : isName name) (h : TagRest es u (as, isEmpty)) : ProperTag name as := by
  generalize hx : (as, isEmpty) = x at h
  induction h generalizing as with
  | opening | closed =>
    obtain ⟨rfl, -⟩ := Prod.mk.inj hx
    exact ⟨hname, by simp, by simp, List.nodup_nil⟩
  | @cons w u more a as' isEmpty' _ _ ha _ hunique ih =>
    obtain ⟨rfl, rfl⟩ := Prod.mk.inj hx
    have has := ih rfl
    cases ha with
    | @intro key w₁ w₂ u v q hkey _ _ _ hv =>
      refine ⟨hname, List.forall_mem_cons.2 ⟨hkey, has.names⟩,
        List.forall_mem_cons.2 ⟨hv.legal, has.legal⟩, List.nodup_cons.2 ⟨fun hmem => ?_, has.distinct⟩⟩
      obtain ⟨b, hb, heq⟩ := List.mem_map.1 hmem
      exact List.any_eq_false.1 hunique b hb (by simpa using heq)

/-- Content that has a derivation may be written. -/
theorem Laid.proper (h : Laid es depth ps ts) : AllProper depth ts := by
  induction h with
  | nil => trivial
  | comment hc _ ih => exact ⟨hc, by simp [Tree.isText], ih⟩
  | cdata hc _ ih => exact ih.consText hc.legal
  | instruction hd _ ih => exact ⟨⟨hd.spaced, skipSpace_skipSpace _⟩, by simp [Tree.isText], ih⟩
  | empty hdepth hname hu _ ih => exact ⟨⟨hdepth, hu.properTag hname, trivial⟩, by simp [Tree.isText], ih⟩
  | element hdepth hname hu _ _ _ ihinner ih =>
    exact ⟨⟨hdepth, hu.properTag hname, ihinner⟩, by simp [Tree.isText], ih⟩
  | char hu _ ih => exact ih.consText (by simpa using hu.legal)
  | entity _ _ _ _ ihinner ih => exact ihinner.join ih
  | data ht _ _ _ ih => exact ih.consText ht.legal

theorem LaidElement.proper {node : Tree} (h : LaidElement es depth ps node) (hdepth : depth ≤ maxDepth) :
    node.Proper depth := by
  have hlaid : Laid es depth ps [node] := by simpa using h.cons hdepth .nil
  exact hlaid.proper.1

/-! ### Nodes that read back -/

mutual

/-- A node with its names as they are written, as it is read back. -/
def Node.tree : Node → Tree
  | .element t ns => .element t.name.written t.pairs (trees ns)
  | .text s => .text s
  | .comment c => .comment c
  | .instruction target d => .instruction target d

def trees : List Node → List Tree
  | [] => []
  | n :: ns => n.tree :: trees ns

end

mutual

/-- Nodes that may be written where they stand, and that are read back in the same scope. -/
def Node.Sound : Declarations → Nat → Node → Prop
  | scope, depth, .element t ns =>
    depth ≤ maxDepth ∧ t.Sound scope ∧ AllSound (t.declarations ++ scope) (depth + 1) ns
  | _, _, .text s => s ≠ [] ∧ s.all isLegal
  | _, _, .comment c => IsComment c
  | _, _, .instruction target d =>
    IsInstruction target (spaced d) ∧ skipSpace d = d ∧ .error ∉ checkTarget target

/-- Siblings of which no two texts meet. -/
def AllSound : Declarations → Nat → List Node → Prop
  | _, _, [] => True
  | scope, depth, n :: ns =>
    n.Sound scope depth ∧ (n.isText → ns.head?.any Node.isText = false) ∧ AllSound scope depth ns

end

theorem head?_resolveAll (scope : Declarations) (ts : List Tree) :
    (resolveAll scope ts).1.head?.any Node.isText = ts.head?.any Tree.isText := by
  cases ts with
  | nil => rfl
  | cons t ts => exact isText_resolve t

mutual

/-- What is read without an error reads back. -/
theorem Tree.Proper.sound : ∀ {scope : Declarations} {depth : Nat} {t : Tree}, t.Proper depth →
    .error ∉ (resolve scope t).2 → (resolve scope t).1.Sound scope depth
  | scope, depth, .element name as children, ⟨hdepth, htag, hchildren⟩, hsilent => by
    rw [resolve, List.mem_append, not_or] at hsilent
    exact ⟨hdepth, sound_resolveTag htag hsilent.1, hchildren.sound hsilent.2⟩
  | _, _, .text _, h, _ => h
  | _, _, .comment _, h, _ => h
  | _, _, .instruction _ _, h, hsilent => ⟨h.1, h.2, hsilent⟩

theorem AllProper.sound : ∀ {scope : Declarations} {depth : Nat} {ts : List Tree}, AllProper depth ts →
    .error ∉ (resolveAll scope ts).2 → AllSound scope depth (resolveAll scope ts).1
  | _, _, [], _, _ => trivial
  | scope, depth, t :: ts, ⟨ht, hnext, hts⟩, hsilent => by
    rw [resolveAll, List.mem_append, not_or] at hsilent
    refine ⟨ht.sound hsilent.1, fun htext => ?_, hts.sound hsilent.2⟩
    rw [head?_resolveAll]
    exact hnext ((isText_resolve t).symm.trans htext)

end

mutual

theorem Node.Sound.resolve_tree : ∀ {scope : Declarations} {depth : Nat} {n : Node}, n.Sound scope depth →
    (resolve scope n.tree).1 = n ∧ .error ∉ (resolve scope n.tree).2
  | scope, depth, .element t ns, ⟨_, htag, hns⟩ => by
    obtain ⟨hnodes, hsilent⟩ := hns.resolve_trees
    rw [Node.tree, resolve]
    simp only [htag.resolved, hnodes, List.mem_append, not_or]
    exact ⟨trivial, htag.silent, hsilent⟩
  | _, _, .text _, _ => ⟨rfl, List.not_mem_nil⟩
  | _, _, .comment _, _ => ⟨rfl, List.not_mem_nil⟩
  | _, _, .instruction _ _, h => ⟨rfl, h.2.2⟩

theorem AllSound.resolve_trees : ∀ {scope : Declarations} {depth : Nat} {ns : List Node},
    AllSound scope depth ns →
      (resolveAll scope (trees ns)).1 = ns ∧ .error ∉ (resolveAll scope (trees ns)).2
  | _, _, [], _ => ⟨rfl, List.not_mem_nil⟩
  | scope, depth, n :: ns, ⟨hn, _, hns⟩ => by
    obtain ⟨hnode, hsilent⟩ := hn.resolve_tree
    obtain ⟨hnodes, hsilent'⟩ := hns.resolve_trees
    rw [trees, resolveAll]
    simp only [hnode, hnodes, List.mem_append, not_or]
    exact ⟨trivial, hsilent, hsilent'⟩

end

/-! ### Writing -/

theorem Laid.head_of_not_isText (h : Laid es depth ps ts) (hts : ts.head?.any Tree.isText = false) :
    (joined ps).head?.any isPlain = false := by
  cases h with
  | @data _ _ ps ts t _ hne =>
    -- Data make a text, so the content would begin with one.
    by_cases hhead : ts.head?.any Tree.isText
    · match ts, hhead with
      | .text u :: ts, _ => cases hts
    · rw [Bool.not_eq_true] at hhead
      rw [Tree.consText_of_not_isText hhead, if_neg hne] at hts
      cases hts
  | _ => rfl

theorem head?_trees (ns : List Node) : (trees ns).head?.any Tree.isText = ns.head?.any Node.isText := by
  cases ns with
  | nil => rfl
  | cons n ns => cases n <;> rfl

theorem writeNodes_cons (named : Bool) (n : Node) (ns : List Node) :
    writeNodes named (n :: ns) = n.write named ++ writeNodes named ns := rfl

theorem write_text (named : Bool) (s : Text) : (Node.text s).write named = s.flatMap escapeTextChar := rfl

theorem write_comment (named : Bool) (c : Text) :
    (Node.comment c).write named = ['<', '!', '-', '-'] ++ c ++ ['-', '-', '>'] := rfl

theorem write_instruction (named : Bool) (target d : Text) :
    (Node.instruction target d).write named = '<' :: '?' :: target ++ spaced d ++ ['?', '>'] := rfl

theorem write_childless (named : Bool) (t : Tag) :
    (Node.element t []).write named = '<' :: (t.write named ++ ['/', '>']) := rfl

theorem write_element (named : Bool) (t : Tag) (n : Node) (ns : List Node) :
    (Node.element t (n :: ns)).write named = '<' :: (t.write named ++ ['>']) ++
      (writeNodes named (n :: ns) ++ '<' :: '/' :: (t.name.written ++ ['>'])) := by
  have hwrite : (Node.element t (n :: ns)).write named = ['<'] ++ t.write named ++ ['>'] ++
      n.write named ++ writeNodes named ns ++ ['<', '/'] ++ t.name.written ++ ['>'] := rfl
  rw [hwrite, writeNodes_cons]
  simp only [List.append_assoc, List.cons_append, List.nil_append]

theorem exists_laidElement {t : Tag} (htag : t.Sound scope) (hps : Laid [] (depth + 1) ps (trees ns))
    (hjoined : joined ps = writeNodes named ns) :
    ∃ qs, LaidElement [] depth qs (Node.element t ns).tree ∧
      joined qs = (Node.element t ns).write named := by
  have hproper := htag.proper
  cases ns with
  | nil =>
    have hu : TagRest [] (t.pairs.flatMap (fun a => writeAttribute named a.1 a.2) ++ ['/', '>'])
        (t.pairs, true) :=
      tagRest_write hproper.names hproper.legal hproper.distinct (.closed (w := []) rfl)
    refine ⟨_, .empty hproper.name hu, ?_⟩
    rw [joined_cons, joined_nil, List.append_nil, write_childless, Tag.write_eq, List.append_assoc]
    rfl
  | cons n ns =>
    have hu : TagRest [] (t.pairs.flatMap (fun a => writeAttribute named a.1 a.2) ++ ['>'])
        (t.pairs, false) :=
      tagRest_write hproper.names hproper.legal hproper.distinct (.opening (w := []) rfl)
    refine ⟨_, .content (w := []) hproper.name hu hps rfl, ?_⟩
    rw [joined_cons, joined_append, joined_cons, joined_nil, List.append_nil, hjoined, write_element,
      Tag.write_eq, List.append_assoc]
    rfl

theorem Laid.cons_text (hps : Laid [] depth ps ts) (hts : ts.head?.any Tree.isText = false) (hne : s ≠ [])
    (hs : s.all isLegal) :
    ∃ qs, Laid [] depth qs (.text s :: ts) ∧ joined qs = s.flatMap escapeTextChar ++ joined ps := by
  have hmark : ¬ "]]>".toList <:+: s.flatMap escapeTextChar :=
    fun h => gt_notMem_escape s (h.subset (by decide))
  obtain ⟨qs, hqs, hjoined⟩ :=
    hps.cons_spelled (spells_write hs) (hps.head_of_not_isText hts) [] rfl rfl hmark
  rw [List.nil_append, Tree.consText_of_not_isText hts, if_neg hne] at hqs
  exact ⟨qs, hqs, hjoined⟩

mutual

theorem Node.Sound.exists_laid (named : Bool) : ∀ {scope : Declarations} {depth : Nat} {n : Node},
    n.Sound scope depth → ∀ {ps : List Piece} {ts : List Tree}, Laid [] depth ps ts →
      (n.isText → ts.head?.any Tree.isText = false) →
      ∃ qs, Laid [] depth qs (n.tree :: ts) ∧ joined qs = n.write named ++ joined ps
  | _, _, .element t ns, ⟨hdepth, htag, hns⟩, ps, ts, hps, _ => by
    obtain ⟨inner, hinner, hjoined⟩ := hns.exists_laid named
    obtain ⟨qs, hqs, hwritten⟩ := exists_laidElement htag hinner hjoined
    exact ⟨_, hqs.cons hdepth hps, by rw [joined_append, hwritten]⟩
  | _, _, .text s, ⟨hne, hs⟩, ps, ts, hps, hnext => by
    rw [Node.tree, write_text]
    exact hps.cons_text (hnext rfl) hne hs
  | _, _, .comment c, h, ps, ts, hps, _ => ⟨_, .comment h hps, by simp [write_comment]⟩
  | _, _, .instruction target d, ⟨hd, hskip, _⟩, ps, ts, hps, _ => by
    have hlaid := Laid.instruction hd hps
    have hdata : skipSpace (spaced d) = d := by
      rw [spaced]
      split
      case isTrue hnil => rw [hnil]; rfl
      case isFalse => exact (skipSpace_append (w := [' ']) rfl d).trans hskip
    rw [hdata] at hlaid
    exact ⟨_, hlaid, by simp [write_instruction]⟩

/-- Sound nodes are content as they are written. -/
theorem AllSound.exists_laid (named : Bool) : ∀ {scope : Declarations} {depth : Nat} {ns : List Node},
    AllSound scope depth ns → ∃ ps, Laid [] depth ps (trees ns) ∧ joined ps = writeNodes named ns
  | _, _, [], _ => ⟨[], .nil, rfl⟩
  | _, _, n :: ns, ⟨hn, hnext, hns⟩ => by
    obtain ⟨ps, hps, hjoined⟩ := hns.exists_laid named
    obtain ⟨qs, hqs, hwritten⟩ := hn.exists_laid named hps fun htext => by
      rw [head?_trees]
      exact hnext htext
    exact ⟨qs, hqs, by rw [hwritten, hjoined, writeNodes_cons]⟩

end

/-! ### Ends of lines -/

mutual

/-- A node as it is read back, with line feeds for all ends of lines in comments and instructions. -/
def Node.fed : Node → Node
  | .element t ns => .element t (fedAll ns)
  | .text s => .text s
  | .comment c => .comment (Text.withLineFeeds c)
  | .instruction target d => .instruction target (Text.withLineFeeds d)

def fedAll : List Node → List Node
  | [] => []
  | n :: ns => n.fed :: fedAll ns

end

theorem isText_fed (n : Node) : n.fed.isText = n.isText := by
  cases n <;> rfl

theorem head?_fedAll (ns : List Node) : (fedAll ns).head?.any Node.isText = ns.head?.any Node.isText := by
  cases ns with
  | nil => rfl
  | cons n ns => exact isText_fed n

theorem all_isLegal_withLineFeeds (h : s.all isLegal) : (Text.withLineFeeds s).all isLegal := by
  fun_induction Text.withLineFeeds s with
  | case1 s ih => simp_all [show isLegal '\n' by decide]
  | case2 s _ ih => simp_all [show isLegal '\n' by decide]
  | case3 c s _ _ ih => simp_all
  | case4 => rfl

theorem IsComment.fed (h : IsComment c) : IsComment (Text.withLineFeeds c) :=
  ⟨Ended.withLineFeeds (by decide) (by decide) h.ended, all_isLegal_withLineFeeds h.legal⟩

theorem withLineFeeds_spaced (d : Text) : Text.withLineFeeds (spaced d) = spaced (Text.withLineFeeds d) := by
  rw [spaced, spaced]
  split
  case isTrue hnil => rw [hnil]; rfl
  case isFalse hne =>
    have hfed : Text.withLineFeeds d ≠ [] := by
      unfold Text.withLineFeeds
      split <;> simp_all
    rw [if_neg hfed, Text.withLineFeeds_cons (by decide)]

theorem IsInstruction.fed (h : IsInstruction target (Xml.spaced d)) :
    IsInstruction target (Xml.spaced (Text.withLineFeeds d)) := by
  refine ⟨h.name, h.notReserved, ?_, ?_, ?_⟩
  · rw [← withLineFeeds_spaced]
    exact Ended.withLineFeeds (by decide) (by decide) h.ended
  · rw [← withLineFeeds_spaced]
    exact all_isLegal_withLineFeeds h.legal
  · rw [Xml.spaced]
    split
    · exact .inl rfl
    · exact .inr rfl

theorem skipSpace_withLineFeeds (h : skipSpace d = d) :
    skipSpace (Text.withLineFeeds d) = Text.withLineFeeds d := by
  cases d with
  | nil => rfl
  | cons c d =>
    obtain ⟨-, -, -, hc⟩ := skipSpace_eq_cons h
    have hreturn : c ≠ '\r' := by rintro rfl; cases hc
    rw [Text.withLineFeeds_cons hreturn, skipSpace_cons hc]

mutual

theorem Node.Sound.fed : ∀ {scope : Declarations} {depth : Nat} {n : Node}, n.Sound scope depth →
    n.fed.Sound scope depth
  | _, _, .element _ _, ⟨hdepth, htag, hns⟩ => ⟨hdepth, htag, hns.fed⟩
  | _, _, .text _, h => h
  | _, _, .comment _, h => IsComment.fed h
  | _, _, .instruction _ _, ⟨hd, hskip, hsilent⟩ => ⟨hd.fed, skipSpace_withLineFeeds hskip, hsilent⟩

theorem AllSound.fed : ∀ {scope : Declarations} {depth : Nat} {ns : List Node}, AllSound scope depth ns →
    AllSound scope depth (fedAll ns)
  | _, _, [], _ => trivial
  | _, _, n :: ns, ⟨hn, hnext, hns⟩ => by
    refine ⟨hn.fed, fun htext => ?_, hns.fed⟩
    rw [head?_fedAll]
    exact hnext (by rwa [isText_fed] at htext)

end

theorem return_notMem_escape (s : Text) : '\r' ∉ s.flatMap escapeTextChar := by
  intro h
  obtain ⟨c, -, hc⟩ := List.mem_flatMap.1 h
  unfold escapeTextChar at hc
  split at hc
  case h_5 hreturn => exact hreturn (List.mem_singleton.1 hc).symm
  all_goals exact absurd hc (by decide)

theorem return_notMem_escapeValue (named : Bool) (s : Text) : '\r' ∉ s.flatMap (escapeValueChar named) := by
  intro h
  obtain ⟨c, -, hc⟩ := List.mem_flatMap.1 h
  unfold escapeValueChar at hc
  split at hc
  case h_4 =>
    split at hc
    case isTrue =>
      have hdigits : '\r' ∈ Text.capitals c.toNat := by
        simpa [Text.capitals] using hc
      have hdigit := List.all_eq_true.1 (Text.hexDigits_capitals c.toNat).1 _ hdigits
      exact absurd hdigit (by decide)
    case isFalse => exact return_notMem_escape [c] (by simpa using hc)
  all_goals exact absurd hc (by decide)

theorem return_notMem_name {name : Text} (h : isName name) : '\r' ∉ name := by
  intro hmem
  cases name with
  | nil => cases hmem
  | cons c name =>
    simp only [isName, Bool.and_eq_true, List.all_eq_true] at h
    rcases List.mem_cons.1 hmem with rfl | hmem
    · exact absurd h.1 (by decide)
    · exact absurd (h.2 _ hmem) (by decide)

theorem Tag.Sound.return_notMem_write {t : Tag} (h : t.Sound scope) : '\r' ∉ t.write named := by
  have hattribute : ∀ a ∈ t.pairs, '\r' ∉ writeAttribute named a.1 a.2 := by
    intro a ha
    have hvalue : '\r' ∉ a.2.flatMap (escapeValueChar named) := return_notMem_escapeValue named a.2
    simp [writeAttribute, return_notMem_name (h.proper.names a ha), hvalue]
  rw [Tag.write_eq, List.mem_append, not_or]
  refine ⟨return_notMem_name h.proper.name, fun hmem => ?_⟩
  obtain ⟨a, ha, hmem⟩ := List.mem_flatMap.1 hmem
  exact hattribute a ha hmem

mutual

/-- Making ends of lines alike in what is written changes comments and instructions only. -/
theorem Node.Sound.withLineFeeds_write (named : Bool) : ∀ {scope : Declarations} {depth : Nat} {n : Node},
    n.Sound scope depth → ∀ s,
      Text.withLineFeeds (n.write named ++ s) = n.fed.write named ++ Text.withLineFeeds s
  | _, _, .element t [], ⟨_, htag, _⟩, s => by
    have hreturn : '\r' ∉ '<' :: (t.write named ++ ['/', '>']) := by simp [htag.return_notMem_write]
    simpa [write_childless, Node.fed, fedAll] using Text.withLineFeeds_append hreturn s
  | _, _, .element t (n :: ns), ⟨_, htag, hns⟩, s => by
    have hopening : '\r' ∉ '<' :: (t.write named ++ ['>']) := by simp [htag.return_notMem_write]
    have hclosing : '\r' ∉ '<' :: '/' :: (t.name.written ++ ['>']) := by
      simp [return_notMem_name htag.proper.name]
    have hinner := hns.withLineFeeds_write named ('<' :: '/' :: (t.name.written ++ ['>']) ++ s)
    rw [Text.withLineFeeds_append hclosing] at hinner
    have hwhole := Text.withLineFeeds_append hopening
      (writeNodes named (n :: ns) ++ ('<' :: '/' :: (t.name.written ++ ['>']) ++ s))
    rw [hinner] at hwhole
    simpa [write_element, Node.fed, fedAll] using hwhole
  | _, _, .text t, _, s => Text.withLineFeeds_append (return_notMem_escape t) s
  | _, _, .comment c, _, s => by
    have hopening : '\r' ∉ ['<', '!', '-', '-'] := by decide
    have hclosing : '\r' ∉ ['-', '-', '>'] := by decide
    simpa [write_comment, Node.fed] using
      Text.withLineFeeds_between hopening (by decide) hclosing c s
  | _, _, .instruction target d, ⟨hd, _, _⟩, s => by
    have hopening : '\r' ∉ '<' :: '?' :: target := by simp [return_notMem_name hd.name]
    have hclosing : '\r' ∉ ['?', '>'] := by decide
    have hwhole := Text.withLineFeeds_between hopening (by decide) hclosing (spaced d) s
    rw [withLineFeeds_spaced] at hwhole
    simpa [write_instruction, Node.fed] using hwhole

theorem AllSound.withLineFeeds_write (named : Bool) : ∀ {scope : Declarations} {depth : Nat}
    {ns : List Node}, AllSound scope depth ns → ∀ s,
      Text.withLineFeeds (writeNodes named ns ++ s) = writeNodes named (fedAll ns) ++ Text.withLineFeeds s
  | _, _, [], _, _ => rfl
  | _, _, n :: ns, ⟨hn, _, hns⟩, s => by
    rw [writeNodes_cons, List.append_assoc, hn.withLineFeeds_write named, hns.withLineFeeds_write named,
      fedAll, writeNodes_cons, List.append_assoc]

end

end DeckMerge.Xml
