import DeckMerge.Proofs.Run.Joins

/-!
Runs in groups. Which cuts between runs are removed can be said without the groups: those over which a
token of adjacent runs goes. After joining there is none.
-/

namespace DeckMerge.Run

-- The zero of the core library, whatever else is in scope.
attribute [local instance (high)] Zero.ofOfNat0

open Placeholder (SplitsToken)

variable {index k : Nat} {runs rs rs' before after a b g h : Runs} {gs : List Runs}

/-- A token of adjacent runs goes over the cut behind this number of runs. -/
def Linked (runs : Runs) (k : Nat) : Prop :=
  ∃ g h, g <:+ runs.take k ∧ h <+: runs.drop k ∧ Adjacent (g ++ h) ∧ SplitsToken (textOf g) (textOf h)

theorem linked_length_iff : Linked (a ++ b) a.length ↔
    ∃ g h, g <:+ a ∧ h <+: b ∧ Adjacent (g ++ h) ∧ SplitsToken (textOf g) (textOf h) := by
  simp [Linked]

theorem ne_nil_of_splitsToken (hs : SplitsToken (textOf g) (textOf h)) : g ≠ [] ∧ h ≠ [] := by
  obtain ⟨t, l, r, -, -, hl, hr, hlg, hrh⟩ := hs
  constructor
  · rintro rfl
    exact hl (List.suffix_nil.1 hlg)
  · rintro rfl
    exact hr (List.prefix_nil.1 hrh)

/-- The first of the runs does not stand beside what comes before it. -/
def Detached (rs : Runs) : Prop := ∀ r ∈ rs.head?, ¬ Blank r.1

/-- No token goes over the cut between two groups. -/
theorem not_linked_of_detached (hb : Detached b) : ¬ Linked (a ++ b) a.length := by
  rw [linked_length_iff]
  rintro ⟨g, h, -, hh, hadjacent, hs⟩
  obtain ⟨hg, hne⟩ := ne_nil_of_splitsToken hs
  obtain ⟨r, h, rfl⟩ := List.exists_cons_of_ne_nil hne
  obtain ⟨t, rfl⟩ := hh
  obtain ⟨q, g, rfl⟩ := List.exists_cons_of_ne_nil hg
  exact hb r rfl (hadjacent r (by simp))

theorem Adjacent.mem_append (h : Adjacent (a ++ b)) (ha : a ≠ []) : ∀ r ∈ b, Blank r.1 := by
  obtain ⟨q, a, rfl⟩ := List.exists_cons_of_ne_nil ha
  exact fun r hr => h r (by simp [hr])

/-- Adjacent runs that end with a group begin in it. -/
theorem suffix_of_detached (hg : g <:+ before ++ a) (hadjacent : Adjacent g) (ha : a ≠ [])
    (hbefore : before ≠ [] → Detached a) : g <:+ a := by
  rcases List.suffix_or_suffix_of_suffix hg (List.suffix_append before a) with h | ⟨w, rfl⟩
  · exact h
  obtain ⟨r, a, rfl⟩ := List.exists_cons_of_ne_nil ha
  cases w with
  | nil => exact List.suffix_refl _
  | cons q w =>
    have hne : before ≠ [] := by
      rintro rfl
      have := hg.length_le
      simp at this
      omega
    exact absurd (hadjacent.mem_append (by simp) r (by simp)) (hbefore hne r rfl)

/-- Adjacent runs that begin in a group end in it. -/
theorem prefix_of_detached (hh : h <+: b ++ after) (hadjacent : Adjacent (g ++ h)) (hg : g ≠ [])
    (hafter : Detached after) : h <+: b := by
  rcases List.prefix_or_prefix_of_prefix hh (List.prefix_append b after) with h' | ⟨w, rfl⟩
  · exact h'
  cases w with
  | nil => simp
  | cons r w =>
    obtain ⟨t, rfl⟩ := (List.prefix_append_right_inj b).1 hh
    exact absurd (hadjacent.mem_append hg r (by simp)) (hafter r rfl)

/-- A cut in a group is linked exactly if a token of the group goes over it. -/
theorem linked_group_iff (hbefore : before ≠ [] → Detached a) (hafter : Detached after)
    (hgroup : Adjacent (a ++ b)) (ha : a ≠ []) :
    Linked (before ++ a ++ (b ++ after)) (before ++ a).length ↔ SplitsToken (textOf a) (textOf b) := by
  rw [linked_length_iff]
  constructor
  · rintro ⟨g, h, hg, hh, hadjacent, hs⟩
    obtain ⟨hgne, -⟩ := ne_nil_of_splitsToken hs
    have hg' : Adjacent g := by
      obtain ⟨q, g, rfl⟩ := List.exists_cons_of_ne_nil hgne
      exact fun r hr => hadjacent r (List.mem_append_left h hr)
    obtain ⟨w, rfl⟩ := suffix_of_detached hg hg' ha hbefore
    obtain ⟨w', rfl⟩ := prefix_of_detached hh hadjacent hgne hafter
    exact hs.mono (by simp) (by simp)
  · exact fun hs => ⟨a, b, List.suffix_append _ _, List.prefix_append _ _, hgroup, hs⟩

/-! ### Groups -/

structure Grouped (gs : List Runs) (rs : Runs) : Prop where
  flatten : gs.flatten = rs
  adjacent : ∀ g ∈ gs, g ≠ [] ∧ Adjacent g
  apart : ∀ g ∈ gs.tail, Detached g

theorem grouped_groups (rs : Runs) : Grouped (groups rs) rs := by
  induction rs with
  | nil => exact ⟨rfl, by simp [groups], by simp [groups]⟩
  | cons r rs ih =>
    obtain ⟨hflatten, hadjacent, hapart⟩ := ih
    rw [groups]
    split
    case h_1 hgs =>
      rw [hgs] at hflatten
      exact ⟨by simp [← hflatten], by simp [Adjacent], by simp⟩
    case h_2 gs hgs =>
      exact absurd rfl (hadjacent [] (by simp [hgs])).1
    case h_3 gap next g gs hgs =>
      rw [hgs] at hflatten hadjacent hapart
      obtain ⟨⟨-, hg⟩, hadjacent⟩ := List.forall_mem_cons.1 hadjacent
      split
      case isTrue hgap =>
        refine ⟨by simp [← hflatten], List.forall_mem_cons.2 ⟨⟨by simp, ?_⟩, hadjacent⟩, hapart⟩
        exact List.forall_mem_cons.2 ⟨List.all_eq_true.1 hgap, hg⟩
      case isFalse hgap =>
        refine ⟨by simp [← hflatten], List.forall_mem_cons.2 ⟨by simp [Adjacent],
          List.forall_mem_cons.2 ⟨⟨by simp, hg⟩, hadjacent⟩⟩, List.forall_mem_cons.2 ⟨?_, hapart⟩⟩
        rintro q hq hblank
        obtain rfl := Option.some.inj hq
        exact hgap (List.all_eq_true.2 hblank)

theorem joins_joinGroup (hg : Adjacent g) :
    Joins (fun k => SplitsToken (textOf (g.take k)) (textOf (g.drop k))) 0 g (joinGroup g).1 ∧
      (joinGroup g).1.length + (joinGroup g).2 = g.length := by
  refine joins_joinRanges ⟨pairwise_spanningRanges _, fun r hr => ?_⟩ hg fun k _ _ => ?_
  · have := lt_of_mem_spanningRanges hr
    simp only [List.length_map] at this
    omega
  · rw [covers_spanningRanges_iff, ← List.map_take, ← List.map_drop, flatten_map_text, flatten_map_text]

/-- The runs of all groups, joined. -/
def joined (gs : List Runs) : Runs := (gs.map joinGroup).flatMap (·.1)

def removed (gs : List Runs) : Nat := ((gs.map joinGroup).map (·.2)).sum

theorem Grouped.head_detached (h : Grouped (g :: gs) rs) : Detached gs.flatten := by
  cases gs with
  | nil => simp [Detached]
  | cons g' gs =>
    obtain ⟨r, g', rfl⟩ := List.exists_cons_of_ne_nil (h.adjacent g' (by simp)).1
    exact h.apart (r :: g') (by simp)

theorem linked_within_iff (hg : Adjacent g) (hbefore : before ≠ [] → Detached (g ++ after))
    (hafter : Detached after) (hpos : 0 < k) (hlt : k < g.length) :
    Linked (before ++ (g ++ after)) (k + before.length) ↔ SplitsToken (textOf (g.take k)) (textOf (g.drop k)) := by
  have htake : (g.take k).length = k := List.length_take_of_le (by omega)
  have hdetached : before ≠ [] → Detached (g.take k) := by
    intro hb r hr
    refine hbefore hb r ?_
    rw [← List.take_append_drop k g, List.append_assoc, List.head?_append, hr]
    rfl
  have hiff := linked_group_iff (b := g.drop k) hdetached hafter (by rwa [List.take_append_drop])
    (List.ne_nil_of_length_pos (by omega))
  rw [List.length_append, htake, Nat.add_comm, ← List.append_assoc, List.append_assoc before,
    List.take_append_drop, List.append_assoc] at hiff
  exact hiff

theorem Grouped.joins (h : Grouped gs rs) (before : Runs) (hbefore : before ≠ [] → Detached rs) :
    Joins (Linked (before ++ rs)) before.length rs (joined gs) ∧
      (joined gs).length + removed gs = rs.length := by
  induction gs generalizing before rs with
  | nil =>
    obtain rfl := h.flatten
    exact ⟨.nil, rfl⟩
  | cons g gs ih =>
    obtain rfl := h.flatten
    obtain ⟨⟨hne, hg⟩, hgs⟩ := List.forall_mem_cons.1 h.adjacent
    obtain ⟨hjoins, hcount⟩ := joins_joinGroup hg
    obtain ⟨hrest, hrestCount⟩ := ih ⟨rfl, hgs, fun g' hg' => h.apart g' (List.mem_of_mem_tail hg')⟩
      (before ++ g) (fun _ => h.head_detached)
    constructor
    · have hshift : Joins (Linked (before ++ (g ++ gs.flatten))) (0 + before.length) g (joinGroup g).1 :=
        hjoins.shift before.length fun k hpos hlt =>
          (linked_within_iff hg hbefore h.head_detached hpos (by omega)).symm
      have hcut := not_linked_of_detached (a := before ++ g) h.head_detached
      rw [Nat.zero_add] at hshift
      rw [List.append_assoc, List.length_append] at hcut hrest
      exact hshift.append (fun _ _ => hcut) hrest
    · simp only [joined, removed, List.map_cons, List.flatMap_cons, List.flatten_cons, List.length_append,
        List.sum_cons] at hrestCount ⊢
      omega

/-- Joining removes exactly the cuts over which a token goes. -/
theorem joins_groups (rs : Runs) : Joins (Linked rs) 0 rs (joined (groups rs)) ∧
    (joined (groups rs)).length + removed (groups rs) = rs.length :=
  (grouped_groups rs).joins [] (by simp)

/-- After joining no token goes over a cut. -/
theorem Joins.not_linked (h : Joins (Linked rs) 0 rs rs') (k : Nat) : ¬ Linked rs' k := by
  rintro ⟨x', y', ⟨p', hp⟩, ⟨q', hq⟩, hadjacent, hs⟩
  obtain ⟨hx, hy⟩ := ne_nil_of_splitsToken hs
  have hrs' : rs' = p' ++ (x' ++ y' ++ q') := by
    rw [← List.take_append_drop k rs', ← hp, ← hq]
    simp
  rw [hrs'] at h
  obtain ⟨p, rest, rfl, -, hrest, -⟩ := h.split
  obtain ⟨m, q, rfl, hm, -⟩ := hrest.split
  have hadjacent' := hm.adjacent hadjacent
  obtain ⟨x, y, rfl, hxs, hys, hcut⟩ := hm.split
  refine hcut hx hy ?_
  rw [Nat.zero_add, ← List.length_append, show p ++ (x ++ y ++ q) = p ++ x ++ (y ++ q) by simp,
    linked_length_iff]
  refine ⟨x, y, List.suffix_append _ _, List.prefix_append _ _, hadjacent', ?_⟩
  rwa [← hxs.textOf_eq, ← hys.textOf_eq]

/-- Where no token goes over a cut, joining leaves the runs as they are. -/
theorem joined_groups_of_not_linked (h : ∀ k, ¬ Linked rs k) :
    joined (groups rs) = rs ∧ removed (groups rs) = 0 := by
  obtain ⟨hjoins, hcount⟩ := joins_groups rs
  have heq := hjoins.eq_of_not_linked h
  rw [heq] at hcount
  exact ⟨heq, by omega⟩

end DeckMerge.Run
