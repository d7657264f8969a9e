import DeckMerge.Proofs.Deck.Placement
import DeckMerge.Proofs.Package.Growth

/-!
What results leave in the parts that they are written to: the text of the last one that has changed.
-/

namespace DeckMerge.Deck

variable {p q : Package} {filled copies rendered : List Rendered} {added : List Text} {last name s : Text}
  {previous : Option Text} {x : Rendered}

/-! ### The last writing -/

/-- The text that a result writes to a part. -/
def writes? (name : Text) (x : Rendered) : Option Text :=
  if x.isChanged ∧ x.1.name = name then some x.2.text else none

/-- The text that some results leave in a part, if one of them writes it. -/
def lastText? (name : Text) (filled : List Rendered) : Option Text :=
  (filled.filterMap (writes? name)).getLast?

theorem writes?_eq_some_iff : writes? name x = some s ↔ x.isChanged ∧ x.1.name = name ∧ x.2.text = s := by
  simp [writes?, and_assoc]

theorem lastText?_append : lastText? name (filled ++ rendered) =
    (lastText? name rendered).or (lastText? name filled) := by
  rw [lastText?, List.filterMap_append, List.getLast?_append, lastText?, lastText?]

theorem lastText?_cons : lastText? name (x :: filled) = (lastText? name filled).or (writes? name x) := by
  rw [← List.singleton_append, lastText?_append]
  congr 1
  cases hx : writes? name x <;> simp [lastText?, hx]

theorem exists_of_lastText? (h : lastText? name filled = some s) : ∃ x ∈ filled, writes? name x = some s :=
  List.mem_filterMap.1 (List.mem_of_getLast? h)

theorem lastText?_eq_none_iff : lastText? name filled = none ↔ ∀ x ∈ filled, writes? name x = none := by
  rw [lastText?, List.getLast?_eq_none_iff, List.filterMap_eq_nil_iff]

/-- A part is left with the text of a result if all that is written to it is this text. -/
theorem lastText?_getD (hx : x ∈ filled) (hname : x.1.name = name)
    (hall : ∀ y ∈ filled, ∀ s, writes? name y = some s → s = x.2.text) :
    (lastText? name filled).getD x.1.source = x.2.text := by
  cases hlast : lastText? name filled with
  | some s =>
    obtain ⟨y, hy, hwrites⟩ := exists_of_lastText? hlast
    exact hall y hy s hwrites
  | none =>
    have hnone := lastText?_eq_none_iff.1 hlast x hx
    by_contra hne
    have hchanged : x.isChanged := bne_iff_ne.2 (Ne.symm hne)
    simp [writes?, hchanged, hname] at hnone

theorem lastText?_eq_some (hx : writes? name x = some s) (hmem : x ∈ filled)
    (hall : ∀ y ∈ filled, ∀ s', writes? name y = some s' → s' = s) : lastText? name filled = some s := by
  cases hlast : lastText? name filled with
  | some s' =>
    obtain ⟨y, hy, hwrites⟩ := exists_of_lastText? hlast
    rw [hall y hy s' hwrites]
  | none => cases (lastText?_eq_none_iff.1 hlast x hmem).symm.trans hx

/-! ### Results that fill parts -/

theorem names_writeTo (hmem : x.1.name ∈ p.names) : (x.writeTo p).names = p.names := by
  by_cases hchanged : x.isChanged
  · have hgrown : Package.Grown p [x.1.name] [] (p.writeText x.1.name x.2.text) := .of_rewrite hmem _
    rw [Rendered.writeTo_of_isChanged hchanged, hgrown.names_eq, List.append_nil]
  · rw [Rendered.writeTo_of_not_isChanged hchanged]

theorem content?_writeTo (x : Rendered) (p : Package) (name : Text) :
    (x.writeTo p).content? name = ((writes? name x).map Text.utf8).or (p.content? name) := by
  by_cases hchanged : x.isChanged
  · rw [Rendered.writeTo_of_isChanged hchanged, Package.writeText, Package.content?_write]
    by_cases hname : x.1.name = name
    · simp [writes?, hchanged, hname]
    · simp [writes?, hname]
  · rw [Rendered.writeTo_of_not_isChanged hchanged]
    simp [writes?, hchanged]

/-- The part of the last page, which a copy follows. -/
def lastPage? (filled : List Rendered) : Option Text :=
  (filled.filter (·.1.role = .page)).getLast?.map (·.1.name)

theorem lastPage?_cons : lastPage? (x :: filled) =
    (lastPage? filled).or (if x.1.role = .page then some x.1.name else none) := by
  by_cases hrole : x.1.role = .page
  · cases hlast : (filled.filter (·.1.role = .page)).getLast? <;>
      simp [lastPage?, hrole, List.getLast?_cons, hlast]
  · simp [lastPage?, hrole]

/-- Results that are no copies are written to their own parts, before the copies are made. -/
theorem place_filled (hroles : ∀ x ∈ filled, x.1.role ≠ .copy) (hnames : ∀ x ∈ filled, x.1.name ∈ p.names)
    (h : (place last previous (filled ++ copies)).on p = (.ok added, q)) : ∃ p',
      (place last ((lastPage? filled).or previous) copies).on p' = (.ok added, q) ∧ p'.names = p.names ∧
      ∀ name, p'.content? name = ((lastText? name filled).map Text.utf8).or (p.content? name) := by
  induction filled generalizing p previous with
  | nil => exact ⟨p, h, rfl, fun _ => rfl⟩
  | cons x filled ih =>
    obtain ⟨hrole, hroles⟩ := List.forall_mem_cons.1 hroles
    obtain ⟨hmem, hnames⟩ := List.forall_mem_cons.1 hnames
    have hsame := names_writeTo hmem
    rw [List.cons_append, on_place_page hrole] at h
    obtain ⟨p', hplace, hnames', hcontent⟩ := ih hroles (hsame ▸ hnames) h
    have hprevious : (lastPage? filled).or (if x.1.role = .page then some x.1.name else previous) =
        (lastPage? (x :: filled)).or previous := by
      rw [lastPage?_cons, Option.or_assoc]
      split <;> rfl
    refine ⟨p', hprevious ▸ hplace, hnames'.trans hsame, fun name => ?_⟩
    rw [hcontent, content?_writeTo, lastText?_cons, Option.map_or, Option.or_assoc]

end DeckMerge.Deck
