import DeckMerge.Deck.Rendering
import DeckMerge.Proofs.Package.Steps

/-!
Placing rendered parts: each goes to a slide of its own, where later ones leave it alone.
-/

namespace DeckMerge.Deck

open Package (isSlide)

/-- The slides that jobs are placed in, where copies have given names. -/
def destinations : List Job → List Text → List Text
  | [], _ => []
  | j :: jobs, added =>
    if j.role = .copy then
      match added with
      | [] => []
      | name :: added => name :: destinations jobs added
    else j.name :: destinations jobs added

variable {j : Job} {jobs : List Job} {added : List Text} {name : Text}

theorem destinations_copy_nil (h : j.role = .copy) : destinations (j :: jobs) [] = [] := if_pos h

theorem destinations_copy (h : j.role = .copy) :
    destinations (j :: jobs) (name :: added) = name :: destinations jobs added := if_pos h

theorem destinations_page (h : j.role ≠ .copy) :
    destinations (j :: jobs) added = j.name :: destinations jobs added := if_neg h

theorem destinations_pages (h : ∀ j ∈ jobs, j.role ≠ .copy) :
    destinations jobs added = jobs.map (·.name) := by
  induction jobs with
  | nil => rfl
  | cons j jobs ih =>
    rw [destinations_page (h j (by simp)), ih fun j' hj' => h j' (by simp [hj']), List.map_cons]

theorem mem_destinations (h : name ∈ destinations jobs added) :
    name ∈ added ∨ ∃ j ∈ jobs, j.role ≠ .copy ∧ j.name = name := by
  induction jobs generalizing added with
  | nil => cases h
  | cons j jobs ih =>
    by_cases hrole : j.role = .copy
    · cases added with
      | nil =>
        rw [destinations_copy_nil hrole] at h
        cases h
      | cons name' added =>
        rw [destinations_copy hrole, List.mem_cons] at h
        rcases h with rfl | h
        · simp
        · rcases ih h with h | ⟨j', hj', h⟩
          · simp [h]
          · exact .inr ⟨j', List.mem_cons_of_mem _ hj', h⟩
    · rw [destinations_page hrole, List.mem_cons] at h
      rcases h with rfl | h
      · exact .inr ⟨j, List.mem_cons_self, hrole, rfl⟩
      · rcases ih h with h | ⟨j', hj', h⟩
        · exact .inl h
        · exact .inr ⟨j', List.mem_cons_of_mem _ hj', h⟩

/-- One slide has been written, and no other one has changed. -/
structure Written (p : Package) (name s : Text) (q : Package) : Prop where
  isSlide : isSlide name
  reads : q.readText name = .ok s
  frame : ∀ other, Package.isSlide other → other ≠ name → q.content? other = p.content? other

theorem Written.mem_names {p q : Package} {s other : Text} (h : Written p name s q)
    (hother : Package.isSlide other) (hmem : other ∈ p.names) : other ∈ q.names := by
  by_cases heq : other = name
  · exact heq ▸ Package.mem_names_of_readText h.reads
  · rwa [← Package.content?_isSome_iff, h.frame other hother heq, Package.content?_isSome_iff]

/-- Each of some jobs has been placed in a slide of its own. -/
structure Placed (p : Package) (rs : List Rendered) (added : List Text) (q : Package) : Prop where
  count_eq : added.length = rs.countP fun r => r.1.role = .copy
  nodup : (destinations (rs.map (·.1)) added).Nodup
  reads : List.Forall₂ (fun r name => q.readText name = .ok r.2.text) rs
    (destinations (rs.map (·.1)) added)
  isSlide : ∀ name ∈ added, isSlide name
  fresh : ∀ name ∈ added, name ∉ p.names
  frame : ∀ other, Package.isSlide other → other ∉ destinations (rs.map (·.1)) added →
    q.content? other = p.content? other

/-- The slides that jobs are to be placed in hold their sources, and are different ones. -/
structure Ready (p : Package) (jobs : List Job) : Prop where
  isSlide : ∀ j ∈ jobs, j.role ≠ .copy → isSlide j.name
  reads : ∀ j ∈ jobs, j.role ≠ .copy → p.readText j.name = .ok j.source
  nodup : ((jobs.filter fun j => j.role ≠ .copy).map (·.name)).Nodup

variable {p p' q : Package} {r : Rendered} {rs : List Rendered} {s : Text}

/-- Copies are placed in no slide that is there. -/
theorem Ready.of_copies (h : ∀ j ∈ jobs, j.role = .copy) : Ready p jobs where
  isSlide := fun j hj hrole => absurd (h j hj) hrole
  reads := fun j hj hrole => absurd (h j hj) hrole
  nodup := by
    rw [List.filter_eq_nil_iff.2 fun j hj => by simp [h j hj]]
    exact List.nodup_nil

theorem Ready.after (hready : Ready p jobs) (hw : Written p name s p')
    (hne : ∀ j ∈ jobs, j.role ≠ .copy → j.name ≠ name) : Ready p' jobs where
  isSlide := hready.isSlide
  reads := by
    intro j hj hrole
    have hframe := hw.frame _ (hready.isSlide j hj hrole) (hne j hj hrole)
    exact (Package.readText_congr hframe).2 (hready.reads j hj hrole)
  nodup := hready.nodup

theorem Ready.tail (hready : Ready p (j :: jobs)) : Ready p jobs where
  isSlide := fun j' hj' => hready.isSlide j' (List.mem_cons_of_mem _ hj')
  reads := fun j' hj' => hready.reads j' (List.mem_cons_of_mem _ hj')
  nodup := by
    refine hready.nodup.sublist (List.Sublist.map _ (List.Sublist.filter _ ?_))
    exact List.sublist_cons_self j jobs

theorem Ready.ne_head (hready : Ready p (j :: jobs)) (hrole : j.role ≠ .copy) :
    ∀ j' ∈ jobs, j'.role ≠ .copy → j'.name ≠ j.name := by
  intro j' hj' hrole' heq
  have hnodup := hready.nodup
  simp only [ne_eq, hrole, not_false_eq_true, decide_true, List.filter_cons_of_pos, List.map_cons,
    List.nodup_cons] at hnodup
  exact hnodup.1 (List.mem_map.2 ⟨j', List.mem_filter.2 ⟨hj', by simpa using hrole'⟩, heq⟩)

namespace Placed

theorem nil (p : Package) : Placed p [] [] p where
  count_eq := rfl
  nodup := List.nodup_nil
  reads := .nil
  isSlide := by simp
  fresh := by simp
  frame := fun _ _ _ => rfl

theorem reads_written (hw : Written p name s p') (h : Placed p' rs added q)
    (hnew : name ∉ destinations (rs.map (·.1)) added) : q.readText name = .ok s :=
  (Package.readText_congr (h.frame name hw.isSlide hnew)).2 hw.reads

theorem frame_written (hw : Written p name s p') (h : Placed p' rs added q) {other : Text}
    (hslide : Package.isSlide other) (hne : other ≠ name)
    (hother : other ∉ destinations (rs.map (·.1)) added) : q.content? other = p.content? other :=
  (h.frame other hslide hother).trans (hw.frame other hslide hne)

theorem cons_copy (hw : Written p name r.2.text p') (hfresh : name ∉ p.names) (hready : Ready p (rs.map (·.1)))
    (hrole : r.1.role = .copy) (h : Placed p' rs added q) : Placed p (r :: rs) (name :: added) q := by
  have hnew : name ∉ destinations (rs.map (·.1)) added := by
    intro hmem
    rcases mem_destinations hmem with hadded | ⟨j, hj, hpage, rfl⟩
    · exact h.fresh name hadded (Package.mem_names_of_readText hw.reads)
    · exact hfresh (Package.mem_names_of_readText (hready.reads j hj hpage))
  have hdest : destinations ((r :: rs).map (·.1)) (name :: added) =
      name :: destinations (rs.map (·.1)) added := destinations_copy hrole
  constructor
  · simp [h.count_eq, hrole]
  · rw [hdest]
    exact List.nodup_cons.2 ⟨hnew, h.nodup⟩
  · rw [hdest]
    exact .cons (h.reads_written hw hnew) h.reads
  · exact List.forall_mem_cons.2 ⟨hw.isSlide, h.isSlide⟩
  · refine List.forall_mem_cons.2 ⟨hfresh, fun other hother hmem => h.fresh other hother ?_⟩
    exact hw.mem_names (h.isSlide other hother) hmem
  · rw [hdest]
    intro other hslide hother
    simp only [List.mem_cons, not_or] at hother
    exact h.frame_written hw hslide hother.1 hother.2

theorem cons_page (hw : Written p r.1.name r.2.text p') (hready : Ready p ((r :: rs).map (·.1)))
    (hrole : r.1.role ≠ .copy) (h : Placed p' rs added q) : Placed p (r :: rs) added q := by
  have hnew : r.1.name ∉ destinations (rs.map (·.1)) added := by
    intro hmem
    rcases mem_destinations hmem with hadded | ⟨j, hj, hpage, heq⟩
    · exact h.fresh _ hadded (Package.mem_names_of_readText hw.reads)
    · exact hready.ne_head hrole j hj hpage heq
  have hdest : destinations ((r :: rs).map (·.1)) added =
      r.1.name :: destinations (rs.map (·.1)) added := destinations_page hrole
  constructor
  · simp [h.count_eq, hrole]
  · rw [hdest]
    exact List.nodup_cons.2 ⟨hnew, h.nodup⟩
  · rw [hdest]
    exact .cons (h.reads_written hw hnew) h.reads
  · exact h.isSlide
  · exact fun other hother hmem => h.fresh other hother (hw.mem_names (h.isSlide other hother) hmem)
  · rw [hdest]
    intro other hslide hother
    simp only [List.mem_cons, not_or] at hother
    exact h.frame_written hw hslide hother.1 hother.2

end Placed

/-! ### How results are placed -/

/-- The package in which the text of a result, if it has changed, is written to its part. -/
def Rendered.writeTo (r : Rendered) (p : Package) : Package :=
  if r.isChanged then p.writeText r.1.name r.2.text else p

theorem Rendered.writeTo_of_isChanged (h : r.isChanged) : r.writeTo p = p.writeText r.1.name r.2.text := if_pos h

theorem Rendered.writeTo_of_not_isChanged (h : ¬ r.isChanged) : r.writeTo p = p := if_neg h

variable {last : Text} {previous : Option Text}

@[simp] theorem on_place_nil : (place last previous []).on p = (.ok [], p) := rfl

theorem place_copy (hrole : r.1.role = .copy) : place last previous (r :: rs) = (do
    let name ← Package.duplicate last previous (some r.2.text)
    return name :: (← place last (some name) rs)) := if_pos hrole

/-- A result that is no copy goes to its own part, which copies follow if it is a page. -/
theorem on_place_page (hrole : r.1.role ≠ .copy) : (place last previous (r :: rs)).on p =
    (place last (if r.1.role = .page then some r.1.name else previous) rs).on (r.writeTo p) := by
  rw [place, if_neg hrole]
  simp only
  split
  case isTrue hchanged =>
    rw [Rendered.writeTo_of_isChanged hchanged, Package.Edit.on_bind, Package.Edit.on_modify]
  case isFalse hchanged => rw [Rendered.writeTo_of_not_isChanged hchanged]

theorem place_copy_eq_ok (hrole : r.1.role = .copy)
    (h : (place last previous (r :: rs)).on p = (.ok added, q)) : ∃ name p' added',
      (Package.duplicate last previous (some r.2.text)).on p = (.ok name, p') ∧
      (place last (some name) rs).on p' = (.ok added', q) ∧ name :: added' = added := by
  rw [place_copy hrole] at h
  obtain ⟨name, p', hcopy, h⟩ := Package.Edit.on_bind_eq_ok h
  obtain ⟨added', q', hrest, h⟩ := Package.Edit.on_bind_eq_ok h
  obtain ⟨rfl, rfl⟩ : name :: added' = added ∧ q' = q := by simpa using h
  exact ⟨name, p', added', hcopy, hrest, rfl⟩

/-- A page whose text has not changed is there already. -/
theorem written_page (hready : Ready p ((r :: rs).map (·.1))) (hrole : r.1.role ≠ .copy) :
    Written p r.1.name r.2.text (r.writeTo p) where
  isSlide := hready.isSlide r.1 List.mem_cons_self hrole
  reads := by
    by_cases hchanged : r.isChanged
    · rw [Rendered.writeTo_of_isChanged hchanged]
      exact Package.readText_of_content? (Package.content?_write_self p _ _)
    · have hsame : r.2.text = r.1.source := by simpa [Rendered.isChanged] using hchanged
      rw [Rendered.writeTo_of_not_isChanged hchanged, hsame]
      exact hready.reads r.1 List.mem_cons_self hrole
  frame := by
    intro other _ hne
    rw [Rendered.writeTo]
    split
    · exact Package.content?_write_of_ne hne.symm _
    · rfl

theorem place_eq_ok (hready : Ready p (rs.map (·.1)))
    (h : (place last previous rs).on p = (.ok added, q)) : Placed p rs added q := by
  induction rs generalizing p previous added with
  | nil =>
    obtain ⟨rfl, rfl⟩ : [] = added ∧ p = q := by simpa using h
    exact .nil p
  | cons r rs ih =>
    by_cases hrole : r.1.role = .copy
    · obtain ⟨name, p', added', hcopy, hrest, rfl⟩ := place_copy_eq_ok hrole h
      obtain ⟨hslide, hfresh, hcontent, hframe⟩ := Package.duplicate_eq_ok hcopy
      have hw : Written p name r.2.text p' :=
        ⟨hslide, Package.readText_of_content? hcontent, hframe⟩
      have hready' : Ready p' (rs.map (·.1)) := by
        refine hready.tail.after hw fun j hj hrole' heq => hfresh ?_
        exact heq ▸ Package.mem_names_of_readText (hready.tail.reads j hj hrole')
      exact .cons_copy hw hfresh hready.tail hrole (ih hready' hrest)
    · rw [on_place_page hrole] at h
      have hw := written_page hready hrole
      have hready' := hready.tail.after hw (hready.ne_head hrole)
      exact .cons_page hw hready hrole (ih hready' h)

end DeckMerge.Deck
