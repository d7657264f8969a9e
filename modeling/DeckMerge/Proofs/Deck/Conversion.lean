import DeckMerge.Proofs.Deck.Delivery
import DeckMerge.Proofs.Deck.Frame
import DeckMerge.Proofs.Package.Failures
import DeckMerge.Proofs.Placeholder.Unrolling

/-!
Which failures become part of a result. A page can always be expanded, so that jobs do not fail; what a
package is opened with, read for or written in the registries ends with a report, but for data that cannot
be unpacked and for a list of slides that cannot be extended.
-/

namespace DeckMerge

namespace Placeholder

/-- A binding of texts, and of lists of entries of texts, is a page. -/
theorem Binding.exists_page {b : Binding} (h : ∀ kv ∈ b, ∃ v : Bound, kv.2 = v.value) : ∃ p : Page, b = p.binding := by
  induction b with
  | nil => exact ⟨[], rfl⟩
  | cons kv b ih =>
    obtain ⟨⟨v, hv⟩, hb⟩ := List.forall_mem_cons.1 h
    obtain ⟨p, rfl⟩ := ih hb
    have hcons : Page.binding ((kv.1, v) :: p) = (kv.1, v.value) :: p.binding := rfl
    exact ⟨(kv.1, v) :: p, by rw [hcons, ← hv]⟩

end Placeholder

namespace Deck

open Placeholder (Binding Bound Page)
open Candidate (Record)

/-! ### Jobs -/

theorem jobItem_eq (j : Candidate.Job) :
    jobItem j = Bound.item [("JOB_TITLE", j.title), ("COMPANY", j.company), ("DATES", j.dates)] := rfl

theorem studyItem_eq (s : Candidate.Study) :
    studyItem s = Bound.item [("INSTITUTION", s.institution), ("DEGREE", s.degree), ("DATES", s.dates)] := rfl

theorem SlotField.exists_value (c : Config) (r : Record) (f : SlotField) : ∃ v : Bound, f.value c r = v.value := by
  have hlist : ∀ {α : Type} (g : α → Value) (fields : α → List (Text × Text)) (xs : List α),
      (∀ x, g x = Bound.item (fields x)) → ∃ v : Bound, Value.list (xs.map g) = v.value := by
    intro α g fields xs hg
    refine ⟨.entries (xs.map fields), ?_⟩
    rw [Bound.value, List.map_map]
    congr 2
    funext x
    exact hg x
  cases f with
  | name => exact ⟨.text _, rfl⟩
  | jobLines => exact ⟨.text _, rfl⟩
  | studyLines => exact ⟨.text _, rfl⟩
  | jobs => exact hlist _ _ _ jobItem_eq
  | studies => exact hlist _ _ _ studyItem_eq

theorem SlotField.exists_emptyValue (f : SlotField) : ∃ v : Bound, f.emptyValue = v.value := by
  cases f with
  | jobs | studies => exact ⟨.entries [], rfl⟩
  | name | jobLines | studyLines => exact ⟨.text [], rfl⟩

theorem exists_value_of_emptySlot (slot : Int) : ∀ kv ∈ emptySlot slot, ∃ v : Bound, kv.2 = v.value := by
  intro kv hkv
  obtain ⟨f, -, rfl⟩ := List.mem_map.1 hkv
  exact f.exists_emptyValue

theorem exists_page_emptyBinding (capacity : Nat) : ∃ p : Page, emptyBinding capacity = p.binding := by
  refine Binding.exists_page fun kv hkv => ?_
  obtain ⟨i, -, hi⟩ := List.mem_flatMap.1 hkv
  exact exists_value_of_emptySlot _ kv hi

theorem exists_page_of_bindPage {c : Config} {rs : List Record} {b : Binding} (h : bindPage c rs = .ok b) :
    ∃ p : Page, b = p.binding := by
  rw [bindPage] at h
  split at h
  · cases h
  · obtain ⟨_, -, h⟩ := Sequence.bind_eq_ok_iff.1 h
    obtain rfl := Except.ok.inj h
    refine Binding.exists_page fun kv hkv => ?_
    obtain ⟨i, -, hi⟩ := List.mem_flatMap.1 hkv
    split at hi
    · obtain ⟨f, -, rfl⟩ := List.mem_map.1 hi
      exact f.exists_value c _
    · exact exists_value_of_emptySlot _ kv hi

/-- A job for a page succeeds. -/
theorem Job.exists_run {j : Job} (h : ∃ p : Page, j.binding = p.binding) : ∃ r, j.run = .ok r := by
  obtain ⟨p, hp⟩ := h
  cases hrun : j.run with
  | ok r => exact ⟨r, rfl⟩
  | error f =>
    rcases Sequence.bind_eq_error_iff.1 hrun with hpart | ⟨_, -, hdone⟩
    · unfold Part.render at hpart
      rcases Sequence.bind_eq_error_iff.1 hpart with hexpand | ⟨_, -, hdone⟩
      · rw [hp, Placeholder.expand_page] at hexpand
        cases hexpand
      · cases hdone
    · cases hdone

variable {t : Template} {rs : List Record} {bindings : List Binding} {jobs : List Job}

theorem Template.exists_run_of_plan (hbind : t.bind rs = .ok bindings) (hplan : t.plan bindings = .ok jobs) :
    ∀ j ∈ jobs, ∃ r, j.run = .ok r := by
  intro j hj
  rw [plan_eq_ok hplan] at hj
  apply Job.exists_run
  rcases (planned_of_mem_jobsFrom hj).binding with hmem | hempty
  · rw [bind] at hbind
    split at hbind
    · cases hbind
    · obtain ⟨page, -, hpage⟩ := Sequence.exists_of_mem_mapM hbind hmem
      exact exists_page_of_bindPage hpage
  · rw [hempty]
    exact exists_page_emptyBinding _

/-! ### Reports -/

variable {c : Config} {p q : Package} {r : Report}

theorem place_stops (last : Text) (previous : Option Text) (rendered : List Rendered) :
    (place last previous rendered).Stops Package.Blocked := by
  induction rendered generalizing previous with
  | nil => exact .pure _
  | cons x rendered ih =>
    by_cases hrole : x.1.role = .copy
    · rw [place_copy hrole]
      exact (Package.duplicate_stops _ _ _).bind fun name => (ih _).bind fun _ => .pure _
    · intro p f q h
      rw [on_place_page hrole] at h
      exact ih _ _ f q h

namespace Order

variable {o : Order} {files ready : FileTree} {time : Text} {d : Delivery} {f : Fault}

end Order

end Deck

end DeckMerge
