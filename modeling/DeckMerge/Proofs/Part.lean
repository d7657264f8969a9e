import DeckMerge.Part
import DeckMerge.Proofs.Sequence

/-!
Rendering a part under a name. The name shows in notes and nowhere else.
-/

namespace DeckMerge

namespace Run

theorem writeLines_part (t : Task) (part : Option Text) (lines : List Text) (done rest : Text)
    (o : Outcome) (notes notes' : List Note) :
    (Task.writeLines { t with part := part } lines done rest o notes').1 =
        (t.writeLines lines done rest o notes).1 ∧
      (Task.writeLines { t with part := part } lines done rest o notes').2.1 =
        (t.writeLines lines done rest o notes).2.1 := by
  fun_induction Task.writeLines t lines done rest o notes generalizing notes' with
  | case1 done rest o notes hnone =>
    rw [Task.writeLines]
    simp [hnone]
  | case2 done rest o notes before after hbreak hlt site hsite ih =>
    rw [Task.writeLines]
    simp only [hbreak, hlt, if_true, hsite]
    exact ih _
  | case3 done rest o notes before after hbreak hlt os hsite ih =>
    rw [Task.writeLines]
    simp only [hbreak, hlt, if_true, hsite]
    exact ih _
  | case4 done rest o notes before after hbreak hlt =>
    rw [Task.writeLines]
    simp [hbreak, hlt]

theorem run_part (t : Task) (part : Option Text) (s : Text) :
    (Task.run { t with part := part } s).1 = (t.run s).1 ∧
      (Task.run { t with part := part } s).2.1 = (t.run s).2.1 := by
  simp only [Task.run]
  split
  · have h := writeLines_part t part (Markup.lines t.value) [] s
      ⟨t.label, .missing, 0, (Markup.lines t.value).length, 0, none⟩ [] []
    exact h
  · exact ⟨rfl, rfl⟩

theorem inject_part (s token value : Text) (part part' label : Option Text) :
    (inject s token value part label).1 = (inject s token value part' label).1 ∧
      (inject s token value part label).2.1 = (inject s token value part' label).2.1 :=
  run_part ⟨token, value, _, part'⟩ part s

theorem fillFrom_part (slots : List Placeholder.Slot) (part part' : Option Text) (index : Nat)
    (s : Text) : (fillFrom part index s slots).1 = (fillFrom part' index s slots).1 ∧
      (fillFrom part index s slots).2.1 = (fillFrom part' index s slots).2.1 := by
  induction slots generalizing index s with
  | nil => exact ⟨rfl, rfl⟩
  | cons slot slots ih =>
    simp only [fillFrom]
    obtain ⟨htext, houtcome⟩ := inject_part s (Placeholder.slotText index) slot.value part part'
      (if slot.key = [] then none else some (Placeholder.scalarText slot.key))
    rw [htext, houtcome]
    exact ⟨(ih _ _).1, congrArg _ (ih _ _).2⟩

end Run

theorem Part.render_nameless {name : Option Text} {s : Text} {binding : Placeholder.Binding} {part : Part}
    (h : Part.render name s binding = .ok part) :
    ∃ part', Part.render none s binding = .ok part' ∧ part'.text = part.text := by
  simp only [Part.render] at h ⊢
  obtain ⟨e, he, h⟩ := Sequence.bind_eq_ok_iff.1 h
  rw [he, Sequence.bind_ok]
  obtain rfl := Except.ok.inj h
  exact ⟨_, rfl, (Run.fillFrom_part e.slots none name 0 e.text).1⟩

end DeckMerge
