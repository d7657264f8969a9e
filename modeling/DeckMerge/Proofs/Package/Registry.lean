import DeckMerge.Package.Registry
import DeckMerge.Proofs.Package.Slides

/-!
What edits of a package do, step by step; and that the parts a slide is registered in are no slides, so
that registering one leaves them alone.
-/

namespace DeckMerge.Package

namespace Edit

variable {α β : Type} {p q : Package}

@[simp] theorem on_pure (a : α) (p : Package) : (pure a : Edit α).on p = (.ok a, p) := rfl

@[simp] theorem on_throw (f : Failure) (p : Package) : (throw f : Edit α).on p = (.error f, p) := rfl

@[simp] theorem on_get (p : Package) : (get : Edit Package).on p = (.ok p, p) := rfl

@[simp] theorem on_set (p q : Package) : (set q : Edit PUnit).on p = (.ok ⟨⟩, q) := rfl

@[simp] theorem on_modify (f : Package → Package) (p : Package) :
    (modify f : Edit PUnit).on p = (.ok ⟨⟩, f p) := rfl

theorem on_bind (e : Edit α) (f : α → Edit β) (p : Package) : (e >>= f).on p =
    match e.on p with
    | (.ok a, q) => (f a).on q
    | (.error r, q) => (.error r, q) := by
  change (ExceptT.bindCont f (e.on p).1 : StateM Package (Except Failure β)) (e.on p).2 = _
  obtain ⟨r, q⟩ := e.on p
  cases r <;> rfl

theorem on_bind_eq_ok {e : Edit α} {f : α → Edit β} {b : β} (h : (e >>= f).on p = (.ok b, q)) :
    ∃ a p', e.on p = (.ok a, p') ∧ (f a).on p' = (.ok b, q) := by
  rw [on_bind] at h
  split at h
  case h_1 a p' he => exact ⟨a, p', he, h⟩
  case h_2 => simp at h

theorem on_bind_eq_error {e : Edit α} {f : α → Edit β} {r : Failure} (h : (e >>= f).on p = (.error r, q)) :
    e.on p = (.error r, q) ∨ ∃ a p', e.on p = (.ok a, p') ∧ (f a).on p' = (.error r, q) := by
  rw [on_bind] at h
  split at h
  case h_1 a p' he => exact .inr ⟨a, p', he, h⟩
  case h_2 r' p' he =>
    obtain ⟨hr, rfl⟩ := Prod.mk.inj h
    obtain rfl := Except.error.inj hr
    exact .inl he

/-- An edit, be it done or failed, leaves the contents of some parts alone. -/
def Keeps (keep : Text → Prop) (e : Edit α) : Prop :=
  ∀ p name, keep name → (e.on p).2.content? name = p.content? name

namespace Keeps

variable {keep : Text → Prop}

theorem content?_eq {e : Edit α} {r : Except Failure α} (he : e.Keeps keep) (h : e.on p = (r, q))
    {name : Text} (hname : keep name) : q.content? name = p.content? name := by
  have hkeep := he p name hname
  rwa [h] at hkeep

theorem pure (a : α) : (pure a : Edit α).Keeps keep := fun _ _ _ => rfl

theorem throw (f : Failure) : (throw f : Edit α).Keeps keep := fun _ _ _ => rfl

theorem get : (get : Edit Package).Keeps keep := fun _ _ _ => rfl

theorem bind {e : Edit α} {f : α → Edit β} (he : e.Keeps keep) (hf : ∀ a, (f a).Keeps keep) :
    (e >>= f).Keeps keep := by
  intro p name hname
  rw [on_bind, ← he p name hname]
  split
  case h_1 a q h => rw [h, hf a q name hname]
  case h_2 r q h => rw [h]

theorem writeText {name : Text} (h : ¬ keep name) (s : Text) :
    (modify fun p => p.writeText name s : Edit PUnit).Keeps keep := by
  intro p name' hname'
  have hne : name ≠ name' := fun heq => h (heq ▸ hname')
  exact content?_write_of_ne hne (Text.utf8 s)

end Keeps

end Edit

open Edit

/-! ### What is registered leaves the slides alone -/

abbrev KeepsSlides {α : Type} (e : Edit α) : Prop := e.Keeps fun name => isSlide name

theorem not_isSlide_contentTypes : ¬ isSlide contentTypes := by decide

theorem not_isSlide_presentation : ¬ isSlide presentation := by decide

theorem not_isSlide_presentationRelationships : ¬ isSlide presentationRelationships := by
  decide

theorem not_isSlide_relationshipsName (name : Text) : ¬ isSlide (relationshipsName name) := by
  intro h
  have hlast : (relationshipsName name).getLast? = some 's' := by
    simp only [relationshipsName, List.getLast?_append]
    rfl
  obtain ⟨digits, rest, hname, hrest⟩ := eq_append_of_isSlide h
  rw [hname, List.getLast?_append, List.getLast?_append] at hlast
  rcases hrest with rfl | rfl
  · have h' : some 'l' = some 's' := hlast
    exact absurd h' (by decide)
  · have h' : some '\n' = some 's' := hlast
    exact absurd h' (by decide)

theorem readDocument_keeps (keep : Text → Prop) (name : Text) : (readDocument name).Keeps keep := by
  apply Keeps.get.bind
  intro p
  split
  · exact .throw _
  · split
    · exact .pure _
    · exact .throw _

theorem writeDocument_keepsSlides {name : Text} (h : ¬ isSlide name) (d : Xml.Document) :
    KeepsSlides (writeDocument name d) := Keeps.writeText h d.write

theorem registerContentType_keepsSlides (name : Text) : KeepsSlides (registerContentType name) := by
  apply (readDocument_keeps _ _).bind
  intro d
  simp only
  split
  · exact .pure _
  · exact writeDocument_keepsSlides not_isSlide_contentTypes _

theorem addRelationship_keepsSlides (name : Text) : KeepsSlides (addRelationship name) := by
  apply (readDocument_keeps _ _).bind
  intro d
  apply (writeDocument_keepsSlides not_isSlide_presentationRelationships _).bind
  exact fun _ => .pure _

theorem copyRelationships_keepsSlides (source name : Text) :
    KeepsSlides (copyRelationships source name) := by
  apply Keeps.get.bind
  intro p
  split
  · exact .pure _
  · apply (readDocument_keeps _ _).bind
    exact fun d => writeDocument_keepsSlides (not_isSlide_relationshipsName name) _

theorem addToShow_keepsSlides (id after : Text) : KeepsSlides (addToShow id after) := by
  apply (readDocument_keeps _ _).bind
  intro d
  simp only
  split
  · exact writeDocument_keepsSlides not_isSlide_presentation _
  · exact .throw _

end DeckMerge.Package
