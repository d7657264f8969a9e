import DeckMerge.Proofs.Package.Registries

/-!
What a package says about its slides, and what adding one changes of it. Documents that are read without
an error are written so that they read back.
-/

namespace DeckMerge.Package

open Xml (Element Node Tag Document)

variable {p q : Package} {name other source id : Text} {after s : Option Text} {d : Document}

/-! ### Documents that read back -/

theorem document?_writeDocumentTo_self (hd : d.Sound) : (p.writeDocumentTo name d).document? name = some d.reread := by
  rw [document?, writeDocumentTo, writeText, content?_write_self, Option.bind_some, hd.ofBytes?_write]

theorem document?_write_of_ne (h : name ≠ other) (bs : Bytes) :
    (p.write name bs).document? other = p.document? other := by
  rw [document?, document?, content?_write_of_ne h]

theorem document?_writeDocumentTo_of_ne (h : name ≠ other) (d : Document) :
    (p.writeDocumentTo name d).document? other = p.document? other :=
  document?_write_of_ne h _

/-- What there is to complain of in the document that a part holds. -/
def complaints? (p : Package) (name : Text) : Option (List Xml.Complaint) := do
  let s ← Xml.decode? (← p.content? name)
  return (← Document.check (Text.withLineFeeds s)).2

/-- A part that is read, if it can be, without an error. -/
def Clear (p : Package) (name : Text) : Prop := ∀ complaints ∈ p.complaints? name, .error ∉ complaints

instance (p : Package) (name : Text) : Decidable (p.Clear name) :=
  inferInstanceAs (Decidable (∀ complaints ∈ p.complaints? name, _))

theorem Clear.sound (h : p.Clear name) (hd : p.document? name = some d) : d.Sound := by
  simp only [document?, Document.ofBytes?, Document.ofText?, Option.bind_eq_bind, Option.bind_eq_some_iff] at hd
  obtain ⟨bs, hbs, s, hs, ⟨d', complaints⟩, hcheck, hd⟩ := hd
  obtain ⟨-, hd⟩ := Option.ite_none_left_eq_some.1 hd
  obtain rfl := Option.some.inj hd
  refine Document.sound_of_check hcheck (h complaints ?_)
  simp [complaints?, hbs, hs, hcheck]

theorem clear_of_notMem (h : name ∉ p.names) : p.Clear name := by
  rw [← content?_isSome_iff, Option.not_isSome_iff_eq_none] at h
  simp [Clear, complaints?, h]

/-- A part in which slides, or what slides refer to, are registered. -/
def IsRegistry (name : Text) : Prop := name ∈ registries ∨ ∃ slide, isSlide slide ∧ name = relationshipsName slide

/-- The registries can be written so that they read back, also with more slides. -/
structure Rewritable (p : Package) : Prop where
  sound : ∀ name d, IsRegistry name → p.document? name = some d → d.Sound
  unshadowed : ∀ d, p.document? presentation = some d → Unshadowed d.root

/-! ### Views of a package -/

/-- What a part says, if it is there and holds a document. -/
def view {α : Type} (f : Element → List α) (name : Text) (p : Package) : List α :=
  ((p.document? name).map fun d => f d.root).getD []

/-- The tags that give parts content types of their own. -/
def typed (p : Package) : List Tag := p.view (·.tagsOf Uri.contentTypes "Override") contentTypes

/-- The names under which parts have content types of their own. -/
def overridden (p : Package) : List Text := p.typed.filterMap (·.get? [] "PartName")

/-- The relationships of the presentation. -/
def relations (p : Package) : List Relationship := p.view relationships presentationRelationships

/-- The entries of the list of slides. -/
def listed (p : Package) : List Tag := p.view shown presentation

/-- The relationships of a slide. -/
def relationsOf (slide : Text) (p : Package) : List Relationship := p.view relationships (relationshipsName slide)

theorem view_of_document? {α : Type} {f : Element → List α} (h : p.document? name = some d) :
    p.view f name = f d.root := by
  rw [view, h]
  rfl

theorem view_of_notMem {α : Type} {f : Element → List α} (h : name ∉ p.names) : p.view f name = [] := by
  rw [← content?_isSome_iff, Option.not_isSome_iff_eq_none] at h
  rw [view, document?, h]
  rfl

theorem view_congr {α : Type} {f : Element → List α} (h : q.document? name = p.document? name) :
    q.view f name = p.view f name := by
  rw [view, view, h]

/-! ### What the first steps leave alone -/

theorem document?_of_copyRelationships {u : Unit} (h : (copyRelationships source name).on p = (.ok u, q))
    (hother : other ≠ relationshipsName name) : q.document? other = p.document? other := by
  rcases copyRelationships_eq_ok h with ⟨-, rfl⟩ | ⟨-, d, -, rfl⟩
  · rfl
  · exact document?_writeDocumentTo_of_ne hother.symm _

theorem document?_of_registerContentType {u : Unit} (h : (registerContentType name).on p = (.ok u, q))
    (hother : other ≠ contentTypes) : q.document? other = p.document? other := by
  obtain ⟨d, -, ⟨-, rfl⟩ | ⟨-, rfl⟩⟩ := registerContentType_eq_ok h
  · rfl
  · exact document?_writeDocumentTo_of_ne hother.symm _

/-! ### Names of parts -/

theorem relationshipsName_notMem_registries (hname : isSlide name) : relationshipsName name ∉ registries := by
  obtain ⟨file, hfile, rfl⟩ := exists_file_of_isSlide hname
  rw [relationshipsName_append hfile]
  have hfront : ("ppt/slides/_rels/".toList ++ file ++ ".rels".toList).take 5 = "ppt/s".toList := rfl
  have hothers : "ppt/s".toList ∉ registries.map (List.take 5) := by decide
  intro hmem
  exact hothers (hfront ▸ List.mem_map_of_mem hmem)

theorem isSlide_ne_registry (hname : isSlide name) (hother : IsRegistry other) : name ≠ other := by
  rintro rfl
  rcases hother with hmem | ⟨slide, -, rfl⟩
  · simp only [registries, List.mem_cons, List.not_mem_nil, or_false] at hmem
    rcases hmem with rfl | rfl | rfl <;> revert hname
    · exact not_isSlide_contentTypes
    · exact not_isSlide_presentationRelationships
    · exact not_isSlide_presentation
  · exact not_isSlide_relationshipsName slide hname

theorem isRegistry_contentTypes : IsRegistry contentTypes := .inl List.mem_cons_self

theorem isRegistry_presentationRelationships : IsRegistry presentationRelationships :=
  .inl (List.mem_cons_of_mem _ List.mem_cons_self)

theorem isRegistry_presentation : IsRegistry presentation :=
  .inl (List.mem_cons_of_mem _ (List.mem_cons_of_mem _ List.mem_cons_self))

theorem isRegistry_relationshipsName (hname : isSlide name) : IsRegistry (relationshipsName name) :=
  .inr ⟨name, hname, rfl⟩

/-! ### Documents stay such that they read back -/

namespace Rewritable

theorem congr (h : p.Rewritable) (heq : ∀ other, IsRegistry other → q.document? other = p.document? other) :
    q.Rewritable where
  sound other d hother hd := h.sound other d hother (by rwa [← heq other hother])
  unshadowed d hd := h.unshadowed d (by rwa [← heq _ isRegistry_presentation])

theorem write (h : p.Rewritable) (hd : d.Sound) (hroot : name = presentation → Unshadowed d.root) :
    (p.writeDocumentTo name d).Rewritable where
  sound other d' hother hd' := by
    by_cases hne : name = other
    · subst hne
      rw [document?_writeDocumentTo_self hd] at hd'
      obtain rfl := Option.some.inj hd'
      exact hd.reread
    · rw [document?_writeDocumentTo_of_ne hne] at hd'
      exact h.sound other d' hother hd'
  unshadowed d' hd' := by
    by_cases hne : name = presentation
    · subst hne
      rw [document?_writeDocumentTo_self hd] at hd'
      obtain rfl := Option.some.inj hd'
      exact (hroot rfl).fed
    · rw [document?_writeDocumentTo_of_ne hne] at hd'
      exact h.unshadowed d' hd'

end Rewritable

theorem view_writeDocumentTo_self {α : Type} {f : Element → List α} (hd : d.Sound)
    (hf : ∀ e : Element, f e.fed = f e) : (p.writeDocumentTo name d).view f name = f d.root := by
  rw [view_of_document? (document?_writeDocumentTo_self hd)]
  exact hf d.root

/-! ### What each step adds -/

theorem all_isLegal_slideName (n : Nat) : (slideName n).all Xml.isLegal := by
  have hfront : ("ppt/slides/slide".toList).all Xml.isLegal := by decide
  have hback : (".xml".toList).all Xml.isLegal := by decide
  have hname : slideName n = "ppt/slides/slide".toList ++ Text.ofNat n ++ ".xml".toList := rfl
  rw [hname, List.all_append, List.all_append, hfront, all_isLegal_ofNat, hback]
  rfl

theorem all_isLegal_nextRelationship (rs : List Relationship) : (nextRelationship rs).all Xml.isLegal := by
  have hfront : ("rId".toList).all Xml.isLegal := by decide
  have hid : nextRelationship rs = "rId".toList ++ Text.ofNat (_ + 1) := rfl
  rw [hid, List.all_append, hfront, all_isLegal_ofNat]
  rfl

theorem sound_withoutNotes {root : Element} (h : (root : Node).Sound [] 0) :
    (withoutNotes root : Node).Sound [] 0 := by
  obtain ⟨hdepth, htag, hchildren⟩ := h
  exact ⟨hdepth, htag, hchildren.dropElements _ _⟩

theorem relationships_withoutNotes_subset (root : Element) :
    relationships (withoutNotes root) ⊆ relationships root := by
  rw [relationships, relationships, Xml.tagsOf_eq, Xml.tagsOf_eq]
  exact (((Xml.dropElements_sublist _ _ _).filterMap _).map _).subset

theorem copied_of_copyRelationships {u : Unit} (hp : p.Rewritable) (hsource : isSlide source)
    (hname : isSlide name) (h : (copyRelationships source name).on p = (.ok u, q)) :
    q.Rewritable ∧ (∀ other, other ≠ relationshipsName name → q.document? other = p.document? other) ∧
      (relationshipsName name ∉ p.names → q.relationsOf name ⊆ p.relationsOf source) := by
  rcases copyRelationships_eq_ok h with ⟨-, rfl⟩ | ⟨-, d, hd, rfl⟩
  · refine ⟨hp, fun _ _ => rfl, fun hnone => ?_⟩
    rw [relationsOf, view_of_notMem hnone]
    exact List.nil_subset _
  · have hsound := hp.sound _ d (isRegistry_relationshipsName hsource) hd
    have hnew : (withRoot d (withoutNotes d.root)).Sound := ⟨hsound.version, sound_withoutNotes hsound.root⟩
    refine ⟨hp.write hnew ?_, fun other hother => document?_writeDocumentTo_of_ne hother.symm _, fun _ => ?_⟩
    · exact fun heq => absurd (heq ▸ by decide) (relationshipsName_notMem_registries hname)
    · rw [relationsOf, view_writeDocumentTo_self hnew relationships_fed, relationsOf, view_of_document? hd]
      exact relationships_withoutNotes_subset d.root

theorem typed_of_registerContentType {u : Unit} (hp : p.Rewritable) (hname : name.all Xml.isLegal)
    (h : (registerContentType name).on p = (.ok u, q)) : q.Rewritable ∧
      (∀ other, other ≠ contentTypes → q.document? other = p.document? other) ∧
      ('/' :: name ∉ p.overridden →
        ∃ root, q.typed = p.typed ++ [overrideTag name root]) := by
  obtain ⟨d, hd, ⟨hmem, rfl⟩ | ⟨-, rfl⟩⟩ := registerContentType_eq_ok h
  · refine ⟨hp, fun _ _ => rfl, fun hnone => ?_⟩
    rw [overridden, typed, view_of_document? hd] at hnone
    exact absurd hmem hnone
  · have hsound := hp.sound _ d isRegistry_contentTypes hd
    have hnew : (withRoot d (withOverride name d.root)).Sound :=
      ⟨hsound.version, sound_withOverride hsound.root hname⟩
    refine ⟨hp.write hnew fun heq => absurd heq (by decide), fun other hother => document?_writeDocumentTo_of_ne hother.symm _,
      fun _ => ⟨d.root, ?_⟩⟩
    rw [typed, view_writeDocumentTo_self hnew fun e => Xml.tagsOf_fed e _ _, typed, view_of_document? hd]
    exact tagsOf_withOverride name d.root

theorem related_of_addRelationship (hp : p.Rewritable) (hname : name.all Xml.isLegal)
    (h : (addRelationship name).on p = (.ok id, q)) : q.Rewritable ∧
      (∀ other, other ≠ presentationRelationships → q.document? other = p.document? other) ∧
      id = nextRelationship p.relations ∧
      q.relations = p.relations ++ [⟨id, slideRelationship, targetOf name⟩] := by
  obtain ⟨d, hd, hid, rfl⟩ := addRelationship_eq_ok h
  have hsound := hp.sound _ d isRegistry_presentationRelationships hd
  have hlegal : id.all Xml.isLegal := hid ▸ all_isLegal_nextRelationship _
  have hnew : (withRoot d (withRelationship id name d.root)).Sound :=
    ⟨hsound.version, sound_withRelationship hsound.root hlegal hname⟩
  have hrelations : p.relations = relationships d.root := view_of_document? hd
  refine ⟨hp.write hnew fun heq => absurd heq (by decide), fun other hother => document?_writeDocumentTo_of_ne hother.symm _,
    by rw [hid, hrelations], ?_⟩
  rw [relations, view_writeDocumentTo_self hnew relationships_fed, hrelations]
  exact relationships_withRelationship id name d.root

theorem listed_of_addToShow {after : Text} {u : Unit} (hp : p.Rewritable) (hid : id.all Xml.isLegal)
    (h : (addToShow id after).on p = (.ok u, q)) : q.Rewritable ∧
      (∀ other, other ≠ presentation → q.document? other = p.document? other) ∧
      ∃ scope before behind numbers, p.listed = before ++ behind ∧
        List.Forall₂ (fun t n => entryNumber? t = some n) p.listed numbers ∧
        q.listed = before ++ entryTag scope (nextSlideNumber numbers) id :: behind := by
  obtain ⟨d, root, hd, hshown, rfl⟩ := addToShow_eq_ok h
  have hsound := hp.sound _ d isRegistry_presentation hd
  have hunshadowed := hp.unshadowed d hd
  have hnew : (withRoot d root).Sound := ⟨hsound.version, sound_withShown hsound.root hunshadowed hid hshown⟩
  refine ⟨hp.write hnew fun _ => unshadowed_of_withShown hunshadowed hshown,
    fun other hother => document?_writeDocumentTo_of_ne hother.symm _, ?_⟩
  rw [listed, listed, view_of_document? hd, view_writeDocumentTo_self hnew shown_fed]
  exact shown_of_withShown hshown

/-! ### What adding a slide adds -/

/-- What a package says of its slides before and after a copy of one has been added. -/
structure Registered (source name : Text) (p q : Package) : Prop where
  typed : '/' :: name ∉ p.overridden →
    ∃ root, q.typed = p.typed ++ [overrideTag name root]
  related : q.relations = p.relations ++ [⟨nextRelationship p.relations, slideRelationship, targetOf name⟩]
  listed : ∃ scope before behind numbers, p.listed = before ++ behind ∧
    List.Forall₂ (fun t n => entryNumber? t = some n) p.listed numbers ∧
    q.listed = before ++ entryTag scope (nextSlideNumber numbers) (nextRelationship p.relations) :: behind
  kept : ∀ slide, isSlide slide → slide ≠ name → q.relationsOf slide = p.relationsOf slide
  copied : relationshipsName name ∉ p.names → q.relationsOf name ⊆ p.relationsOf source

theorem registered_of_duplicate (hp : p.Rewritable) (hsource : isSlide source)
    (h : (duplicate source after s).on p = (.ok name, q)) : q.Rewritable ∧ Registered source name p q := by
  obtain ⟨hname, content, p₁, p₂, p₃, shownAfter, id, -, hcopied, htyped, -, hadded, hlisted⟩ :=
    duplicated_of_duplicate h
  have hslide : isSlide name := hname ▸ isSlide_slideName _
  have hlegal : name.all Xml.isLegal := hname ▸ all_isLegal_slideName _
  have hwritten := fun other (hother : IsRegistry other) =>
    @document?_write_of_ne p name other (isSlide_ne_registry hslide hother) ((s.map Text.utf8).getD content)
  have hnames : ∀ other, other ≠ name →
      (other ∈ (p.write name ((s.map Text.utf8).getD content)).names ↔ other ∈ p.names) := by
    intro other hother
    rw [← content?_isSome_iff, ← content?_isSome_iff, content?_write_of_ne hother.symm]
  generalize p.write name ((s.map Text.utf8).getD content) = p₀ at hcopied hwritten hnames
  obtain ⟨hp₁, hframe₁, hcopy⟩ := copied_of_copyRelationships (hp.congr hwritten) hsource hslide hcopied
  obtain ⟨hp₂, hframe₂, htype⟩ := typed_of_registerContentType hp₁ hlegal htyped
  obtain ⟨hp₃, hframe₃, hid, hrelated⟩ := related_of_addRelationship hp₂ hlegal hadded
  obtain ⟨hq, hframe₄, hlist⟩ := listed_of_addToShow hp₃ (hid ▸ all_isLegal_nextRelationship _) hlisted
  -- Each registry is written by one of the steps only.
  have hne : ∀ other, other ∈ registries → other ≠ relationshipsName name := fun other hmem heq =>
    relationshipsName_notMem_registries hslide (heq ▸ hmem)
  have hne' : ∀ slide other, isSlide slide → other ∈ registries → relationshipsName slide ≠ other :=
    fun slide other hother hmem heq => relationshipsName_notMem_registries hother (heq ▸ hmem)
  have htyped₁ : p₁.typed = p.typed :=
    view_congr ((hframe₁ _ (hne _ (by decide))).trans (hwritten _ isRegistry_contentTypes))
  have htyped₂ : q.typed = p₂.typed :=
    view_congr ((hframe₄ _ (by decide)).trans (hframe₃ _ (by decide)))
  have hrelations₂ : p₂.relations = p.relations :=
    view_congr (((hframe₂ _ (by decide)).trans (hframe₁ _ (hne _ (by decide)))).trans
      (hwritten _ isRegistry_presentationRelationships))
  have hrelations₃ : q.relations = p₃.relations := view_congr (hframe₄ _ (by decide))
  have hlisted₃ : p₃.listed = p.listed :=
    view_congr ((((hframe₃ _ (by decide)).trans (hframe₂ _ (by decide))).trans
      (hframe₁ _ (hne _ (by decide)))).trans (hwritten _ isRegistry_presentation))
  have howned₁ : ∀ slide, isSlide slide → q.relationsOf slide = p₁.relationsOf slide := fun slide hother =>
    view_congr (((hframe₄ _ (hne' _ _ hother (by decide))).trans
      (hframe₃ _ (hne' _ _ hother (by decide)))).trans (hframe₂ _ (hne' _ _ hother (by decide))))
  have howned : ∀ slide, isSlide slide → p₀.relationsOf slide = p.relationsOf slide := fun slide hother =>
    view_congr (hwritten _ (isRegistry_relationshipsName hother))
  rw [hrelations₂] at hid hrelated
  rw [hid] at hrelated hlist
  rw [overridden, htyped₁] at htype
  rw [hlisted₃] at hlist
  refine ⟨hq, ⟨?_, by rw [hrelations₃, hrelated], hlist, ?_, ?_⟩⟩
  · rw [htyped₂]
    exact htype
  · intro slide hother hdiffers
    have hdocument : relationshipsName slide ≠ relationshipsName name :=
      fun heq => hdiffers (relationshipsName_inj hother hslide heq)
    rw [howned₁ slide hother, ← howned slide hother]
    exact view_congr (hframe₁ _ hdocument)
  · intro hnone
    rw [howned₁ name hslide, ← howned source hsource]
    refine hcopy ?_
    rwa [hnames _ fun heq => not_isSlide_relationshipsName name (by rw [heq]; exact hslide)]

end DeckMerge.Package
