import DeckMerge.Proofs.Package.Registry

/-!
What each step of adding a slide does when it succeeds: the documents that it finds, and the one that it
writes. The slide itself is new, and no other one changes.
-/

namespace DeckMerge.Package

open Edit

variable {p q : Package} {name : Text}

/-- The document that a part holds. -/
def document? (p : Package) (name : Text) : Option Xml.Document :=
  (p.content? name).bind Xml.Document.ofBytes?

def writeDocumentTo (p : Package) (name : Text) (d : Xml.Document) : Package := p.writeText name d.write

theorem readDocument_eq_ok {d : Xml.Document} (h : (readDocument name).on p = (.ok d, q)) :
    q = p ∧ p.document? name = some d := by
  obtain ⟨_, p', hget, h⟩ := on_bind_eq_ok h
  obtain ⟨rfl, rfl⟩ : p = _ ∧ p = p' := by simpa using hget
  rw [read] at h
  cases hcontent : p.content? name with
  | none => simp [hcontent, failWith] at h
  | some bs =>
    cases hdocument : Xml.Document.ofBytes? bs with
    | none => simp [hcontent, hdocument, failWith] at h
    | some d' =>
      obtain ⟨rfl, rfl⟩ : d' = d ∧ p = q := by simpa [hcontent, hdocument] using h
      exact ⟨rfl, by rw [document?, hcontent, Option.bind_some, hdocument]⟩

theorem writeDocument_eq_ok {d : Xml.Document} {u : Unit}
    (h : (writeDocument name d).on p = (.ok u, q)) : q = p.writeDocumentTo name d := by
  obtain rfl : p.writeText name d.write = q := by simpa [writeDocument] using h
  rfl

/-! ### The registrations -/

/-- The root with a slide registered, unless it is already. -/
def withOverride (name : Text) (root : Xml.Element) : Xml.Element :=
  root.append Uri.contentTypes "Override" [("PartName", '/' :: name), ("ContentType", slideContentType)]

theorem registerContentType_eq_ok {u : Unit} (h : (registerContentType name).on p = (.ok u, q)) :
    ∃ d, p.document? contentTypes = some d ∧
      ('/' :: name ∈ overrides d.root ∧ q = p ∨
        '/' :: name ∉ overrides d.root ∧
          q = p.writeDocumentTo contentTypes (withRoot d (withOverride name d.root))) := by
  obtain ⟨d, p', hread, hrest⟩ := on_bind_eq_ok h
  obtain ⟨rfl, hd⟩ := readDocument_eq_ok hread
  refine ⟨d, hd, ?_⟩
  simp only at hrest
  split at hrest
  case isTrue hmem =>
    obtain rfl : p' = q := by simpa using hrest
    exact .inl ⟨by simpa using hmem, rfl⟩
  case isFalse hmem => exact .inr ⟨by simpa using hmem, writeDocument_eq_ok hrest⟩

/-- The root with a relationship that leads to a slide. -/
def withRelationship (id name : Text) (root : Xml.Element) : Xml.Element :=
  root.append Uri.relationships "Relationship"
    [("Id", id), ("Type", slideRelationship), ("Target", targetOf name)]

theorem addRelationship_eq_ok {id : Text} (h : (addRelationship name).on p = (.ok id, q)) :
    ∃ d, p.document? presentationRelationships = some d ∧ id = nextRelationship (relationships d.root) ∧
      q = p.writeDocumentTo presentationRelationships (withRoot d (withRelationship id name d.root)) := by
  obtain ⟨d, p', hread, hrest⟩ := on_bind_eq_ok h
  obtain ⟨rfl, hd⟩ := readDocument_eq_ok hread
  obtain ⟨_, p₁, hwrite, hid⟩ := on_bind_eq_ok hrest
  obtain ⟨rfl, rfl⟩ : nextRelationship (relationships d.root) = id ∧ p₁ = q := by simpa using hid
  exact ⟨d, hd, rfl, writeDocument_eq_ok hwrite⟩

/-- The identifier of the first relationship that leads to a slide; empty if there is none. -/
def firstTo (name : Text) (rs : List Relationship) : Text := ((rs.find? (·.leadsTo name)).map (·.id)).getD []

theorem relationshipTo_eq_ok {id : Text} (h : (relationshipTo name).on p = (.ok id, q)) :
    q = p ∧ ∃ d, p.document? presentationRelationships = some d ∧
      id = firstTo name (relationships d.root) := by
  obtain ⟨d, p', hread, hrest⟩ := on_bind_eq_ok h
  obtain ⟨rfl, hd⟩ := readDocument_eq_ok hread
  obtain ⟨rfl, rfl⟩ : firstTo name (relationships d.root) = id ∧ p' = q := by simpa [firstTo] using hrest
  exact ⟨rfl, d, hd, rfl⟩

/-- The root with a slide shown after another. -/
def withShown (id after : Text) (root : Xml.Element) : Except Fault Xml.Element := do
  let root ← withSlideList root
  let children ← changeSlideList (listSlide root.tag.declarations id after) root.children
  return { root with children := children }

theorem addToShow_eq_ok {id after : Text} {u : Unit} (h : (addToShow id after).on p = (.ok u, q)) :
    ∃ d root, p.document? presentation = some d ∧ withShown id after d.root = .ok root ∧
      q = p.writeDocumentTo presentation (withRoot d root) := by
  obtain ⟨d, p', hread, hrest⟩ := on_bind_eq_ok h
  obtain ⟨rfl, hd⟩ := readDocument_eq_ok hread
  simp only at hrest
  split at hrest
  case h_1 root hshown => exact ⟨d, root, hd, hshown, writeDocument_eq_ok hrest⟩
  case h_2 f hshown => simp at hrest

/-- The root of a slide's relationships without its notes. -/
def withoutNotes (root : Xml.Element) : Xml.Element :=
  { root with
    children := Xml.dropElements (fun t => t.is Uri.relationships "Relationship" ∧
      (Relationship.ofTag t).type = notesRelationship) false root.children }

theorem copyRelationships_eq_ok {source : Text} {u : Unit}
    (h : (copyRelationships source name).on p = (.ok u, q)) :
    ¬ p.has (relationshipsName source) ∧ q = p ∨
      p.has (relationshipsName source) ∧ ∃ d, p.document? (relationshipsName source) = some d ∧
        q = p.writeDocumentTo (relationshipsName name) (withRoot d (withoutNotes d.root)) := by
  obtain ⟨_, p', hget, hrest⟩ := on_bind_eq_ok h
  obtain ⟨rfl, rfl⟩ : p = _ ∧ p = p' := by simpa using hget
  split at hrest
  case isTrue hhas =>
    obtain rfl : p = q := by simpa using hrest
    exact .inl ⟨by simpa using hhas, rfl⟩
  case isFalse hhas =>
    obtain ⟨d, p₁, hread, hwrite⟩ := on_bind_eq_ok hrest
    obtain ⟨rfl, hd⟩ := readDocument_eq_ok hread
    exact .inr ⟨by simpa using hhas, d, hd, writeDocument_eq_ok hwrite⟩

/-! ### Copies -/

/-- What has happened when a slide has been added, step by step. -/
structure Duplicated (source : Text) (after s : Option Text) (name : Text) (p q : Package) : Prop where
  name_eq : name = slideName p.nextNumber
  steps : ∃ content p₁ p₂ p₃ shownAfter id, p.content? source = some content ∧
    (copyRelationships source name).on (p.write name ((s.map Text.utf8).getD content)) = (.ok (), p₁) ∧
    (registerContentType name).on p₁ = (.ok (), p₂) ∧
    (relationshipTo (match after with
      | none | some [] => source
      | some name => name)).on p₂ = (.ok shownAfter, p₂) ∧
    (addRelationship name).on p₂ = (.ok id, p₃) ∧
    (addToShow id shownAfter).on p₃ = (.ok (), q)

theorem duplicated_of_duplicate {source : Text} {after s : Option Text}
    (h : (duplicate source after s).on p = (.ok name, q)) : Duplicated source after s name p q := by
  unfold duplicate at h
  obtain ⟨_, p', hget, h⟩ := on_bind_eq_ok h
  obtain ⟨rfl, rfl⟩ : p = _ ∧ p = p' := by simpa using hget
  simp only at h
  split at h
  case h_2 => simp [failWith] at h
  case h_1 content hcontent =>
    obtain ⟨_, p₀, hset, h⟩ := on_bind_eq_ok h
    obtain ⟨_, p₁, hcopied, h⟩ := on_bind_eq_ok h
    obtain ⟨_, p₂, htyped, h⟩ := on_bind_eq_ok h
    obtain ⟨shownAfter, p₂', hshown, h⟩ := on_bind_eq_ok h
    obtain ⟨id, p₃, hadded, h⟩ := on_bind_eq_ok h
    obtain ⟨_, p₄, hlisted, h⟩ := on_bind_eq_ok h
    obtain ⟨rfl, rfl⟩ : slideName p.nextNumber = name ∧ p₄ = q := by simpa using h
    obtain rfl : p.write (slideName p.nextNumber) ((s.map Text.utf8).getD content) = p₀ := by
      simpa using hset
    obtain ⟨rfl, -⟩ := relationshipTo_eq_ok hshown
    exact ⟨rfl, content, p₁, p₂', p₃, shownAfter, id, hcontent, hcopied, htyped, hshown, hadded, hlisted⟩

/-- A copy is a new slide that holds the given text, and no other slide changes. -/
theorem duplicate_eq_ok {source : Text} {after : Option Text} {s : Text}
    (h : (duplicate source after (some s)).on p = (.ok name, q)) :
    isSlide name ∧ name ∉ p.names ∧ q.content? name = some (Text.utf8 s) ∧
      ∀ other, isSlide other → other ≠ name → q.content? other = p.content? other := by
  obtain ⟨rfl, _, p₁, p₂, p₃, shownAfter, id, -, hcopied, htyped, -, hadded, hlisted⟩ := duplicated_of_duplicate h
  have hkept : ∀ other, isSlide other → q.content? other =
      (p.write (slideName p.nextNumber) (Text.utf8 s)).content? other := by
    intro other hother
    rw [(addToShow_keepsSlides id shownAfter).content?_eq hlisted hother,
      (addRelationship_keepsSlides _).content?_eq hadded hother,
      (registerContentType_keepsSlides _).content?_eq htyped hother,
      (copyRelationships_keepsSlides source _).content?_eq hcopied hother]
    rfl
  refine ⟨isSlide_slideName _, slideName_nextNumber_notMem p, ?_, ?_⟩
  · rw [hkept _ (isSlide_slideName _), content?_write_self]
  · intro other hother hne
    rw [hkept other hother, content?_write_of_ne hne.symm]

end DeckMerge.Package
