import DeckMerge.Proofs.Package.Steps

/-!
How a package grows: parts keep their places and all about them but their contents, and new parts come
last.
-/

namespace DeckMerge

/-- All about an entry but its content. -/
def Zip.Entry.header (e : Zip.Entry) : Zip.Entry := { e with content := [] }

@[simp] theorem Zip.Entry.name_header (e : Zip.Entry) : e.header.name = e.name := rfl

namespace Package

def headers (p : Package) : List Zip.Entry := p.entries.map Zip.Entry.header

/-- All about a new part but its content. -/
def newHeader (p : Package) (name : Text) : Zip.Entry := ⟨name, p.moment, .deflated, 0, 3, []⟩

variable {p q r : Package} {name other : Text} {wrote wrote' new new' : List Text}

theorem map_name_headers (p : Package) : p.headers.map (·.name) = p.names := by
  simp [headers, names]

theorem moment_eq (p : Package) : p.moment = (p.headers.head?.map (·.moment)).getD .first := by
  rw [moment, headers, List.head?_map, Option.map_map]
  rfl

/-- Where entries are set that differ from those under their names by their contents, headers stay. -/
theorem map_header_put {es : List Zip.Entry} {e : Zip.Entry}
    (h : ∀ e', es.find? (·.name = e.name) = some e' → e'.header = e.header) :
    (put es e).map Zip.Entry.header =
      if e.name ∈ es.map (·.name) then es.map Zip.Entry.header
      else es.map Zip.Entry.header ++ [e.header] := by
  induction es with
  | nil => rfl
  | cons e' es ih =>
    by_cases hname : e'.name = e.name
    · have hheader : e'.header = e.header := h e' (by simp [hname])
      simp [put, hname, hheader]
    · have hrest := ih fun e'' he'' => h e'' (by simpa [List.find?_cons, hname] using he'')
      simp only [put, hname, if_false, List.map_cons, hrest, List.mem_cons, Ne.symm hname, false_or]
      split <;> rfl

theorem headers_write (p : Package) (name : Text) (bs : Bytes) : (p.write name bs).headers =
    p.headers ++ (if name ∈ p.names then [] else [p.newHeader name]) := by
  have hput : (put p.entries (p.entryFor name bs)).map Zip.Entry.header =
      if name ∈ p.names then p.headers else p.headers ++ [(p.entryFor name bs).header] := by
    rw [map_header_put]
    · rw [name_entryFor]
      rfl
    · intro e he
      rw [name_entryFor] at he
      rw [entryFor, he]
      rfl
  rw [headers, write, hput]
  split
  case isTrue => rw [List.append_nil]
  case isFalse hmem =>
    have hnone : p.entries.find? (·.name = name) = none := by
      simpa [names] using hmem
    rw [entryFor, hnone]
    rfl

/-- One package comes from another by writing some parts, of which the new ones come last. -/
structure Grown (p : Package) (wrote new : List Text) (q : Package) : Prop where
  headers_eq : q.headers = p.headers ++ new.map p.newHeader
  frame : ∀ name, name ∉ wrote → q.content? name = p.content? name
  modified : ∀ name ∈ q.modified, name ∈ p.modified ∨ name ∈ wrote

namespace Grown

theorem names_eq (h : Grown p wrote new q) : q.names = p.names ++ new := by
  rw [← map_name_headers, h.headers_eq, List.map_append, map_name_headers, List.map_map]
  simp [newHeader, Function.comp_def]

theorem moment_eq (h : Grown p wrote new q) : q.moment = p.moment := by
  rw [Package.moment_eq q, h.headers_eq, List.head?_append, List.head?_map]
  cases hhead : p.headers.head? with
  | some e => rw [Package.moment_eq p, hhead]; rfl
  | none =>
    have hfirst : p.moment = .first := by rw [Package.moment_eq p, hhead]; rfl
    cases new.head? <;> simp [newHeader, hfirst]

theorem refl (p : Package) : Grown p [] [] p where
  headers_eq := by simp
  frame := fun _ _ => rfl
  modified := fun _ h => .inl h

theorem trans (h : Grown p wrote new q) (h' : Grown q wrote' new' r) :
    Grown p (wrote ++ wrote') (new ++ new') r where
  headers_eq := by
    have hheader : q.newHeader = p.newHeader := by
      funext name
      rw [newHeader, newHeader, h.moment_eq]
    rw [h'.headers_eq, h.headers_eq, hheader, List.map_append, List.append_assoc]
  frame := by
    intro name hname
    rw [List.mem_append, not_or] at hname
    rw [h'.frame name hname.2, h.frame name hname.1]
  modified := by
    intro name hname
    rw [List.mem_append]
    rcases h'.modified name hname with hname | hname
    · exact (h.modified name hname).imp_right .inl
    · exact .inr (.inr hname)

theorem mono (h : Grown p wrote new q) (hwrote : wrote ⊆ wrote') : Grown p wrote' new q where
  headers_eq := h.headers_eq
  frame := fun name hname => h.frame name fun hmem => hname (hwrote hmem)
  modified := fun name hname => (h.modified name hname).imp_right fun hmem => hwrote hmem

theorem of_write (p : Package) (name : Text) (bs : Bytes) :
    Grown p [name] (if name ∈ p.names then [] else [name]) (p.write name bs) where
  headers_eq := by
    rw [headers_write]
    split <;> rfl
  frame := fun other hother => content?_write_of_ne (fun heq => hother (by simp [heq])) bs
  modified := by
    intro other hother
    simp only [write] at hother
    split at hother
    · exact .inl hother
    · exact List.mem_append.1 hother

theorem of_rewrite (h : name ∈ p.names) (bs : Bytes) : Grown p [name] [] (p.write name bs) := by
  simpa [h] using of_write p name bs

theorem mem_names (h : Grown p wrote new q) (hname : name ∈ p.names) : name ∈ q.names := by
  rw [h.names_eq]
  exact List.mem_append_left _ hname

end Grown

theorem mem_names_of_document? {d : Xml.Document} (h : p.document? name = some d) : name ∈ p.names := by
  rw [document?, Option.bind_eq_some_iff] at h
  obtain ⟨bs, hbs, -⟩ := h
  exact content?_isSome_iff.1 (by simp [hbs])

theorem has_iff : p.has name ↔ name ∈ p.names := by
  simp [has, names]

/-! ### Adding a slide -/

/-- The parts in which a slide is registered. -/
def registries : List Text := [contentTypes, presentationRelationships, presentation]

/-- The parts of a slide that is added as a copy: its own, and its relationships if the source has some. -/
def partsOfCopy (p : Package) (source name : Text) : List Text :=
  name :: if p.has (relationshipsName source) then [relationshipsName name] else []

theorem grown_of_copyRelationships {source : Text} {u : Unit}
    (h : (copyRelationships source name).on p = (.ok u, q)) :
    Grown p ((p.partsOfCopy source name).tail)
      ((p.partsOfCopy source name).tail.filter (· ∉ p.names)) q := by
  rcases copyRelationships_eq_ok h with ⟨hhas, rfl⟩ | ⟨hhas, d, -, rfl⟩
  · rw [has_iff] at hhas
    simpa [partsOfCopy, has_iff, hhas] using Grown.refl q
  · rw [has_iff] at hhas
    have hwrite : Grown p [relationshipsName name]
        (if relationshipsName name ∈ p.names then [] else [relationshipsName name])
        (p.writeDocumentTo (relationshipsName name) (withRoot d (withoutNotes d.root))) := .of_write p _ _
    by_cases hmem : relationshipsName name ∈ p.names
    · simpa [partsOfCopy, has_iff, hhas, hmem] using hwrite
    · simpa [partsOfCopy, has_iff, hhas, hmem] using hwrite

theorem grown_of_registerContentType {u : Unit}
    (h : (registerContentType name).on p = (.ok u, q)) : Grown p registries [] q := by
  obtain ⟨d, hd, ⟨-, rfl⟩ | ⟨-, rfl⟩⟩ := registerContentType_eq_ok h
  · exact (Grown.refl q).mono (List.nil_subset _)
  · exact (Grown.of_rewrite (mem_names_of_document? hd) _).mono (by simp [registries])

theorem grown_of_addRelationship {id : Text} (h : (addRelationship name).on p = (.ok id, q)) :
    Grown p registries [] q := by
  obtain ⟨d, hd, -, rfl⟩ := addRelationship_eq_ok h
  exact (Grown.of_rewrite (mem_names_of_document? hd) _).mono (by simp [registries])

theorem grown_of_addToShow {id after : Text} {u : Unit} (h : (addToShow id after).on p = (.ok u, q)) :
    Grown p registries [] q := by
  obtain ⟨d, root, hd, -, rfl⟩ := addToShow_eq_ok h
  exact (Grown.of_rewrite (mem_names_of_document? hd) _).mono (by simp [registries])

theorem mem_names_of_duplicate {source : Text} {after s : Option Text}
    (h : (duplicate source after s).on p = (.ok name, q)) : source ∈ p.names := by
  obtain ⟨-, content, _, _, _, _, _, hcontent, -⟩ := duplicated_of_duplicate h
  exact content?_isSome_iff.1 (by simp [hcontent])

/-- A copy adds its own parts, but for relationships that are there already, and writes no others than
these and the registries. -/
theorem grown_of_duplicate {source : Text} {after s : Option Text}
    (h : (duplicate source after s).on p = (.ok name, q)) :
    Grown p (p.partsOfCopy source name ++ registries)
      ((p.partsOfCopy source name).filter (· ∉ p.names)) q := by
  obtain ⟨rfl, content, p₁, p₂, p₃, shownAfter, id, -, hcopied, htyped, -, hadded, hlisted⟩ :=
    duplicated_of_duplicate h
  have hfresh : slideName p.nextNumber ∉ p.names := slideName_nextNumber_notMem p
  have hslide := Grown.of_write p (slideName p.nextNumber) ((s.map Text.utf8).getD content)
  rw [if_neg hfresh] at hslide
  have hcopy := grown_of_copyRelationships hcopied
  generalize p.write (slideName p.nextNumber) ((s.map Text.utf8).getD content) = p₀ at hslide hcopy
  have hnames : ∀ other, relationshipsName other ∈ p₀.names ↔ relationshipsName other ∈ p.names := by
    intro other
    have hne : relationshipsName other ≠ slideName p.nextNumber := fun heq =>
      not_isSlide_relationshipsName other (heq ▸ isSlide_slideName _)
    rw [hslide.names_eq, List.mem_append]
    simp [hne]
  have hparts : p₀.partsOfCopy source (slideName p.nextNumber) =
      p.partsOfCopy source (slideName p.nextNumber) := by
    simp only [partsOfCopy, has_iff, hnames]
  have hnew : [slideName p.nextNumber] ++ (p₀.partsOfCopy source (slideName p.nextNumber)).tail.filter
      (· ∉ p₀.names) = (p.partsOfCopy source (slideName p.nextNumber)).filter (· ∉ p.names) := by
    rw [hparts]
    by_cases hsource : relationshipsName source ∈ p.names
    · simp [partsOfCopy, has_iff, hsource, hfresh, hnames, List.filter_cons]
    · simp [partsOfCopy, has_iff, hsource, hfresh]
  have hall := (((hslide.trans hcopy).trans (grown_of_registerContentType htyped)).trans
    (grown_of_addRelationship hadded)).trans (grown_of_addToShow hlisted)
  rw [hnew, hparts] at hall
  simp only [List.append_nil] at hall
  refine hall.mono ?_
  have hself : p.partsOfCopy source (slideName p.nextNumber) =
    [slideName p.nextNumber] ++ (p.partsOfCopy source (slideName p.nextNumber)).tail := rfl
  intro other hother
  rw [hself]
  simp only [List.mem_append, or_assoc, or_self] at hother ⊢
  exact hother

end DeckMerge.Package
