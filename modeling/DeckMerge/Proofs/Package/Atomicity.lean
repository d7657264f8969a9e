import DeckMerge.Proofs.Package.Calls

/-!
What is left where a slide cannot be added. A step that fails has written nothing, but the steps before it
have: the slide itself is written first, and what it is registered in after it.
-/

namespace DeckMerge.Package

open Edit

variable {α β : Type} {p q : Package} {name : Text} {names names' failed done failed' done' : List Text}

/-! ### Writing in an order -/

/-- One package comes from another by writing some parts of a list, in the order of the list. -/
def WrittenOver (p : Package) (names : List Text) (q : Package) : Prop :=
  ∃ ws : List (Text × Bytes), (ws.map (·.1)).Sublist names ∧ q = p.writeAll ws

namespace WrittenOver

theorem refl (p : Package) (names : List Text) : p.WrittenOver names p := ⟨[], List.nil_sublist _, rfl⟩

theorem write (p : Package) (name : Text) (bs : Bytes) : p.WrittenOver [name] (p.write name bs) :=
  ⟨[(name, bs)], List.Sublist.refl _, rfl⟩

theorem trans {r : Package} (h : p.WrittenOver names q) (h' : q.WrittenOver names' r) :
    p.WrittenOver (names ++ names') r := by
  obtain ⟨ws, hws, rfl⟩ := h
  obtain ⟨ws', hws', rfl⟩ := h'
  refine ⟨ws ++ ws', ?_, List.foldl_append.symm⟩
  rw [List.map_append]
  exact hws.append hws'

theorem mono (h : p.WrittenOver names q) (hsub : names.Sublist names') : p.WrittenOver names' q := by
  obtain ⟨ws, hws, rfl⟩ := h
  exact ⟨ws, hws.trans hsub, rfl⟩

end WrittenOver

namespace Edit

/-- An edit that fails has written some parts of one list, and one that is done some of another. -/
structure Writes (failed done : List Text) (e : Edit α) : Prop where
  of_error : ∀ p r q, e.on p = (.error r, q) → p.WrittenOver failed q
  of_ok : ∀ p a q, e.on p = (.ok a, q) → p.WrittenOver done q

/-- An edit that leaves a package as it was if it fails. -/
abbrev Atomic (done : List Text) (e : Edit α) : Prop := e.Writes [] done

namespace Writes

theorem pure (a : α) : (pure a : Edit α).Atomic [] where
  of_error := fun _ _ _ h => by cases h
  of_ok := by
    intro p b q h
    obtain rfl : p = q := by simpa using (Prod.mk.inj h).2
    exact .refl p []

theorem throw (r : Failure) : (throw r : Edit α).Atomic [] where
  of_error := by
    intro p r' q h
    obtain rfl : p = q := (Prod.mk.inj h).2
    exact .refl p []
  of_ok := fun _ _ _ h => by cases h

theorem get : (get : Edit Package).Atomic [] where
  of_error := fun _ _ _ h => by cases h
  of_ok := by
    intro p b q h
    obtain rfl : p = q := (Prod.mk.inj h).2
    exact .refl p []

theorem writeText (name s : Text) : (modify fun p => p.writeText name s : Edit PUnit).Atomic [name] where
  of_error := fun _ _ _ h => by cases h
  of_ok := by
    intro p _ q h
    obtain rfl : p.writeText name s = q := (Prod.mk.inj h).2
    exact .write p name _

theorem mono {e : Edit α} (h : e.Writes failed done) (hfailed : failed.Sublist failed')
    (hdone : done.Sublist done') : e.Writes failed' done' where
  of_error := fun p r q he => (h.of_error p r q he).mono hfailed
  of_ok := fun p a q he => (h.of_ok p a q he).mono hdone

/-- What an atomic edit has written stays where the next one fails. -/
theorem bind {e : Edit α} {f : α → Edit β} (he : e.Atomic done) (hf : ∀ a, (f a).Writes failed' done') :
    (e >>= f).Writes (done ++ failed') (done ++ done') where
  of_error := by
    intro p r q h
    rcases on_bind_eq_error h with hfail | ⟨a, p', hdone, hfail⟩
    · exact (he.of_error p r q hfail).mono (List.nil_sublist _)
    · exact (he.of_ok p a p' hdone).trans ((hf a).of_error p' r q hfail)
  of_ok := by
    intro p b q h
    obtain ⟨a, p', hdone, hrest⟩ := on_bind_eq_ok h
    exact (he.of_ok p a p' hdone).trans ((hf a).of_ok p' b q hrest)

/-- An edit that only reads adds nothing to what the next one writes. -/
theorem read_bind {e : Edit α} {f : α → Edit β} (he : e.Atomic []) (hf : ∀ a, (f a).Writes failed done) :
    (e >>= f).Writes failed done := he.bind hf

theorem bind_pure {e : Edit α} (he : e.Writes failed done) (f : α → β) :
    (e >>= fun a => Pure.pure (f a)).Writes failed done where
  of_error := by
    intro p r q h
    rcases on_bind_eq_error h with hfail | ⟨a, p', -, hfail⟩
    · exact he.of_error p r q hfail
    · cases hfail
  of_ok := by
    intro p b q h
    obtain ⟨a, p', hdone, hrest⟩ := on_bind_eq_ok h
    obtain rfl : p' = q := (Prod.mk.inj hrest).2
    exact he.of_ok p a p' hdone

end Writes

end Edit

/-! ### The steps -/

theorem readDocument_atomic (name : Text) : (readDocument name).Atomic [] := by
  refine Writes.get.read_bind fun p => ?_
  split
  · exact .throw _
  · split
    · exact .pure _
    · exact .throw _

theorem writeDocument_atomic (name : Text) (d : Xml.Document) : (writeDocument name d).Atomic [name] :=
  .writeText name d.write

theorem copyRelationships_atomic (source name : Text) :
    (copyRelationships source name).Atomic [relationshipsName name] := by
  refine Writes.get.read_bind fun p => ?_
  split
  · exact (Writes.pure _).mono (List.Sublist.refl _) (List.nil_sublist _)
  · exact (readDocument_atomic _).read_bind fun d => writeDocument_atomic _ _

theorem registerContentType_atomic (name : Text) : (registerContentType name).Atomic [contentTypes] := by
  refine (readDocument_atomic _).read_bind fun d => ?_
  simp only
  split
  · exact (Writes.pure _).mono (List.Sublist.refl _) (List.nil_sublist _)
  · exact writeDocument_atomic _ _

theorem relationshipTo_atomic (name : Text) : (relationshipTo name).Atomic [] :=
  (readDocument_atomic _).bind_pure _

theorem addRelationship_atomic (name : Text) : (addRelationship name).Atomic [presentationRelationships] :=
  (readDocument_atomic _).read_bind fun _ => (writeDocument_atomic _ _).bind_pure _

theorem addToShow_atomic (id after : Text) : (addToShow id after).Atomic [presentation] := by
  refine (readDocument_atomic _).read_bind fun d => ?_
  simp only
  split
  · exact writeDocument_atomic _ _
  · exact (Writes.throw _).mono (List.Sublist.refl _) (List.nil_sublist _)

/-! ### All steps together -/

variable {source : Text} {after s : Option Text} {f : Failure}

/-- The steps after the slide itself: the last of them, which lists it, has nothing to leave behind. -/
theorem registration_writes (source name before : Text) : Edit.Writes
    [relationshipsName name, contentTypes, presentationRelationships]
    [relationshipsName name, contentTypes, presentationRelationships, presentation] (do
      copyRelationships source name
      registerContentType name
      let shownAfter ← relationshipTo before
      let id ← addRelationship name
      addToShow id shownAfter
      return name) :=
  (copyRelationships_atomic source name).bind fun _ => (registerContentType_atomic name).bind fun _ =>
    (relationshipTo_atomic before).read_bind fun shownAfter => (addRelationship_atomic name).bind fun id =>
      (addToShow_atomic id shownAfter).bind_pure _

/-- Where a copy fails, its source is not there, or the slide has been written and some of what comes with
it: its relationships, its content type and its relationship to the presentation, in this order. -/
theorem duplicate_eq_error (h : (duplicate source after s).on p = (.error f, q)) :
    source ∉ p.names ∧ q = p ∨ ∃ content, p.content? source = some content ∧
      (p.write (slideName p.nextNumber) ((s.map Text.utf8).getD content)).WrittenOver
        [relationshipsName (slideName p.nextNumber), contentTypes, presentationRelationships] q := by
  unfold duplicate at h
  rcases on_bind_eq_error h with hget | ⟨_, p', hget, h⟩
  · cases hget
  obtain ⟨rfl, rfl⟩ : p = _ ∧ p = p' := by simpa using hget
  simp only at h
  split at h
  case h_2 hnone =>
    obtain rfl : p = q := (Prod.mk.inj h).2
    refine .inl ⟨fun hmem => ?_, rfl⟩
    obtain ⟨content, hcontent⟩ := Option.isSome_iff_exists.1 (content?_isSome_iff.2 hmem)
    exact hnone content hcontent
  case h_1 content hcontent =>
    refine .inr ⟨content, hcontent, ?_⟩
    rcases on_bind_eq_error h with hset | ⟨_, p₀, hset, h⟩
    · cases hset
    obtain rfl : p.write (slideName p.nextNumber) ((s.map Text.utf8).getD content) = p₀ := (Prod.mk.inj hset).2
    exact (registration_writes source _ _).of_error _ _ _ h

/-- A copy that fails leaves a package as it was exactly if its source is not there; else the new slide stays
in it, with what was registered before the failure. -/
theorem duplicate_unchanged_iff (h : (duplicate source after s).on p = (.error f, q)) :
    (q.names = p.names ∧ (∀ name, q.content? name = p.content? name) ∧ q.modified = p.modified ↔
      source ∉ p.names) ∧
    (source ∉ p.names → q = p) ∧
    (source ∈ p.names → ∃ content ws, p.content? source = some content ∧
      (ws.map (·.1)).Sublist
        [relationshipsName (slideName p.nextNumber), contentTypes, presentationRelationships] ∧
      q = p.writeAll ((slideName p.nextNumber, (s.map Text.utf8).getD content) :: ws)) := by
  rcases duplicate_eq_error h with ⟨hnone, rfl⟩ | ⟨content, hcontent, ws, hws, rfl⟩
  · exact ⟨iff_of_true ⟨rfl, fun _ => rfl, rfl⟩ hnone, fun _ => rfl, fun hmem => absurd hmem hnone⟩
  · have hmem : source ∈ p.names := content?_isSome_iff.1 (by simp [hcontent])
    refine ⟨iff_of_false (fun ⟨hnames, _⟩ => ?_) (not_not.2 hmem), absurd hmem, fun _ => ?_⟩
    · have hrewritten := rewritten_writeAll p
        ((slideName p.nextNumber, (s.map Text.utf8).getD content) :: ws)
      have hnew : slideName p.nextNumber ∈ newcomers p.names
          (((slideName p.nextNumber, (s.map Text.utf8).getD content) :: ws).map (·.1)) :=
        mem_newcomers.2 ⟨List.mem_cons_self, slideName_nextNumber_notMem p⟩
      refine slideName_nextNumber_notMem p (hnames ▸ ?_)
      exact hrewritten.names_eq ▸ List.mem_append_right _ hnew
    · exact ⟨content, ws, hcontent, hws, rfl⟩

/-! ### A slide without one of the registries -/

def fullEntries : List Zip.Entry := [
  ⟨contentTypes, .first, .deflated, 0, 3, Text.utf8 ("<Types xmlns=\"" ++ Uri.contentTypes ++ "\"/>")⟩,
  ⟨presentation, .first, .deflated, 0, 3, Text.utf8 ("<presentation xmlns=\"" ++ Uri.presentation ++ "\"/>")⟩,
  ⟨presentationRelationships, .first, .deflated, 0, 3, Text.utf8
    ("<Relationships xmlns=\"" ++ Uri.relationships ++ "\"/>")⟩,
  ⟨slideName 1, .first, .deflated, 0, 3, Text.utf8 "<p/>"⟩]

/-- A package of one slide and the registries, but for one part. -/
def lacking (name : Text) : Package where
  source := memory
  entries := fullEntries.filter (·.name ≠ name)
  modified := []
  distinct :=
    (by decide : (fullEntries.map (·.name)).Nodup).sublist (List.filter_sublist.map Zip.Entry.name)

/-- The presentation is missed last, when all else has been written. -/
theorem duplicate_unchanged_iff_unlisted : ∃ f q,
    (duplicate (slideName 1) none none).on (lacking presentation) = (.error f, q) ∧
      slideName 1 ∈ (lacking presentation).names ∧
      q.modified = [slideName 2, contentTypes, presentationRelationships] ∧
      ¬ (q.names = (lacking presentation).names ∧
        (∀ name, q.content? name = (lacking presentation).content? name) ∧
        q.modified = (lacking presentation).modified) := by
  have hrun : ((duplicate (slideName 1) none none).on (lacking presentation)).1.toOption = none ∧
      ((duplicate (slideName 1) none none).on (lacking presentation)).2.modified =
        [slideName 2, contentTypes, presentationRelationships] := by decide +kernel
  have hmem : slideName 1 ∈ (lacking presentation).names := by decide
  generalize hresult : (duplicate (slideName 1) none none).on (lacking presentation) = result at hrun
  obtain ⟨outcome, q⟩ := result
  cases outcome with
  | ok name => cases hrun.1
  | error f =>
    exact ⟨f, q, rfl, hmem, hrun.2, mt (duplicate_unchanged_iff hresult).1.1 (not_not.2 hmem)⟩

/-- Without the relationships of the presentation the copy is refused, and stays with its content type. -/
theorem duplicate_leaves_slide : ∃ q,
    (duplicate (slideName 1) none none).on (lacking presentationRelationships) =
      (.error (.report ((Report.plain .templateLoad ("Missing part in " ++ memory)).inPart
        presentationRelationships)), q) ∧
      q.names = (lacking presentationRelationships).names ++ [slideName 2] ∧
      q.modified = [slideName 2, contentTypes] := by
  have hrun : ((duplicate (slideName 1) none none).on (lacking presentationRelationships)).2.names =
        (lacking presentationRelationships).names ++ [slideName 2] ∧
      ((duplicate (slideName 1) none none).on (lacking presentationRelationships)).2.modified =
        [slideName 2, contentTypes] := by decide +kernel
  refine ⟨_, Prod.ext ?_ rfl, hrun⟩
  decide +kernel

end DeckMerge.Package
