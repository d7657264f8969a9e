import DeckMerge.Proofs.Package.Registration

/-!
Registries that agree with the slides of a package, and that go on to do so however many slides are added.
-/

namespace DeckMerge.Package

variable {p q r : Package} {name other source id : Text} {after s : Option Text}

/-! ### What relationships lead to -/

/-- The part that a relationship of the presentation leads to. -/
def Relationship.part (r : Relationship) : Text :=
  match r.target with
  | '/' :: rest => rest
  | target => "ppt/" ++ target

/-- The part that a relationship of a slide leads to. -/
def Relationship.partOfSlide (r : Relationship) : Text :=
  match r.target with
  | '/' :: rest => rest
  | '.' :: '.' :: '/' :: rest => "ppt/" ++ rest
  | target => "ppt/slides/" ++ target

theorem part_targetOf (id type : Text) (n : Nat) :
    (⟨id, type, targetOf (slideName n)⟩ : Relationship).part = slideName n := rfl

/-! ### Identifiers that are numbered -/

/-- The identifier that is made of a number. -/
def relationshipId (n : Nat) : Text := "rId" ++ Text.ofNat n

/-- The largest number of an identifier that is made of one. -/
def lastRelationship (rs : List Relationship) : Nat :=
  (rs.filterMap fun r => relationshipNumber? r.id).foldl max 0

theorem relationshipNumber?_relationshipId (n : Nat) : relationshipNumber? (relationshipId n) = some n := by
  have hpre := List.isPrefixOf?_eq_some_iff_append_eq.2
    (show "rId".toList ++ Text.ofNat n = relationshipId n from rfl)
  have hdigits : (Text.ofNat n).all Text.isDigit :=
    List.all_eq_true.2 fun _ hc => Text.isDigit_of_mem_ofNat' hc
  simp only [relationshipNumber?, hpre, Option.bind_eq_bind, Option.bind_some]
  rw [if_pos ⟨Text.ofNat_ne_nil n, hdigits⟩, Text.ofDigits_ofNat]

theorem relationshipId_injective : Function.Injective relationshipId := by
  intro m n h
  have hnumber := congrArg relationshipNumber? h
  rw [relationshipNumber?_relationshipId, relationshipNumber?_relationshipId] at hnumber
  exact Option.some.inj hnumber

theorem relationshipId_notMem {rs : List Relationship} {n : Nat} (h : lastRelationship rs < n) :
    relationshipId n ∉ rs.map (·.id) := by
  intro hmem
  obtain ⟨r, hr, hid⟩ := List.mem_map.1 hmem
  refine Nat.not_le_of_lt h (le_foldl_max (.inl (List.mem_filterMap.2 ⟨r, hr, ?_⟩)))
  rw [hid, relationshipNumber?_relationshipId]

theorem lastRelationship_append {rs : List Relationship} {type target : Text} :
    lastRelationship (rs ++ [⟨nextRelationship rs, type, target⟩]) = lastRelationship rs + 1 := by
  have hnumber : relationshipNumber? (nextRelationship rs) = some (lastRelationship rs + 1) :=
    relationshipNumber?_relationshipId _
  rw [lastRelationship, List.filterMap_append, List.foldl_append, List.filterMap_cons, hnumber]
  exact Nat.max_eq_right (Nat.le_succ _)

/-! ### Consistency -/

/-- Relationships have identifiers of their own, a slide has one relationship at most, the entries of the
list of slides have numbers of their own and refer to different relationships, and no registry speaks of a
slide that is not there. -/
structure Consistent (p : Package) : Prop where
  identified : (p.relations.map (·.id)).Nodup
  single : ∀ name, isSlide name → (p.relations.filter (·.part = name)).length ≤ 1
  numbered : ∀ t ∈ p.listed, (entryNumber? t).isSome
  distinct : (p.listed.filterMap entryNumber?).Nodup
  once : (p.listed.filterMap reference?).Nodup
  typed : ∀ name, isSlide name → '/' :: name ∈ p.overridden → name ∈ p.names
  related : ∀ r ∈ p.relations, isSlide r.part → r.part ∈ p.names
  owned : ∀ name, isSlide name → relationshipsName name ∈ p.names → name ∈ p.names
  linked : ∀ name, isSlide name → ∀ r ∈ p.relationsOf name, isSlide r.partOfSlide → r.partOfSlide ∈ p.names

/-- No entry of the list of slides refers to a relationship that is still to come. -/
def Unclaimed (p : Package) : Prop :=
  ∀ n, lastRelationship p.relations < n → relationshipId n ∉ p.listed.filterMap reference?

/-- The new slide: its name and its number, and what the registries say of it. -/
structure Created (p : Package) (name : Text) (q : Package) : Prop where
  fresh : name ∉ p.names ∧ name ∈ q.names
  number : ∃ n, name = slideName n ∧ ∀ other ∈ p.names, ∀ k, slideNumber? other = some k → k < n
  typed : ∃ t, q.typed.filter (fun t => t.get? [] "PartName" = some ('/' :: name)) = [t] ∧
    t.get? [] "ContentType" = some slideContentType
  listed : ∃ id, id ∉ p.relations.map (·.id) ∧
    q.relations.filter (·.part = name) = [⟨id, slideRelationship, targetOf name⟩] ∧
    ∃ t number, q.listed.filter (reference? · = some id) = [t] ∧ entryNumber? t = some number ∧
      leastSlideNumber ≤ number ∧ ∀ m ∈ p.listed.filterMap entryNumber?, m < number

/-- A package that comes from another by adding copies of slides. -/
inductive Reached (p : Package) : Package → Prop
  | refl : Reached p p
  | add {q r : Package} {source name : Text} {after s : Option Text} : Reached p q → isSlide source →
    (duplicate source after s).on q = (.ok name, r) → Reached p r

theorem filterMap_eq_of_forall₂ {α β : Type} {f : α → Option β} {as : List α} {bs : List β}
    (h : List.Forall₂ (fun a b => f a = some b) as bs) : as.filterMap f = bs := by
  induction h with
  | nil => rfl
  | cons h _ ih => rw [List.filterMap_cons, h, ih]

namespace Registered

theorem overridden_eq (h : Registered source name p q) (hnone : '/' :: name ∉ p.overridden) :
    q.overridden = p.overridden ++ ['/' :: name] := by
  obtain ⟨root, heq⟩ := h.typed hnone
  rw [overridden, heq, List.filterMap_append, List.filterMap_cons, (get?_overrideTag name root).1]
  rfl

theorem listed_eq (h : Registered source name p q) : ∃ before behind t number,
    p.listed = before ++ behind ∧ q.listed = before ++ t :: behind ∧
      reference? t = some (nextRelationship p.relations) ∧ entryNumber? t = some number ∧
      leastSlideNumber ≤ number ∧ ∀ m ∈ p.listed.filterMap entryNumber?, m < number := by
  obtain ⟨scope, before, behind, numbers, hbefore, hnumbers, hafter⟩ := h.listed
  have hleast := leastSlideNumber_le_nextSlideNumber numbers
  have hnumber := entryNumber?_entryTag scope (Int.le_trans (by decide) hleast) (nextRelationship p.relations)
  refine ⟨before, behind, _, _, hbefore, hafter, reference?_entryTag _ _ _, hnumber, hleast, ?_⟩
  rw [filterMap_eq_of_forall₂ hnumbers]
  exact fun m hm => lt_nextSlideNumber hm

end Registered

/-- The names of a package with a copy: the earlier ones and those of the copy. -/
theorem mem_names_of_mem_duplicate (h : (duplicate source after s).on p = (.ok name, q))
    (hother : other ∈ q.names) : other ∈ p.names ∨ other = name ∨ other = relationshipsName name := by
  rw [(grown_of_duplicate h).names_eq, List.mem_append] at hother
  refine hother.imp_right fun hmem => ?_
  have hparts := List.mem_of_mem_filter hmem
  rw [partsOfCopy, List.mem_cons] at hparts
  refine hparts.imp_right fun hrelated => ?_
  split at hrelated
  · exact List.mem_singleton.1 hrelated
  · cases hrelated

theorem slide_of_duplicate (h : (duplicate source after s).on p = (.ok name, q)) :
    isSlide name ∧ name ∉ p.names ∧ name ∈ q.names := by
  have hname : name = slideName p.nextNumber := (duplicated_of_duplicate h).1
  have hfresh : name ∉ p.names := hname ▸ slideName_nextNumber_notMem p
  refine ⟨hname ▸ isSlide_slideName _, hfresh, ?_⟩
  rw [(grown_of_duplicate h).names_eq, List.mem_append, List.mem_filter]
  exact .inr ⟨List.mem_cons_self, decide_eq_true hfresh⟩

namespace Consistent

theorem not_overridden (hp : p.Consistent) (hslide : isSlide name) (hfresh : name ∉ p.names) :
    '/' :: name ∉ p.overridden := fun hmem => hfresh (hp.typed name hslide hmem)

theorem unrelated (hp : p.Consistent) (hslide : isSlide name) (hfresh : name ∉ p.names) :
    p.relations.filter (·.part = name) = [] := by
  rw [List.filter_eq_nil_iff]
  intro r hr heq
  have hpart : r.part = name := of_decide_eq_true heq
  exact hfresh (hpart ▸ hp.related r hr (hpart.symm ▸ hslide))

/-- What holds of the relationships with the new one. -/
theorem relations_add (hp : p.Consistent) (h : (duplicate source after s).on p = (.ok name, q))
    (hregistered : Registered source name p q) :
    (q.relations.map (·.id)).Nodup ∧
      q.relations.filter (·.part = name) = [⟨nextRelationship p.relations, slideRelationship, targetOf name⟩] ∧
      ∀ other, other ≠ name → q.relations.filter (·.part = other) = p.relations.filter (·.part = other) := by
  obtain ⟨hslide, hfresh, -⟩ := slide_of_duplicate h
  have hpart : (⟨nextRelationship p.relations, slideRelationship, targetOf name⟩ : Relationship).part = name := by
    rw [(duplicated_of_duplicate h).1]
    rfl
  rw [hregistered.related]
  refine ⟨?_, ?_, fun other hother => ?_⟩
  · rw [List.map_append, List.map_singleton, ← List.concat_eq_append, List.nodup_concat]
    exact ⟨relationshipId_notMem (Nat.lt_succ_self _), hp.identified⟩
  · rw [List.filter_append, hp.unrelated hslide hfresh, List.nil_append, List.filter_singleton, hpart]
    simp
  · rw [List.filter_append, List.filter_singleton, hpart]
    simp [Ne.symm hother]

/-- One step: where the registries agree with the slides they do so with one more slide. -/
theorem add (hp : p.Consistent) (hunclaimed : p.Unclaimed) (hsource : isSlide source)
    (h : (duplicate source after s).on p = (.ok name, q)) (hregistered : Registered source name p q) :
    q.Consistent := by
  obtain ⟨hslide, hfresh, hadded⟩ := slide_of_duplicate h
  have hkeep : ∀ other ∈ p.names, other ∈ q.names := fun other => (grown_of_duplicate h).mem_names
  obtain ⟨hidentified, hnew, hsame⟩ := hp.relations_add h hregistered
  obtain ⟨before, behind, t, number, hbefore, hafter, hreference, hnumber, -, hlarger⟩ := hregistered.listed_eq
  have hclaimed : nextRelationship p.relations ∉ p.listed.filterMap reference? :=
    hunclaimed _ (Nat.lt_succ_self _)
  refine ⟨hidentified, ?single, ?numbered, ?distinct, ?once, ?typed, ?related, ?owned, ?linked⟩
  case single =>
    intro other hother
    by_cases heq : other = name
    · rw [heq, hnew]
      exact Nat.le_refl 1
    · rw [hsame other heq]
      exact hp.single other hother
  case numbered =>
    intro t' ht'
    rw [hafter, List.mem_append, List.mem_cons] at ht'
    rcases ht' with ht' | rfl | ht'
    · exact hp.numbered t' (hbefore ▸ List.mem_append_left _ ht')
    · rw [hnumber]; rfl
    · exact hp.numbered t' (hbefore ▸ List.mem_append_right _ ht')
  case distinct =>
    have hdistinct := hp.distinct
    rw [hbefore, List.filterMap_append] at hdistinct hlarger
    rw [hafter, List.filterMap_append, List.filterMap_cons, hnumber, List.nodup_middle, List.nodup_cons]
    exact ⟨fun hmem => Int.lt_irrefl _ (hlarger _ hmem), hdistinct⟩
  case once =>
    have honce := hp.once
    rw [hbefore, List.filterMap_append] at honce hclaimed
    rw [hafter, List.filterMap_append, List.filterMap_cons, hreference, List.nodup_middle, List.nodup_cons]
    exact ⟨hclaimed, honce⟩
  case typed =>
    intro other hother hmem
    rw [hregistered.overridden_eq (hp.not_overridden hslide hfresh), List.mem_append, List.mem_singleton] at hmem
    rcases hmem with hmem | heq
    · exact hkeep other (hp.typed other hother hmem)
    · rw [(List.cons.inj heq).2]
      exact hadded
  case related =>
    intro r hr hother
    by_cases heq : r.part = name
    · rw [heq]
      exact hadded
    · have hmem : r ∈ q.relations.filter (·.part = r.part) := List.mem_filter.2 ⟨hr, decide_eq_true rfl⟩
      rw [hsame r.part heq] at hmem
      exact hkeep _ (hp.related r (List.mem_of_mem_filter hmem) hother)
  case owned =>
    intro other hother hmem
    rcases mem_names_of_mem_duplicate h hmem with hmem | heq | heq
    · exact hkeep other (hp.owned other hother hmem)
    · exact absurd (heq ▸ hslide) (not_isSlide_relationshipsName other)
    · rw [relationshipsName_inj hother hslide heq]
      exact hadded
  case linked =>
    intro other hother r hr hlinked
    by_cases heq : other = name
    · subst heq
      have hnotes : relationshipsName other ∉ p.names := fun hmem => hfresh (hp.owned other hslide hmem)
      exact hkeep _ (hp.linked source hsource r (hregistered.copied hnotes hr) hlinked)
    · rw [hregistered.kept other hother heq] at hr
      exact hkeep _ (hp.linked other hother r hr hlinked)

theorem created (hp : p.Consistent) (hunclaimed : p.Unclaimed)
    (h : (duplicate source after s).on p = (.ok name, q)) (hregistered : Registered source name p q) :
    Created p name q := by
  obtain ⟨hslide, hfresh, hadded⟩ := slide_of_duplicate h
  obtain ⟨-, hnew, -⟩ := hp.relations_add h hregistered
  obtain ⟨before, behind, t, number, hbefore, hafter, hreference, hnumber, hleast, hlarger⟩ :=
    hregistered.listed_eq
  have hid : nextRelationship p.relations ∉ p.relations.map (·.id) := relationshipId_notMem (Nat.lt_succ_self _)
  refine ⟨⟨hfresh, hadded⟩, ?number, ?typed, _, hid, hnew, t, number, ?listed, hnumber, hleast, hlarger⟩
  case number => exact ⟨p.nextNumber, (duplicated_of_duplicate h).1, fun other hother k hk => lt_nextNumber hother hk⟩
  case typed =>
    have hnone := hp.not_overridden hslide hfresh
    obtain ⟨root, htyped⟩ := hregistered.typed hnone
    obtain ⟨hname, hcontent⟩ := get?_overrideTag name root
    have hold : p.typed.filter (fun t => t.get? [] "PartName" = some ('/' :: name)) = [] :=
      List.filter_eq_nil_iff.2 fun t ht heq =>
        hnone (List.mem_filterMap.2 ⟨t, ht, of_decide_eq_true heq⟩)
    refine ⟨_, ?_, hcontent⟩
    rw [htyped, List.filter_append, hold, List.nil_append, List.filter_singleton, hname]
    simp
  case listed =>
    have hold : ∀ ts : List Xml.Tag, (∀ t ∈ ts, t ∈ p.listed) →
        ts.filter (reference? · = some (nextRelationship p.relations)) = [] := by
      intro ts hts
      refine List.filter_eq_nil_iff.2 fun t ht heq => ?_
      exact hunclaimed _ (Nat.lt_succ_self _) (List.mem_filterMap.2 ⟨t, hts t ht, of_decide_eq_true heq⟩)
    rw [hafter, List.filter_append, List.filter_cons_of_pos (by simpa using hreference),
      hold before fun t ht => hbefore ▸ List.mem_append_left _ ht,
      hold behind fun t ht => hbefore ▸ List.mem_append_right _ ht]
    rfl

end Consistent

/-- References that are not claimed yet stay so: the last one has just been given. -/
theorem Unclaimed.add (h : p.Unclaimed) (hregistered : Registered source name p q) : q.Unclaimed := by
  obtain ⟨before, behind, t, number, hbefore, hafter, hreference, -⟩ := hregistered.listed_eq
  intro n hn
  rw [hregistered.related, lastRelationship_append] at hn
  have hlater := h n (Nat.lt_of_succ_lt hn)
  rw [hbefore, List.filterMap_append, List.mem_append, not_or] at hlater
  rw [hafter, List.filterMap_append, List.filterMap_cons, hreference, List.mem_append, List.mem_cons]
  rintro (hmem | heq | hmem)
  · exact hlater.1 hmem
  · exact Nat.ne_of_gt hn (relationshipId_injective heq)
  · exact hlater.2 hmem

/-! ### Runs -/

/-- The registries are read without an error and can be written with more slides, and no entry refers to a
relationship that is still to come. -/
structure Regular (p : Package) : Prop where
  clear : ∀ name, IsRegistry name → p.Clear name
  unshadowed : ∀ d, p.document? presentation = some d → Unshadowed d.root
  unclaimed : p.Unclaimed

theorem Regular.rewritable (h : p.Regular) : p.Rewritable :=
  ⟨fun name _ hname hd => (h.clear name hname).sound hd, h.unshadowed⟩

theorem Reached.keeps (h : Reached p q) (hp : p.Consistent) (hrewritable : p.Rewritable)
    (hunclaimed : p.Unclaimed) : q.Consistent ∧ q.Rewritable ∧ q.Unclaimed := by
  induction h with
  | refl => exact ⟨hp, hrewritable, hunclaimed⟩
  | add _ hsource hadd ih =>
    obtain ⟨hconsistent, hrewritable, hunclaimed⟩ := ih
    obtain ⟨hrewritable', hregistered⟩ := registered_of_duplicate hrewritable hsource hadd
    exact ⟨hconsistent.add hunclaimed hsource hadd hregistered, hrewritable', hunclaimed.add hregistered⟩

/-- However many copies are added, the registries agree with the slides, and the next copy that is added is
registered once in each of them under what is new there. -/
theorem consistent_of_reached (h : Reached p q) (hp : p.Consistent) (hregular : p.Regular) :
    q.Consistent ∧ ∀ source after s name r, isSlide source →
      (duplicate source after s).on q = (.ok name, r) → Created q name r := by
  obtain ⟨hconsistent, hrewritable, hunclaimed⟩ := h.keeps hp hregular.rewritable hregular.unclaimed
  refine ⟨hconsistent, fun source after s name r hsource hadd => ?_⟩
  obtain ⟨-, hregistered⟩ := registered_of_duplicate hrewritable hsource hadd
  exact hconsistent.created hunclaimed hadd hregistered

/-! ### Packages of one slide -/

theorem consistent_of_single (hnames : p.names = registries ++ [slideName 1]) (htyped : p.overridden = [])
    (hrelations : p.relations = [⟨id, slideRelationship, targetOf (slideName 1)⟩])
    (hnumbered : ∀ t ∈ p.listed, (entryNumber? t).isSome) (hdistinct : (p.listed.filterMap entryNumber?).Nodup)
    (honce : (p.listed.filterMap reference?).Nodup) : p.Consistent := by
  have hnone : ∀ name, isSlide name → relationshipsName name ∉ p.names := by
    intro name hname
    rw [hnames, List.mem_append, not_or, List.mem_singleton]
    refine ⟨relationshipsName_notMem_registries hname, fun heq => ?_⟩
    exact not_isSlide_relationshipsName name (heq ▸ isSlide_slideName 1)
  refine ⟨?identified, ?single, hnumbered, hdistinct, honce, ?typed, ?related, ?owned, ?linked⟩
  case identified => simp [hrelations]
  case single =>
    intro name _
    rw [hrelations]
    exact List.length_filter_le _ _
  case typed =>
    intro name _ hmem
    rw [htyped] at hmem
    cases hmem
  case related =>
    intro r hr _
    rw [hrelations, List.mem_singleton] at hr
    rw [hr, part_targetOf, hnames]
    exact List.mem_append_right _ (List.mem_singleton_self _)
  case owned => exact fun name hname hmem => absurd hmem (hnone name hname)
  case linked =>
    intro name hname r hr
    rw [relationsOf, view_of_notMem (hnone name hname)] at hr
    cases hr

/-- A package of one slide, with a list of slides. -/
def single (list : Text) : Package where
  source := memory
  entries := [
    ⟨contentTypes, .first, .deflated, 0, 3, Text.utf8 ("<Types xmlns=\"" ++ Uri.contentTypes ++ "\"/>")⟩,
    ⟨presentationRelationships, .first, .deflated, 0, 3, Text.utf8
      ("<Relationships xmlns=\"" ++ Uri.relationships ++ "\"><Relationship Id=\"rId1\" Type=\""
        ++ slideRelationship ++ "\" Target=\"slides/slide1.xml\"/></Relationships>")⟩,
    ⟨presentation, .first, .deflated, 0, 3, Text.utf8
      ("<p:presentation xmlns:p=\"" ++ Uri.presentation ++ "\" xmlns:r=\"" ++ Uri.references
        ++ "\"><p:sldIdLst>" ++ list ++ "</p:sldIdLst></p:presentation>")⟩,
    ⟨slideName 1, .first, .deflated, 0, 3, Text.utf8 "<p/>"⟩]
  modified := []
  distinct := (by decide : (registries ++ [slideName 1]).Nodup)

/-- What the registries of a package say: what has a content type of its own, the relationships, and the
numbers and references of what is listed. -/
def registered (p : Package) : List Text × List Relationship × List (Option Int × Option Text) :=
  (p.overridden, p.relations, p.listed.map fun t => (entryNumber? t, reference? t))

theorem consistent_single {list : Text} {entries : List (Option Int × Option Text)}
    (h : (single list).registered =
      ([], [Relationship.mk "rId1" slideRelationship (targetOf (slideName 1))], entries))
    (hnumbered : ∀ e ∈ entries, e.1.isSome) (hdistinct : (entries.filterMap Prod.fst).Nodup)
    (honce : (entries.filterMap Prod.snd).Nodup) : (single list).Consistent := by
  obtain ⟨htyped, h⟩ := Prod.mk.inj h
  obtain ⟨hrelations, hlisted⟩ := Prod.mk.inj h
  rw [← hlisted, List.filterMap_map] at hdistinct honce
  rw [← hlisted, List.forall_mem_map] at hnumbered
  exact consistent_of_single rfl htyped hrelations hnumbered hdistinct honce

/-- A slide that is listed, and an entry that refers to no relationship. -/
def dangling : Package := single "<p:sldId id=\"256\" r:id=\"rId1\"/><p:sldId id=\"257\" r:id=\"rId2\"/>"

/-- The new relationship is given the identifier that the entry refers to, which is then listed twice. -/
theorem duplicate_dangling : dangling.Consistent ∧ slideName 1 ∈ dangling.names ∧
    ∃ q, (duplicate (slideName 1) none none).on dangling = (.ok (slideName 2), q) ∧
      q.listed.filterMap reference? = ["rId1".toList, "rId2".toList, "rId2".toList] ∧ ¬ q.Consistent := by
  have hrun : dangling.registered = ([], [Relationship.mk "rId1" slideRelationship (targetOf (slideName 1))],
        [(some 256, some "rId1".toList), (some 257, some "rId2".toList)]) ∧
      ((duplicate (slideName 1) none none).on dangling).1.toOption = some (slideName 2) ∧
      ((duplicate (slideName 1) none none).on dangling).2.listed.filterMap reference? =
        ["rId1".toList, "rId2".toList, "rId2".toList] := by decide +kernel
  obtain ⟨hregistered, hname, hreferences⟩ := hrun
  refine ⟨consistent_single hregistered (by decide) (by decide) (by decide), by decide, ?_⟩
  generalize (duplicate (slideName 1) none none).on dangling = run at hname hreferences ⊢
  obtain ⟨result, q⟩ := run
  cases result with
  | error => cases hname
  | ok name =>
    obtain rfl := Option.some.inj hname
    refine ⟨q, rfl, hreferences, fun hq => ?_⟩
    have honce := hq.once
    rw [hreferences] at honce
    exact absurd honce (by decide)

/-- A slide that is listed. -/
def undisturbed : Package := single "<p:sldId id=\"256\" r:id=\"rId1\"/>"

/-- A package that is reached by a copy, and what the next one leads to. -/
theorem consistent_of_reached_second : ∃ q,
    (duplicate (slideName 1) none none).on undisturbed = (.ok (slideName 2), q) ∧ Reached undisturbed q ∧
      undisturbed.Consistent ∧ undisturbed.Regular ∧ q.Consistent ∧ ∀ source after s name r, isSlide source →
        (duplicate source after s).on q = (.ok name, r) → Created q name r := by
  have hrun : undisturbed.registered =
        ([], [Relationship.mk "rId1" slideRelationship (targetOf (slideName 1))], [(some 256, some "rId1".toList)]) ∧
      ((duplicate (slideName 1) none none).on undisturbed).1.toOption = some (slideName 2) ∧
      (∀ name ∈ undisturbed.names, undisturbed.Clear name) ∧
      ∀ d ∈ undisturbed.document? presentation, Unshadowed d.root := by decide +kernel
  obtain ⟨hregistered, hname, hclear, hunshadowed⟩ := hrun
  have hconsistent : undisturbed.Consistent :=
    consistent_single hregistered (by decide) (by decide) (by decide)
  have hregular : undisturbed.Regular := by
    refine ⟨fun name _ => ?_, hunshadowed, fun n hn hmem => ?_⟩
    · by_cases hmem : name ∈ undisturbed.names
      · exact hclear name hmem
      · exact clear_of_notMem hmem
    · obtain ⟨hrelations, hlisted⟩ := Prod.mk.inj (Prod.mk.inj hregistered).2
      have hreferences := congrArg (List.filterMap Prod.snd) hlisted
      rw [List.filterMap_map] at hreferences
      change undisturbed.listed.filterMap reference? = _ at hreferences
      rw [hreferences] at hmem
      rw [hrelations] at hn
      obtain rfl := relationshipId_injective ((List.mem_singleton.1 hmem).trans (show _ = relationshipId 1 by decide))
      exact absurd hn (by decide)
  cases hresult : (duplicate (slideName 1) none none).on undisturbed with
  | mk result q =>
    rw [hresult] at hname
    cases result with
    | error => cases hname
    | ok name =>
      obtain rfl := Option.some.inj hname
      have hreached : Reached undisturbed q := .add .refl (isSlide_slideName 1) hresult
      exact ⟨q, rfl, hreached, hconsistent, hregular, consistent_of_reached hreached hconsistent hregular⟩

end DeckMerge.Package
