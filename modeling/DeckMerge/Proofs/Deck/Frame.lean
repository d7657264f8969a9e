import DeckMerge.Proofs.Deck.Validation
import DeckMerge.Proofs.Package.Growth

/-!
What a rendering leaves alone. Parts keep their places and all about them but their contents; the
templated parts are written, and with copies the parts that these are registered in, and no others.
-/

namespace DeckMerge.Deck

open Package (Grown isSlide registries relationshipsName)
open Placeholder (Binding)

variable {p q : Package} {rendered : List Rendered} {added : List Text} {name last : Text}

/-- The parts that are written in their places. -/
def rewritten (rendered : List Rendered) : List Text :=
  (rendered.filter fun x => x.1.role ≠ .copy ∧ x.isChanged).map fun x => x.1.name

/-- The parts that copies bring, in the order in which they are made. -/
def partsOfCopies (p : Package) (last : Text) (added : List Text) : List Text :=
  added.flatMap (p.partsOfCopy last)

/-- The parts that are written for copies: their own, and with them the registries. -/
def writtenForCopies (p : Package) (last : Text) (added : List Text) : List Text :=
  added.flatMap fun name => p.partsOfCopy last name ++ registries

theorem rewritten_cons_copy {x : Rendered} (h : x.1.role = .copy) :
    rewritten (x :: rendered) = rewritten rendered := by
  simp [rewritten, h]

theorem rewritten_cons_of_isChanged {x : Rendered} (h : x.1.role ≠ .copy) (hchanged : x.isChanged) :
    rewritten (x :: rendered) = x.1.name :: rewritten rendered := by
  simp [rewritten, h, hchanged]

theorem rewritten_cons_of_not_isChanged {x : Rendered} (hchanged : ¬ x.isChanged) :
    rewritten (x :: rendered) = rewritten rendered := by
  simp [rewritten, hchanged]

theorem partsOfCopy_congr (h : q.names = p.names) : q.partsOfCopy last = p.partsOfCopy last := by
  funext other
  simp only [Package.partsOfCopy, Package.has_iff, h]

/-- Further copies bring the same parts after a copy has been made. -/
theorem partsOfCopy_of_grown {s : Package} (hlast : isSlide last) (hmem : last ∈ p.names)
    (hname : isSlide name) (hfresh : name ∉ p.names)
    (h : s.names = p.names ++ (p.partsOfCopy last name).filter (· ∉ p.names)) :
    s.partsOfCopy last = p.partsOfCopy last := by
  have hrelationships : relationshipsName last ∈ s.names ↔ relationshipsName last ∈ p.names := by
    refine ⟨fun hs => ?_, fun hp => by rw [h]; exact List.mem_append_left _ hp⟩
    rw [h, List.mem_append, List.mem_filter, Package.partsOfCopy, List.mem_cons] at hs
    rcases hs with hs | ⟨hs | hs, -⟩
    · exact hs
    · exact absurd (hs ▸ hname) (Package.not_isSlide_relationshipsName last)
    · split at hs
      · exact absurd (Package.relationshipsName_inj hlast hname (by simpa using hs) ▸ hmem) hfresh
      · cases hs
  funext other
  simp only [Package.partsOfCopy, Package.has_iff, hrelationships]

theorem filter_partsOfCopies {s : Package} (hname : isSlide name)
    (hadded : ∀ other ∈ added, isSlide other) (hnew : ∀ other ∈ added, other ∉ s.names)
    (h : s.names = p.names ++ (p.partsOfCopy last name).filter (· ∉ p.names)) (hmem : name ∈ s.names) :
    (partsOfCopies p last added).filter (· ∉ s.names) =
      (partsOfCopies p last added).filter (· ∉ p.names) := by
  apply List.filter_congr
  intro part hpart
  obtain ⟨other, hother, hpart⟩ := List.mem_flatMap.1 hpart
  have hne : other ≠ name := fun heq => hnew other hother (heq ▸ hmem)
  rw [h, decide_eq_decide, List.mem_append, not_or, and_iff_left_iff_imp]
  intro _ hin
  replace hin := List.mem_of_mem_filter hin
  simp only [Package.partsOfCopy, Package.has_iff, List.mem_cons] at hpart hin
  rcases hpart with rfl | hpart
  · rcases hin with hin | hin
    · exact hne hin
    · split at hin
      · obtain rfl := List.mem_singleton.1 hin
        exact Package.not_isSlide_relationshipsName _ (hadded _ hother)
      · cases hin
  · split at hpart
    case isFalse => cases hpart
    case isTrue hrelationships =>
      obtain rfl := List.mem_singleton.1 hpart
      rcases hin with hin | hin
      · exact Package.not_isSlide_relationshipsName _ (hin ▸ hname)
      · rw [if_pos hrelationships] at hin
        exact hne (Package.relationshipsName_inj (hadded _ hother) hname (List.mem_singleton.1 hin))

/-- A copy comes before what is placed behind it. -/
theorem grown_cons_copy {s : Package} {wrote : List Text} {previous : Option Text} {text : Text}
    (hlast : isSlide last) (hcopy : (Package.duplicate last previous (some text)).on p = (.ok name, s))
    (hadded : ∀ other ∈ added, isSlide other) (hfree : ∀ other ∈ added, s.content? other = none)
    (h : Grown s (wrote ++ writtenForCopies s last added)
      ((partsOfCopies s last added).filter (· ∉ s.names)) q) :
    Grown p (wrote ++ writtenForCopies p last (name :: added))
      ((partsOfCopies p last (name :: added)).filter (· ∉ p.names)) q := by
  obtain ⟨hslide, hfresh, hcontent, -⟩ := Package.duplicate_eq_ok hcopy
  have hgrown := Package.grown_of_duplicate hcopy
  have hthere : name ∈ s.names := Package.content?_isSome_iff.1 (by simp [hcontent])
  have hnew : ∀ other ∈ added, other ∉ s.names := by
    intro other hother
    rw [← Package.content?_isSome_iff, hfree other hother]
    exact Bool.false_ne_true
  have hparts := partsOfCopy_of_grown hlast (Package.mem_names_of_duplicate hcopy) hslide hfresh hgrown.names_eq
  have hfilter := filter_partsOfCopies hslide hadded hnew hgrown.names_eq hthere
  simp only [writtenForCopies, partsOfCopies, hparts] at h hfilter
  rw [hfilter] at h
  rw [partsOfCopies, List.flatMap_cons, List.filter_append]
  refine (hgrown.trans h).mono fun other hother => ?_
  simp only [writtenForCopies, List.flatMap_cons, List.mem_append] at hother ⊢
  tauto

/-- A part that is there is written before what is placed behind it. -/
theorem grown_cons_page {s : Package} {wrote : List Text} {text : Text} (hmem : name ∈ p.names)
    (hs : s = p.writeText name text)
    (h : Grown s (wrote ++ writtenForCopies s last added)
      ((partsOfCopies s last added).filter (· ∉ s.names)) q) :
    Grown p (name :: wrote ++ writtenForCopies p last added)
      ((partsOfCopies p last added).filter (· ∉ p.names)) q := by
  have hgrown : Grown p [name] [] s := hs ▸ .of_rewrite hmem _
  have hsame : s.names = p.names := by rw [hgrown.names_eq, List.append_nil]
  simp only [writtenForCopies, partsOfCopies, partsOfCopy_congr hsame, hsame] at h
  exact hgrown.trans h

/-- Placing adds the parts of the copies and writes no others than the changed and the registries. -/
theorem grown_of_place {previous : Option Text}
    (hnames : ∀ x ∈ rendered, x.1.role ≠ .copy → x.1.name ∈ p.names)
    (hlast : ∀ x ∈ rendered, x.1.role = .copy → isSlide last)
    (h : (place last previous rendered).on p = (.ok added, q)) :
    Grown p (rewritten rendered ++ writtenForCopies p last added)
      ((partsOfCopies p last added).filter (· ∉ p.names)) q := by
  induction rendered generalizing p previous added with
  | nil =>
    obtain ⟨rfl, rfl⟩ : [] = added ∧ p = q := by simpa using h
    exact .refl p
  | cons x rendered ih =>
    have hnames' := fun y hy => hnames y (List.mem_cons_of_mem _ hy)
    have hlast' := fun y hy => hlast y (List.mem_cons_of_mem _ hy)
    by_cases hrole : x.1.role = .copy
    · obtain ⟨name, s, added', hcopy, hplace, rfl⟩ := place_copy_eq_ok hrole h
      have horigin := origin_of_place hplace
      have hgrown := ih
        (fun y hy hy' => (Package.grown_of_duplicate hcopy).mem_names (hnames' y hy hy')) hlast' hplace
      rw [rewritten_cons_copy hrole]
      exact grown_cons_copy (hlast x List.mem_cons_self hrole) hcopy horigin.isSlide horigin.fresh hgrown
    · rw [on_place_page hrole] at h
      by_cases hchanged : x.isChanged
      · rw [Rendered.writeTo_of_isChanged hchanged] at h
        have hmem := hnames x List.mem_cons_self hrole
        have hgrown := ih (fun y hy hy' => (Grown.of_rewrite hmem _).mem_names (hnames' y hy hy')) hlast' h
        rw [rewritten_cons_of_isChanged hrole hchanged]
        exact grown_cons_page hmem rfl hgrown
      · rw [Rendered.writeTo_of_not_isChanged hchanged] at h
        rw [rewritten_cons_of_not_isChanged hchanged]
        exact ih hnames' hlast' h

/-! ### Whole renderings -/

variable {c : Config} {t : Template} {completion : Nat → List Nat} {rs : List Candidate.Record}
  {r : Rendering}

theorem Template.reads_of_load (h : Template.load c p = .ok t) :
    t.config = c ∧ t.package = p ∧ ∀ part ∈ t.parts, p.readText part.1 = .ok part.2 := by
  obtain ⟨names, -, hparts⟩ := Sequence.bind_eq_ok_iff.1 h
  obtain ⟨parts, hread, ht⟩ := Sequence.bind_eq_ok_iff.1 hparts
  obtain rfl := Except.ok.inj ht
  exact ⟨rfl, rfl, (read_eq_ok hread).2⟩

theorem Template.mem_names_of_load (h : Template.load c p = .ok t) {name : Text} (hname : name ∈ t.names) :
    name ∈ p.names := by
  obtain ⟨part, hpart, rfl⟩ := List.mem_map.1 hname
  exact Package.mem_names_of_readText ((reads_of_load h).2.2 part hpart)

/-- Copies are planned of slides only. -/
theorem Template.isSlide_last_of_plan {bindings : List Binding} {jobs : List Job}
    (h : t.plan bindings = .ok jobs) {j : Job} (hj : j ∈ jobs) (hrole : j.role = .copy) :
    isSlide t.last.1 := by
  obtain rfl := plan_eq_ok h
  have hcount := countP_jobsFrom t.config.capacity t.last 1 t.parts bindings
  have hpos : 0 < (jobsFrom t.config.capacity t.last 1 t.parts bindings).countP
    (fun j => j.role = .copy) := List.countP_pos_iff.2 ⟨j, hj, decide_eq_true hrole⟩
  by_contra hslide
  rw [plan, if_pos ⟨by omega, hslide⟩] at h
  cases h

theorem written_eq_modified (h : (t.renderWith completion rs).result = .ok r) :
    r.written = (t.renderWith completion rs).package.modified := by
  unfold Template.renderWith at h ⊢
  cases hbind : t.bind rs with
  | error => simp [hbind] at h
  | ok bindings =>
  cases hplan : t.plan bindings with
  | error => simp [hbind, hplan] at h
  | ok jobs =>
  cases hrun : runJobs t.config.workers completion jobs with
  | error => simp [hbind, hplan, hrun] at h
  | ok rendered =>
  cases hcheck : check rendered with
  | error => simp [hbind, hplan, hrun, hcheck] at h
  | ok n =>
  simp only [hbind, hplan, hrun, hcheck] at h ⊢
  generalize (place t.last.1 none rendered).on t.package = result at h ⊢
  obtain ⟨outcome, s⟩ := result
  cases outcome with
  | error => simp at h
  | ok added =>
    obtain rfl := Except.ok.inj h
    rfl

/-- All renderings of a part in its place give back the text that they are made from. -/
def Template.Unchanged (t : Template) (rs : List Candidate.Record) (name : Text) : Prop :=
  ∀ bindings jobs, t.bind rs = .ok bindings → t.plan bindings = .ok jobs →
    ∀ j ∈ jobs, j.role ≠ .copy → j.name = name →
      ∀ part, Part.render (some j.name) j.source j.binding = .ok part → part.text = j.source

/-- What a rendering leaves of a package: all that is told of its parts but their contents stays, the
parts of copies come last, and contents change in templated parts, and with copies in the registries and
in relationships that a copy takes over. -/
structure Framed (p : Package) (t : Template) (rs : List Candidate.Record) (r : Rendering) (q : Package) :
    Prop where
  headers_eq : q.headers =
    p.headers ++ ((partsOfCopies p t.last.1 r.added).filter (· ∉ p.names)).map p.newHeader
  kept : ∀ name ∈ p.names, name ∉ t.names → q.content? name ≠ p.content? name →
    r.added ≠ [] ∧ (name ∈ registries ∨
      relationshipsName t.last.1 ∈ p.names ∧ name ∈ r.added.map relationshipsName)
  unchanged : ∀ name ∈ t.names, isSlide name → t.Unchanged rs name →
    q.content? name = p.content? name ∧ (name ∉ p.modified → name ∉ r.written)

theorem Framed.names_eq (h : Framed p t rs r q) :
    q.names = p.names ++ (partsOfCopies p t.last.1 r.added).filter (· ∉ p.names) := by
  rw [← Package.map_name_headers, h.headers_eq, List.map_append, Package.map_name_headers, List.map_map]
  simp [Package.newHeader, Function.comp_def]

theorem mem_writtenForCopies (h : name ∈ writtenForCopies p last added) :
    added ≠ [] ∧ (name ∈ added ∨ name ∈ registries ∨
      relationshipsName last ∈ p.names ∧ name ∈ added.map relationshipsName) := by
  obtain ⟨other, hother, hname⟩ := List.mem_flatMap.1 h
  refine ⟨List.ne_nil_of_mem hother, ?_⟩
  rw [List.mem_append, Package.partsOfCopy, List.mem_cons] at hname
  rcases hname with (rfl | hname) | hname
  · exact .inl hother
  · split at hname
    case isTrue hmem =>
      obtain rfl := List.mem_singleton.1 hname
      exact .inr (.inr ⟨Package.has_iff.1 hmem, List.mem_map_of_mem hother⟩)
    case isFalse => cases hname
  · exact .inr (.inl hname)

theorem not_isSlide_of_mem_registries (h : name ∈ registries) : ¬ isSlide name := by
  simp only [registries, List.mem_cons, List.not_mem_nil, or_false] at h
  rcases h with rfl | rfl | rfl
  · exact Package.not_isSlide_contentTypes
  · exact Package.not_isSlide_presentationRelationships
  · exact Package.not_isSlide_presentation

/-- A part whose renderings give back its text is not written in its place. -/
theorem Template.Unchanged.notMem_rewritten {bindings : List Binding} {jobs : List Job}
    (h : t.Unchanged rs name) (hbind : t.bind rs = .ok bindings) (hplan : t.plan bindings = .ok jobs)
    (hrun : List.Forall₂ (fun j r => Job.run j = .ok r) jobs rendered) : name ∉ rewritten rendered := by
  intro hmem
  obtain ⟨x, hx, rfl⟩ := List.mem_map.1 hmem
  obtain ⟨hmem, hx⟩ := List.mem_filter.1 hx
  obtain ⟨hrole, hchanged⟩ := of_decide_eq_true hx
  obtain ⟨j, hj, hjob⟩ := Sequence.exists_of_mem_forall₂ hrun hmem
  obtain ⟨rfl, hpart⟩ := Job.run_eq_ok hjob
  have hsame := h bindings jobs hbind hplan x.1 hj hrole rfl x.2 hpart
  simp [Rendered.isChanged, hsame] at hchanged

theorem framed_of_renderWith (hload : Template.load c p = .ok t)
    (h : (t.renderWith completion rs).result = .ok r) :
    Framed p t rs r (t.renderWith completion rs).package := by
  obtain ⟨-, rfl, -⟩ := Template.reads_of_load hload
  have hwritten := written_eq_modified h
  obtain ⟨bindings, jobs, rendered, n, added, hbind, hplan, hrun, -, hplace, -, -, -, -, rfl⟩ :=
    renderWith_eq_ok h
  have hrun := runJobs_eq_ok hrun
  have hjobs : ∀ x ∈ rendered, x.1 ∈ jobs := fun x hx => map_fst_of_run hrun ▸ List.mem_map_of_mem hx
  have hnames : ∀ x ∈ rendered, x.1.role ≠ .copy → x.1.name ∈ t.names := fun x hx hrole =>
    List.mem_map_of_mem (Template.mem_parts_of_run hplan hrun hx hrole)
  have hrewritten : ∀ name ∈ rewritten rendered, name ∈ t.names := by
    intro name hname
    obtain ⟨x, hx, rfl⟩ := List.mem_map.1 hname
    obtain ⟨hmem, hx⟩ := List.mem_filter.1 hx
    exact hnames x hmem (of_decide_eq_true hx).1
  have hgrown := grown_of_place
    (fun x hx hrole => Template.mem_names_of_load hload (hnames x hx hrole))
    (fun x hx hrole => Template.isSlide_last_of_plan hplan (hjobs x hx) hrole) hplace
  have hfresh : ∀ name ∈ t.package.names, name ∉ r.added := by
    intro name hname hadded
    have hsome := Package.content?_isSome_iff.2 hname
    simp [(origin_of_place hplace).fresh name hadded] at hsome
  constructor
  · exact hgrown.headers_eq
  · intro name hname hpart hne
    have hmem : name ∈ rewritten rendered ++ writtenForCopies t.package t.last.1 r.added := by
      by_contra hmem
      exact hne (hgrown.frame name hmem)
    rcases List.mem_append.1 hmem with hmem | hmem
    · exact absurd (hrewritten name hmem) hpart
    · obtain ⟨hadded, hmem | hmem⟩ := mem_writtenForCopies hmem
      · exact absurd hmem (hfresh name hname)
      · exact ⟨hadded, hmem⟩
  · intro name hname hslide hunchanged
    have hmem : name ∉ rewritten rendered ++ writtenForCopies t.package t.last.1 r.added := by
      rw [List.mem_append, not_or]
      refine ⟨hunchanged.notMem_rewritten hbind hplan hrun, fun hmem => ?_⟩
      obtain ⟨-, hmem | hmem | ⟨-, hmem⟩⟩ := mem_writtenForCopies hmem
      · exact hfresh name (Template.mem_names_of_load hload hname) hmem
      · exact not_isSlide_of_mem_registries hmem hslide
      · obtain ⟨other, -, rfl⟩ := List.mem_map.1 hmem
        exact Package.not_isSlide_relationshipsName other hslide
    refine ⟨hgrown.frame name hmem, fun hmodified hin => ?_⟩
    rw [hwritten] at hin
    exact (hgrown.modified name hin).elim hmodified hmem

/-- A rendering that succeeds leaves all else of a package alone, and its octets open to what it leaves:
the same parts, of which attributes of zero have become those of a file for its owner. -/
theorem renderWith_framed (hload : Template.load c p = .ok t)
    (h : (t.renderWith completion rs).result = .ok r) :
    Framed p t rs r (t.renderWith completion rs).package ∧
      r.bytes = (t.renderWith completion rs).package.toBytes ∧
      ((t.renderWith completion rs).package.Fits → ∀ source,
        ∃ q, Package.ofBytes source r.bytes = .ok q ∧
          (∀ name, q.content? name = (t.renderWith completion rs).package.content? name) ∧
          q.headers = (t.renderWith completion rs).package.headers.map fun e =>
            { e with attributes := e.writtenAttributes }) := by
  obtain ⟨_, _, _, _, _, -, -, -, -, -, hbytes, -⟩ := renderWith_eq_ok h
  refine ⟨framed_of_renderWith hload h, hbytes, fun hfits source => ?_⟩
  obtain ⟨q, hopen, hcontent⟩ := Package.ofBytes_toBytes hfits source
  obtain ⟨q', hopen', hentries⟩ := Package.entries_ofBytes_toBytes hfits source
  obtain rfl : q = q' := Except.ok.inj (hopen.symm.trans hopen')
  refine ⟨q, hbytes ▸ hopen, hcontent, ?_⟩
  rw [Package.headers, hentries, Package.headers, List.map_map, List.map_map]
  refine List.map_congr_left fun e he => ?_
  simp only [Function.comp_apply, Zip.Entry.written, Zip.Entry.header, hfits.writtenName_eq he]
  rfl

/-! ### A slide with relationships -/

/-- A slide with an image, and relationships that are left of a slide that is gone. -/
def relatedSlide : Package where
  source := Package.memory
  entries := oneSlide.entries ++ [
    entryOfText (relationshipsName (Package.slideName 1))
      "<Relationships xmlns=\"http://schemas.openxmlformats.org/package/2006/relationships\"/>",
    entryOfText (relationshipsName (Package.slideName 2)) "left over",
    entryOfText "ppt/media/image1.png" "image"]
  modified := []
  distinct := by decide

def relatedTemplate : Template := { oneSlideTemplate with package := relatedSlide }

/-- The copy is the second slide: it takes over the relationships, which keep their place. -/
theorem renderWith_framed_related : ∃ r, Template.load oneSlot relatedSlide = .ok relatedTemplate ∧
    (relatedTemplate.renderWith List.range twoRecords).result = .ok r ∧
    r.added = [Package.slideName 2] ∧
    (relatedTemplate.renderWith List.range twoRecords).package.names =
      relatedSlide.names ++ [Package.slideName 2] ∧
    Framed relatedSlide relatedTemplate twoRecords r
      (relatedTemplate.renderWith List.range twoRecords).package := by
  have hload : Template.load oneSlot relatedSlide = .ok relatedTemplate :=
    Template.load_of_parts (by decide +kernel)
  have hrun : ((relatedTemplate.renderWith List.range twoRecords).result.toOption.map (·.added),
      (relatedTemplate.renderWith List.range twoRecords).package.names) =
        (some [Package.slideName 2], relatedSlide.names ++ [Package.slideName 2]) := by decide +kernel
  obtain ⟨hadded, hnames⟩ := Prod.mk.inj hrun
  cases hresult : (relatedTemplate.renderWith List.range twoRecords).result with
  | error =>
    rw [hresult] at hadded
    cases hadded
  | ok r =>
    rw [hresult] at hadded
    exact ⟨r, hload, rfl, Option.some.inj hadded, hnames, (renderWith_framed hload hresult).1⟩

end DeckMerge.Deck
