import DeckMerge.Proofs.Deck.Frame
import DeckMerge.Proofs.Deck.Writing
import DeckMerge.Proofs.Package.ShowOrder

/-!
Where a rendering shows the pages that it adds. The pages of templated parts change no list, and each copy
is listed after the page before it, so the copies come in order after the last templated part.
-/

namespace DeckMerge.Deck

open Package (isSlide presentation presentationRelationships shownIn)
open Placeholder (Binding)

variable {p q : Package} {copies pages rendered : List Rendered} {added : List Text} {last before : Text}
  {previous : Option Text}

/-! ### The jobs of more pages than parts -/

theorem role_of_mem_jobsFrom_nil {capacity n : Nat} {last : Text × Text} {bs : List Binding} {j : Job}
    (h : j ∈ jobsFrom capacity last n [] bs) : j.role = .copy :=
  ((planned_of_mem_jobsFrom h).origin.resolve_left fun hpart => List.not_mem_nil hpart.1).2

/-- The templated parts are filled first, and then copies are made. -/
theorem jobsFrom_eq_append {capacity n : Nat} {last : Text × Text} {parts : List (Text × Text)}
    {bs : List Binding} (h : parts.length ≤ bs.length) : ∃ pages m, jobsFrom capacity last n parts bs =
      pages ++ jobsFrom capacity last m [] (bs.drop parts.length) ∧
      pages.map (·.name) = parts.map (·.1) ∧ ∀ j ∈ pages, j.role = .page := by
  induction parts generalizing n bs with
  | nil => exact ⟨[], n, rfl, rfl, nofun⟩
  | cons part parts ih =>
    cases bs with
    | nil => cases h
    | cons b bs =>
      obtain ⟨pages, m, hjobs, hnames, hroles⟩ := @ih (n + 1) bs (Nat.le_of_succ_le_succ h)
      exact ⟨⟨part.1, part.2, b, .page⟩ :: pages, m, congrArg (_ :: ·) hjobs, congrArg (part.1 :: ·) hnames,
        List.forall_mem_cons.2 ⟨rfl, hroles⟩⟩

/-! ### Pages, then copies -/

/-- Pages write their own parts only, and the last of them is the one that copies follow. -/
theorem place_pages (hroles : ∀ x ∈ pages, x.1.role = .page) (hnames : ∀ x ∈ pages, x.1.name ∈ p.names)
    (h : (place last previous (pages ++ copies)).on p = (.ok added, q)) : ∃ p',
      (place last ((pages.getLast?.map (·.1.name)).or previous) copies).on p' = (.ok added, q) ∧
      (∀ other, other ∉ pages.map (·.1.name) → p'.content? other = p.content? other) ∧
      p'.names = p.names := by
  obtain ⟨p', hplace, hnames', hcontent⟩ := place_filled (fun x hx => by simp [hroles x hx]) hnames h
  rw [lastPage?, List.filter_eq_self.2 fun x hx => decide_eq_true (hroles x hx)] at hplace
  refine ⟨p', hplace, fun other hother => ?_, hnames'⟩
  have hnone : lastText? other pages = none := by
    rw [lastText?_eq_none_iff]
    intro x hx
    rw [writes?, if_neg]
    rintro ⟨-, rfl⟩
    exact hother (List.mem_map_of_mem hx)
  rw [hcontent, hnone]
  rfl

/-- Copies are shown one after the other, after the slide that the first of them follows. -/
theorem showOrder_of_copies {front back : List Xml.Tag} {entry : Xml.Tag}
    (hroles : ∀ x ∈ copies, x.1.role = .copy) (hp : p.Extensible) (hbefore : isSlide before)
    (hlisted : p.Listed before front entry back) (h : (place last (some before) copies).on p = (.ok added, q)) :
    q.showOrder = shownIn p.relations front ++ before :: (added ++ shownIn p.relations back) := by
  induction copies generalizing p before added front entry with
  | nil =>
    obtain ⟨rfl, rfl⟩ : [] = added ∧ p = q := by simpa using h
    exact hlisted.showOrder_eq
  | cons x copies ih =>
    obtain ⟨hrole, hroles⟩ := List.forall_mem_cons.1 hroles
    obtain ⟨name, p₁, added', hcopy, hrest, rfl⟩ := place_copy_eq_ok hrole h
    have hnonempty : before ≠ [] := by
      rintro rfl
      revert hbefore
      decide
    obtain ⟨hp₁, ⟨new, hnew⟩, hsame⟩ := hp.add hnonempty hlisted hcopy
    have hkept : ∀ ts, (∀ t ∈ ts, t ∈ p.lineup) → shownIn p₁.relations ts = shownIn p.relations ts :=
      fun ts hts => Package.shownIn_congr fun t ht => hsame t (hts t ht)
    have hlineup : p.lineup = (front ++ [entry]) ++ back := by
      rw [hlisted.lineup_eq, List.append_assoc]
      rfl
    have hfront : shownIn p₁.relations (front ++ [entry]) = shownIn p.relations front ++ [before] := by
      rw [hkept _ fun t ht => hlineup ▸ List.mem_append_left _ ht, Package.shownIn_append,
        Package.shownIn_cons hlisted.isEntry hlisted.leads]
      rfl
    have hback : shownIn p₁.relations back = shownIn p.relations back :=
      hkept back fun t ht => hlineup ▸ List.mem_append_right _ ht
    rw [ih hroles hp₁ (Package.slide_of_duplicate hcopy).1 hnew hrest, hfront, hback, List.append_assoc]
    rfl

/-! ### Whole renderings -/

variable {c : Config} {t : Template} {completion : Nat → List Nat} {rs : List Candidate.Record}
  {r : Rendering}

/-- The pages that a rendering adds are shown in their order right after the last templated part, which is
shown once, among slides that are shown as before. -/
structure Inserted (p : Package) (t : Template) (rs : List Candidate.Record) (r : Rendering) (q : Package) :
    Prop where
  order : ∃ before behind, p.showOrder = before ++ t.last.1 :: behind ∧
    t.last.1 ∉ before ∧ t.last.1 ∉ behind ∧ q.showOrder = before ++ t.last.1 :: (r.added ++ behind)
  count : r.added.length = r.pages - t.parts.length
  page : ∀ bindings, t.bind rs = .ok bindings → ∀ (i : Nat) (name : Text), r.added[i]? = some name →
    ∃ b part, bindings[t.parts.length + i]? = some b ∧ Part.render none t.last.2 b = .ok part ∧
      q.readText name = .ok part.text

theorem Inserted.of_content?_eq {q' : Package} (h : Inserted p t rs r q)
    (hq : ∀ name, q'.content? name = q.content? name) : Inserted p t rs r q' := by
  have hdocument : ∀ name, q'.document? name = q.document? name := fun name => by
    rw [Package.document?, Package.document?, hq]
  have horder : q'.showOrder = q.showOrder := by
    rw [Package.showOrder, Package.listed, Package.relations, Package.view_congr (hdocument _),
      Package.view_congr (hdocument _), Package.showOrder, Package.listed, Package.relations]
  refine ⟨horder ▸ h.order, h.count, fun bindings hbindings i name hname => ?_⟩
  obtain ⟨b, part, hb, hpart, hread⟩ := h.page bindings hbindings i name hname
  exact ⟨b, part, hb, hpart, (Package.readText_congr (hq name)).2 hread⟩

/-- Copies hold their pages, in order, and are different ones. -/
theorem pages_of_copies {capacity n : Nat} {source : Text × Text} {bs : List Binding}
    (hrun : List.Forall₂ (fun j r => Job.run j = .ok r) (jobsFrom capacity source n [] bs) copies)
    (h : (place last previous copies).on p = (.ok added, q)) : added.length = bs.length ∧ added.Nodup ∧
      ∀ (i : Nat) (name : Text), added[i]? = some name → ∃ b part, bs[i]? = some b ∧
        Part.render none source.2 b = .ok part ∧ q.readText name = .ok part.text := by
  have hjobs := map_fst_of_run hrun
  have hroles : ∀ j ∈ copies.map (·.1), j.role = .copy := fun j hj => role_of_mem_jobsFrom_nil (hjobs ▸ hj)
  have hplaced := place_eq_ok (.of_copies hroles) h
  have hcount : added.length = bs.length := by
    have hcopies := countP_jobsFrom capacity source n [] bs
    rw [← hjobs, List.countP_map] at hcopies
    exact hplaced.count_eq.trans hcopies
  have hdest : destinations (copies.map (·.1)) added = added := by
    rw [hjobs, destinations_jobsFrom _ _ _ _ _ hcount]
    rfl
  refine ⟨hcount, hdest ▸ hplaced.nodup, fun i name hname => ?_⟩
  have hi : i < bs.length := hcount ▸ (List.getElem?_eq_some_iff.1 hname).1
  have hb : bs[i]? = some bs[i] := List.getElem?_eq_getElem hi
  obtain ⟨j, hj, hsource, hbinding⟩ := getElem?_jobsFrom_page capacity source n [] bs hb
  obtain ⟨x, hx, hran⟩ := Sequence.exists_getElem?_of_forall₂ hrun hj
  obtain ⟨name', hname', hread⟩ := Sequence.exists_getElem?_of_forall₂ hplaced.reads hx
  rw [hdest] at hname'
  obtain rfl := Option.some.inj (hname.symm.trans hname')
  obtain ⟨part, hpart, htext⟩ := Part.render_nameless (Job.run_eq_ok hran).2
  exact ⟨_, part, hb, hsource ▸ hbinding ▸ hpart, htext ▸ hread⟩

/-- The parts in which the shown slides are registered are no templates themselves. -/
def Template.Apart (t : Template) : Prop := presentation ∉ t.names ∧ presentationRelationships ∉ t.names

instance (t : Template) : Decidable t.Apart := inferInstanceAs (Decidable (_ ∧ _))

theorem Template.last_of_plan {bindings : List Binding} {jobs : List Job} (h : t.plan bindings = .ok jobs)
    (hmore : t.parts.length < bindings.length) : isSlide t.last.1 ∧ t.parts.getLast? = some t.last := by
  have hslide : isSlide t.last.1 := by
    by_contra hslide
    rw [plan, if_pos ⟨hmore, hslide⟩] at h
    cases h
  refine ⟨hslide, ?_⟩
  rw [last] at hslide ⊢
  cases hlast : t.parts.getLast? with
  | some part => rfl
  | none =>
    rw [hlast] at hslide
    exact absurd hslide (by decide)

/-- With more pages than parts, the results are those of the templated parts, and then those of copies. -/
theorem exists_phases {bindings : List Binding} {jobs : List Job} (hplan : t.plan bindings = .ok jobs)
    (hrun : List.Forall₂ (fun j r => Job.run j = .ok r) jobs rendered) (hmore : t.parts.length < bindings.length) :
    ∃ filled copies n, rendered = filled ++ copies ∧ (∀ x ∈ filled, x.1.role = .page) ∧
      filled.map (·.1.name) = t.names ∧ List.Forall₂ (fun j r => Job.run j = .ok r)
        (jobsFrom t.config.capacity t.last n [] (bindings.drop t.parts.length)) copies := by
  obtain rfl := Template.plan_eq_ok hplan
  obtain ⟨pages, n, hjobs, hnames, hroles⟩ :=
    @jobsFrom_eq_append t.config.capacity 1 t.last t.parts bindings (Nat.le_of_lt hmore)
  rw [hjobs] at hrun
  have hfilled := List.forall₂_take pages.length hrun
  have hcopies := List.forall₂_drop pages.length hrun
  rw [List.take_left] at hfilled
  rw [List.drop_left] at hcopies
  refine ⟨_, _, n, (List.take_append_drop pages.length rendered).symm, fun x hx => ?_, ?_, hcopies⟩
  · exact hroles x.1 (map_fst_of_run hfilled ▸ List.mem_map_of_mem hx)
  · have hjobs' := congrArg (List.map (·.name)) (map_fst_of_run hfilled)
    rw [List.map_map] at hjobs'
    exact hjobs'.trans hnames

theorem inserted_of_renderWith (hload : Template.load c p = .ok t) (hp : p.Arranged) (hsettled : p.Settled)
    (hapart : t.Apart) (h : (t.renderWith completion rs).result = .ok r) (hmore : t.parts.length < r.pages) :
    Inserted p t rs r (t.renderWith completion rs).package := by
  obtain ⟨-, rfl, -⟩ := Template.reads_of_load hload
  obtain ⟨bindings, jobs, rendered, n, added, hbind, hplan, hrun, -, hplace, -, hpages, -, -, rfl⟩ :=
    renderWith_eq_ok h
  rw [hpages] at hmore
  obtain ⟨hslide, hlast⟩ := Template.last_of_plan hplan hmore
  obtain ⟨filled, copies, m, rfl, hfilled, hnames, hcopies⟩ := exists_phases hplan (runJobs_eq_ok hrun) hmore
  have hown : ∀ x ∈ filled, x.1.name ∈ t.package.names := fun x hx =>
    Template.mem_names_of_load hload (hnames ▸ List.mem_map_of_mem hx)
  obtain ⟨p', hplace, hframe, hsame⟩ := place_pages hfilled hown hplace
  have hprevious : (filled.getLast?.map (·.1.name)).or none = some t.last.1 := by
    rw [← List.getLast?_map, hnames, Template.names, List.getLast?_map, hlast]
    rfl
  rw [hprevious] at hplace
  -- The pages leave the lists alone, so the last templated part is listed where it was.
  have hdocument : ∀ name, name ∉ t.names → p'.document? name = t.package.document? name := fun name hname => by
    rw [Package.document?, Package.document?, hframe name (hnames ▸ hname)]
  have hrelated := hdocument _ hapart.2
  have hpresented := hdocument _ hapart.1
  have hrelations : p'.relations = t.package.relations := Package.view_congr hrelated
  have hthere : t.last.1 ∈ t.package.names :=
    Template.mem_names_of_load hload (List.mem_map_of_mem (List.mem_of_getLast? hlast))
  obtain ⟨front, entry, back, hlisted, hfront, hback⟩ :=
    hp.exists_listed hsettled (Package.mem_slides.2 ⟨hthere, hslide⟩)
  have hshown := showOrder_of_copies
    (fun x hx => role_of_mem_jobsFrom_nil (map_fst_of_run hcopies ▸ List.mem_map_of_mem hx))
    (hsettled.extensible.congr hrelated hpresented fun _ => hsame.symm ▸ id) hslide
    (hlisted.congr hrelations (Package.view_congr hpresented)) hplace
  rw [hrelations] at hshown
  obtain ⟨hcount, -, hpage⟩ := pages_of_copies hcopies hplace
  refine ⟨⟨_, _, hlisted.showOrder_eq, hfront, hback, hshown⟩, ?_, fun bindings' hbindings' i name hname => ?_⟩
  · rw [hcount, List.length_drop, hpages]
  · obtain rfl := Except.ok.inj (hbind.symm.trans hbindings')
    obtain ⟨b, part, hb, hpart, hread⟩ := hpage i name hname
    rw [List.getElem?_drop] at hb
    exact ⟨b, part, hb, hpart, hread⟩

/-- The pages that a rendering adds are shown in their order after the last templated part, both in the
package that is left behind and in the one that its octets are opened to. -/
theorem renderWith_shown (hload : Template.load c p = .ok t) (hp : p.Arranged) (hsettled : p.Settled)
    (hapart : t.Apart) (h : (t.renderWith completion rs).result = .ok r) (hmore : t.parts.length < r.pages) :
    Inserted p t rs r (t.renderWith completion rs).package ∧
      r.bytes = (t.renderWith completion rs).package.toBytes ∧
      ((t.renderWith completion rs).package.Fits → ∀ source,
        ∃ q, Package.ofBytes source r.bytes = .ok q ∧ Inserted p t rs r q) := by
  have hinserted := inserted_of_renderWith hload hp hsettled hapart h hmore
  obtain ⟨_, _, _, _, _, -, -, -, -, -, hbytes, -⟩ := renderWith_eq_ok h
  refine ⟨hinserted, hbytes, fun hfits source => ?_⟩
  obtain ⟨q, hopen, hcontent⟩ := Package.ofBytes_toBytes hfits source
  exact ⟨q, hbytes ▸ hopen, hinserted.of_content?_eq hcontent⟩

/-- With the pages that are added, so many more slides are shown. -/
theorem Inserted.length_showOrder (h : Inserted p t rs r q) :
    q.showOrder.length = p.showOrder.length + r.added.length := by
  obtain ⟨before, behind, hbefore, -, -, hafter⟩ := h.order
  rw [hbefore, hafter]
  simp only [List.length_append, List.length_cons]
  omega

/-! ### Decks of one listed slide -/

/-- A package of one templated slide, with a list of slides. -/
def listedSlide (list : Text) : Package :=
  (Package.single list).writeText (Package.slideName 1) "<p>\x7b\x7bNAME_1\x7d\x7d</p>"

def listedTemplate (list : Text) : Template := { oneSlideTemplate with package := listedSlide list }

/-- The rendering of two records. -/
def listedAttempt (list : Text) : Attempt := (listedTemplate list).renderWith List.range twoRecords

/-- A slide that is listed. -/
def listOfOne : Text := "<p:sldId id=\"256\" r:id=\"rId1\"/>"

/-- A slide that is listed, and an entry that refers to no relationship. -/
def danglingList : Text := listOfOne ++ "<p:sldId id=\"257\" r:id=\"rId2\"/>"

/-- The second page is shown after the first. -/
theorem renderWith_shown_copy : ∃ r, Template.load oneSlot (listedSlide listOfOne) = .ok (listedTemplate listOfOne) ∧
    (listedSlide listOfOne).Arranged ∧ (listedSlide listOfOne).Settled ∧ (listedTemplate listOfOne).Apart ∧
    (listedAttempt listOfOne).result = .ok r ∧ (listedTemplate listOfOne).parts.length < r.pages ∧
    Inserted (listedSlide listOfOne) (listedTemplate listOfOne) twoRecords r (listedAttempt listOfOne).package ∧
    r.bytes = (listedAttempt listOfOne).package.toBytes ∧
    ((listedAttempt listOfOne).package.Fits → ∀ source,
      ∃ q, Package.ofBytes source r.bytes = .ok q ∧
        Inserted (listedSlide listOfOne) (listedTemplate listOfOne) twoRecords r q) := by
  have hload : Template.load oneSlot (listedSlide listOfOne) = .ok (listedTemplate listOfOne) :=
    Template.load_of_parts (by decide +kernel)
  have hregistries : (listedSlide listOfOne).slides = [Package.slideName 1] ∧ (listedSlide listOfOne).relations =
        [⟨"rId1", Package.slideRelationship, Package.targetOf (Package.slideName 1)⟩] ∧
      ((listedSlide listOfOne).listed.filter (Package.reference? · = some "rId1".toList)).length = 1 ∧
      (∀ t ∈ (listedSlide listOfOne).lineup,
        t.is Package.Uri.presentation "sldId" ∧ Package.reference? t = some "rId1".toList) ∧
      ((listedSlide listOfOne).Clear presentationRelationships ∧ (listedSlide listOfOne).Clear presentation) ∧
      ∀ d ∈ (listedSlide listOfOne).document? presentation, Package.Unshadowed d.root := by decide +kernel
  obtain ⟨hslides, hrelations, hlisted, hentries, hclear, hunshadowed⟩ := hregistries
  have harranged := Package.arranged_of_single hslides hrelations hlisted
  have hsettled := Package.settled_of_single hclear hunshadowed (by decide) hrelations hentries
  have hpages : (listedAttempt listOfOne).result.toOption.map (·.pages) = some 2 := by decide +kernel
  obtain ⟨r, hresult, hpages⟩ := Sequence.exists_of_map_toOption hpages
  have hmore : (listedTemplate listOfOne).parts.length < r.pages := by
    rw [hpages]
    decide
  exact ⟨r, hload, harranged, hsettled, by decide, hresult, hmore,
    renderWith_shown hload harranged hsettled (by decide) hresult hmore⟩

/-- The new slide is given the relationship that the entry refers to, and is shown twice. -/
theorem renderWith_shows_twice : (listedSlide danglingList).Arranged ∧
    Template.load oneSlot (listedSlide danglingList) = .ok (listedTemplate danglingList) ∧
    ∃ r, (listedAttempt danglingList).result = .ok r ∧
      (listedTemplate danglingList).parts.length < r.pages ∧ r.added = [Package.slideName 2] ∧
      (listedSlide danglingList).showOrder = [Package.slideName 1] ∧
      (listedAttempt danglingList).package.showOrder =
        [Package.slideName 1, Package.slideName 2, Package.slideName 2] ∧
      ¬ Inserted (listedSlide danglingList) (listedTemplate danglingList) twoRecords r
        (listedAttempt danglingList).package := by
  have hload : Template.load oneSlot (listedSlide danglingList) = .ok (listedTemplate danglingList) :=
    Template.load_of_parts (by decide +kernel)
  have hregistries : (listedSlide danglingList).slides = [Package.slideName 1] ∧
      (listedSlide danglingList).relations =
        [⟨"rId1", Package.slideRelationship, Package.targetOf (Package.slideName 1)⟩] ∧
      ((listedSlide danglingList).listed.filter (Package.reference? · = some "rId1".toList)).length = 1 ∧
      (listedSlide danglingList).showOrder = [Package.slideName 1] := by decide +kernel
  obtain ⟨hslides, hrelations, hlisted, hbefore⟩ := hregistries
  have hrun : (listedAttempt danglingList).result.toOption.map
        (fun r => (r.pages, r.added)) = some (2, [Package.slideName 2]) ∧
      (listedAttempt danglingList).package.showOrder =
        [Package.slideName 1, Package.slideName 2, Package.slideName 2] := by decide +kernel
  obtain ⟨hrendered, hafter⟩ := hrun
  obtain ⟨r, hresult, hr⟩ := Sequence.exists_of_map_toOption hrendered
  obtain ⟨hpages, hadded⟩ := Prod.mk.inj hr
  refine ⟨Package.arranged_of_single hslides hrelations hlisted, hload, r, hresult, by rw [hpages]; decide, hadded,
    hbefore, hafter, fun hinserted => ?_⟩
  have hlength := hinserted.length_showOrder
  rw [hbefore, hafter, hadded] at hlength
  exact absurd hlength (by decide)

end DeckMerge.Deck
