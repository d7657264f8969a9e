import DeckMerge.Proofs.Deck.Paging
import DeckMerge.Proofs.Deck.Plan
import DeckMerge.Proofs.Deck.Workers
import DeckMerge.Proofs.Package.Reopening
import DeckMerge.Proofs.Part

/-!
A rendering from the records to the package: every page of records stands in a slide of its own.
-/

namespace DeckMerge.Deck

open Candidate Placeholder

variable {c : Config} {p : Package} {t : Template} {completion : Nat → List Nat} {rs : List Record}
  {r : Rendering}

/-! ### Templates whose parts are found -/

/-- A template that was loaded from a package, with the templated slides for parts. -/
structure Template.Found (t : Template) (c : Config) (p : Package) : Prop where
  config_eq : t.config = c
  package_eq : t.package = p
  slides_eq : Template.templatedSlides p = .ok t.names
  reads : ∀ part ∈ t.parts, p.readText part.1 = .ok part.2

theorem Template.findParts_eq_ok {names : List Text} (hparts : c.parts = [])
    (h : Template.findParts c p = .ok names) : Template.templatedSlides p = .ok names := by
  rw [findParts, if_neg (not_not.2 hparts)] at h
  obtain ⟨names', hnames, h⟩ := Sequence.bind_eq_ok_iff.1 h
  split at h
  · cases h
  · obtain rfl := Except.ok.inj h
    exact hnames

theorem Template.read_eq_ok {names : List Text} {parts : List (Text × Text)}
    (h : (names.mapM fun name => do return (name, ← p.readText name)) = .ok parts) :
    parts.map (·.1) = names ∧ ∀ part ∈ parts, p.readText part.1 = .ok part.2 := by
  rw [Sequence.mapM_eq_ok_iff] at h
  induction h with
  | nil => simp
  | cons hpart _ ih =>
    obtain ⟨s, hs, hpart⟩ := Sequence.bind_eq_ok_iff.1 hpart
    obtain rfl := Except.ok.inj hpart
    exact ⟨by simp [ih.1], List.forall_mem_cons.2 ⟨hs, ih.2⟩⟩

theorem Template.found_of_load (hparts : c.parts = []) (h : Template.load c p = .ok t) :
    t.Found c p := by
  obtain ⟨names, hnames, h⟩ := Sequence.bind_eq_ok_iff.1 h
  obtain ⟨parts, hread, h⟩ := Sequence.bind_eq_ok_iff.1 h
  obtain rfl := Except.ok.inj h
  obtain ⟨hmap, hreads⟩ := read_eq_ok hread
  refine ⟨rfl, rfl, ?_, hreads⟩
  rw [Template.names, hmap]
  exact findParts_eq_ok hparts hnames

theorem Template.Found.nodup (h : t.Found c p) : t.names.Nodup := by
  rw [Sequence.filterM_eq_ok h.slides_eq]
  exact p.nodup_slides.filter _

theorem Template.Found.isSlide (h : t.Found c p) {name : Text} (hname : name ∈ t.names) :
    Package.isSlide name := by
  rw [Sequence.filterM_eq_ok h.slides_eq] at hname
  exact (Package.mem_slides.1 (List.mem_filter.1 hname).1).2

/-! ### Stages -/

theorem renderWith_eq_ok (h : (t.renderWith completion rs).result = .ok r) :
    ∃ bindings jobs rendered n added, t.bind rs = .ok bindings ∧ t.plan bindings = .ok jobs ∧
      runJobs t.config.workers completion jobs = .ok rendered ∧ check rendered = .ok n ∧
      (place t.last.1 none rendered).on t.package =
        (.ok added, (t.renderWith completion rs).package) ∧
      r.bytes = (t.renderWith completion rs).package.toBytes ∧ r.pages = bindings.length ∧
      r.rendered = (t.kept rs).length ∧ r.truncated = rs.length - (t.kept rs).length ∧
      r.added = added := by
  unfold Template.renderWith at h ⊢
  cases hbind : t.bind rs with
  | error => simp [hbind] at h
  | ok bindings =>
  cases hplan : t.plan bindings with
  | error => simp [hbind, hplan] at h
  | ok jobs =>
  cases hrun : runJobs t.config.workers completion jobs with
  | error => simp [hbind, hplan, hrun] at h
  | ok rendered =>
  cases hcheck : check rendered with
  | error => simp [hbind, hplan, hrun, hcheck] at h
  | ok n =>
  simp only [hbind, hplan, hrun, hcheck] at h ⊢
  generalize hplace : (place t.last.1 none rendered).on t.package = result at h ⊢
  obtain ⟨outcome, q⟩ := result
  cases outcome with
  | error => simp at h
  | ok added =>
    obtain rfl := Except.ok.inj h
    exact ⟨bindings, jobs, rendered, n, added, rfl, hplan, hrun, hcheck, hplace, rfl, rfl, rfl, rfl, rfl⟩

theorem Template.bind_eq_ok {bindings : List Binding} (h : t.bind rs = .ok bindings)
    (hrecords : rs.length < 2 ^ 53) (hcapacity : t.config.capacity < 2 ^ 53) :
    bindings = (List.range ((t.kept rs).length ⌈/⌉ t.config.capacity)).map
      (pageBinding t.config (t.kept rs)) := by
  have hkept : (t.kept rs).length < 2 ^ 53 :=
    Nat.lt_of_le_of_lt (List.length_take_le' _ _) hrecords
  rw [Template.bind] at h
  split at h
  case isTrue => simp at h
  case isFalse => exact (Except.ok.inj (h.symm.trans (bindPages_eq hkept hcapacity)))

theorem Template.plan_eq_ok {bindings : List Binding} {jobs : List Job}
    (h : t.plan bindings = .ok jobs) :
    jobs = jobsFrom t.config.capacity t.last 1 t.parts bindings := by
  rw [Template.plan] at h
  split at h
  case isTrue => simp at h
  case isFalse => exact (Except.ok.inj h).symm

theorem Job.run_eq_ok {j : Job} {r : Rendered} (h : j.run = .ok r) :
    r.1 = j ∧ Part.render (some j.name) j.source j.binding = .ok r.2 := by
  obtain ⟨part, hpart, h⟩ := Sequence.bind_eq_ok_iff.1 h
  obtain rfl := Except.ok.inj h
  exact ⟨rfl, hpart⟩

theorem map_fst_of_run {jobs : List Job} {rendered : List Rendered}
    (h : List.Forall₂ (fun j r => Job.run j = .ok r) jobs rendered) : rendered.map (·.1) = jobs := by
  induction h with
  | nil => rfl
  | cons hrun _ ih => rw [List.map_cons, (Job.run_eq_ok hrun).1, ih]

/-- What is not rendered for a copy is rendered from a templated part. -/
theorem Template.mem_parts_of_run {bindings : List Binding} {jobs : List Job} {rendered : List Rendered}
    (hplan : t.plan bindings = .ok jobs) (hrun : List.Forall₂ (fun j r => Job.run j = .ok r) jobs rendered)
    {x : Rendered} (hx : x ∈ rendered) (hrole : x.1.role ≠ .copy) : (x.1.name, x.1.source) ∈ t.parts := by
  have hjob : x.1 ∈ jobs := map_fst_of_run hrun ▸ List.mem_map_of_mem hx
  rw [plan_eq_ok hplan] at hjob
  exact mem_of_mem_jobsFrom hjob hrole

theorem Template.Found.ready (h : t.Found c p) {bindings : List Binding} {jobs : List Job}
    (hplan : t.plan bindings = .ok jobs) : Ready p jobs := by
  obtain rfl := plan_eq_ok hplan
  constructor
  · intro j hj hrole
    exact h.isSlide (List.mem_map.2 ⟨_, mem_of_mem_jobsFrom hj hrole, rfl⟩)
  · intro j hj hrole
    exact h.reads _ (mem_of_mem_jobsFrom hj hrole)
  · rw [names_jobsFrom]
    exact h.nodup

/-! ### Pages -/

/-- The part that a page stands in: templated parts come first, then the added ones. -/
def Template.partOf (t : Template) (added : List Text) (page : Nat) : Option Text :=
  if page < t.names.length then t.names[page]? else added[page - t.names.length]?

/-- The text that a page is rendered from. -/
def Template.sourceOf (t : Template) (page : Nat) : Text := (t.parts[page]?.getD t.last).2

theorem partOf_eq (t : Template) (added : List Text) (page : Nat) :
    t.partOf added page = (t.names ++ added)[page]? := by
  rw [Template.partOf, List.getElem?_append]

/-- The jobs of a plan have been run and placed, each in the part of its number. -/
structure Done (t : Template) (bindings : List Binding) (added : List Text) (q : Package) : Prop where
  nodup : (t.names ++ added).Nodup
  job : ∀ (i : Nat) j, (jobsFrom t.config.capacity t.last 1 t.parts bindings)[i]? = some j →
    ∃ name part, t.partOf added i = some name ∧ Part.render none j.source j.binding = .ok part ∧
      q.readText name = .ok part.text

theorem done_of_placed {bindings : List Binding} {jobs : List Job} {rendered : List Rendered}
    {added : List Text} {q : Package} (hplan : t.plan bindings = .ok jobs)
    (hrun : List.Forall₂ (fun j r => Job.run j = .ok r) jobs rendered)
    (hplaced : Placed p rendered added q) : Done t bindings added q := by
  have hjobs := map_fst_of_run hrun
  obtain rfl := Template.plan_eq_ok hplan
  have hcount : added.length = bindings.length - t.parts.length := by
    rw [hplaced.count_eq, ← countP_jobsFrom t.config.capacity t.last 1, ← hjobs, List.countP_map]
    rfl
  have hdest : destinations (rendered.map (·.1)) added = t.names ++ added := by
    rw [hjobs, destinations_jobsFrom _ _ _ _ _ hcount, Template.names]
  constructor
  · exact hdest ▸ hplaced.nodup
  · intro i j hj
    obtain ⟨result, hresult, hjob⟩ := Sequence.exists_getElem?_of_forall₂ hrun hj
    obtain ⟨name, hname, hread⟩ := Sequence.exists_getElem?_of_forall₂ hplaced.reads hresult
    obtain ⟨part, hpart, htext⟩ := Part.render_nameless (Job.run_eq_ok hjob).2
    rw [hdest, ← partOf_eq] at hname
    exact ⟨name, part, hname, hpart, htext ▸ hread⟩

namespace Done

variable {bindings : List Binding} {added : List Text} {q : Package}

theorem page (h : Done t bindings added q) {page : Nat} {b : Binding} (hb : bindings[page]? = some b) :
    ∃ name part, t.partOf added page = some name ∧ Part.render none (t.sourceOf page) b = .ok part ∧
      q.readText name = .ok part.text := by
  obtain ⟨j, hj, hsource, hbinding⟩ := getElem?_jobsFrom_page t.config.capacity t.last 1 t.parts _ hb
  obtain ⟨name, part, hname, hpart, hread⟩ := h.job page j hj
  rw [hsource, hbinding] at hpart
  exact ⟨name, part, hname, hpart, hread⟩

theorem apart (h : Done t bindings added q) {page page' : Nat} {name : Text}
    (hname : t.partOf added page = some name) (hname' : t.partOf added page' = some name) :
    page = page' := by
  rw [partOf_eq] at hname hname'
  exact (List.getElem?_inj (List.getElem?_eq_some_iff.1 hname).1 h.nodup).1 (hname.trans hname'.symm)

theorem surplus (h : Done t bindings added q) {i : Nat} {name s : Text} (hi : bindings.length ≤ i)
    (hpart : t.parts[i]? = some (name, s)) : ∃ part,
      Part.render none s (emptyBinding t.config.capacity) = .ok part ∧ q.readText name = .ok part.text := by
  have hname : t.partOf added i = some name := by
    have hnames : t.names[i]? = some name := by simp [Template.names, hpart]
    rw [Template.partOf, if_pos (List.getElem?_eq_some_iff.1 hnames).1, hnames]
  have hjob := getElem?_jobsFrom_surplus t.config.capacity t.last 1 t.parts _ hi hpart
  obtain ⟨name', part, hname', hpart, hread⟩ := h.job i _ hjob
  obtain rfl : name = name' := Option.some.inj (hname.symm.trans hname')
  exact ⟨part, hpart, hread⟩

end Done

/-- The pages of a rendering stand in the parts of a package. -/
structure Paged (c : Config) (p : Package) (t : Template) (rs : List Record) (r : Rendering)
    (q : Package) : Prop where
  slides_eq : Template.templatedSlides p = .ok t.names
  sources : ∀ part ∈ t.parts, p.readText part.1 = .ok part.2
  pages_eq : r.pages = (rs.take c.maxRecords).length ⌈/⌉ c.capacity
  slot : ∀ (page i : Nat) (f : SlotField), i < c.capacity →
    (pageBinding c (rs.take c.maxRecords) page).lookup (f.key ↑(i + 1)) =
      some ((rs.take c.maxRecords)[page * c.capacity + i]?.elim f.emptyValue (f.value c))
  page : ∀ page < r.pages, ∃ name part, t.partOf r.added page = some name ∧
    Part.render none (t.sourceOf page) (pageBinding c (rs.take c.maxRecords) page) = .ok part ∧
    q.readText name = .ok part.text
  apart : ∀ page page', page < r.pages → page' < r.pages →
    t.partOf r.added page = t.partOf r.added page' → page = page'
  surplus : ∀ i name s, r.pages ≤ i → t.parts[i]? = some (name, s) → ∃ part,
    Part.render none s (emptyBinding c.capacity) = .ok part ∧ q.readText name = .ok part.text
  records_eq : r.rendered + r.truncated = rs.length

theorem Paged.of_content?_eq {q q' : Package} (h : Paged c p t rs r q)
    (hq : ∀ name, q'.content? name = q.content? name) : Paged c p t rs r q' := by
  refine { h with page := ?_, surplus := ?_ }
  · intro page hlt
    obtain ⟨name, part, hname, hpart, hread⟩ := h.page page hlt
    exact ⟨name, part, hname, hpart, (Package.readText_congr (hq name)).2 hread⟩
  · intro i name s hi hs
    obtain ⟨part, hpart, hread⟩ := h.surplus i name s hi hs
    exact ⟨part, hpart, (Package.readText_congr (hq name)).2 hread⟩

theorem paged_of_renderWith (hparts : c.parts = []) (hload : Template.load c p = .ok t)
    (hcapacity : c.capacity < 2 ^ 53) (hrecords : rs.length < 2 ^ 53)
    (h : (t.renderWith completion rs).result = .ok r) :
    Paged c p t rs r (t.renderWith completion rs).package ∧
      r.bytes = (t.renderWith completion rs).package.toBytes := by
  have hfound := Template.found_of_load hparts hload
  obtain ⟨bindings, jobs, rendered, n, added, hbind, hplan, hrun, -, hplace, hbytes, hpages, hrendered,
    htruncated, rfl⟩ := renderWith_eq_ok h
  have hrun := runJobs_eq_ok hrun
  have hready := hfound.ready hplan
  rw [hfound.package_eq] at hplace
  rw [← map_fst_of_run hrun] at hready
  have hdone := done_of_placed hplan hrun (place_eq_ok hready hplace)
  have hbindings := Template.bind_eq_ok hbind hrecords (by rwa [hfound.config_eq])
  have hkept : t.kept rs = rs.take c.maxRecords := by rw [Template.kept, hfound.config_eq]
  rw [hkept] at hbindings hrendered htruncated
  rw [hfound.config_eq] at hbindings
  have hcount : r.pages = (rs.take c.maxRecords).length ⌈/⌉ c.capacity := by
    rw [hpages, hbindings, List.length_map, List.length_range]
  have hpage : ∀ page < r.pages, ∃ name part, t.partOf r.added page = some name ∧
      Part.render none (t.sourceOf page) (pageBinding c (rs.take c.maxRecords) page) = .ok part ∧
      (t.renderWith completion rs).package.readText name = .ok part.text := by
    intro page hlt
    apply hdone.page
    rw [hbindings, List.getElem?_map, List.getElem?_range (hcount ▸ hlt)]
    rfl
  refine ⟨⟨hfound.slides_eq, hfound.reads, hcount, ?_, hpage, ?_, ?_, ?_⟩, hbytes⟩
  · intro page i f hi
    exact lookup_pageBinding c (rs.take c.maxRecords) page hi f
  · intro page page' hlt _ heq
    obtain ⟨name, part, hname, -, -⟩ := hpage page hlt
    exact hdone.apart hname (heq ▸ hname)
  · intro i name s hi hpart
    rw [← hfound.config_eq]
    exact hdone.surplus (hpages ▸ hi) hpart
  · rw [hrendered, htruncated]
    have := List.length_take_le' c.maxRecords rs
    omega

/-- Each page of a successful rendering is in a part of its own, both in the package that is left
behind and in the one that its octets are opened to. -/
theorem renderWith_paged (hparts : c.parts = []) (hload : Template.load c p = .ok t)
    (hcapacity : c.capacity < 2 ^ 53) (hrecords : rs.length < 2 ^ 53)
    (h : (t.renderWith completion rs).result = .ok r) :
    Paged c p t rs r (t.renderWith completion rs).package ∧
      r.bytes = (t.renderWith completion rs).package.toBytes ∧
      ((t.renderWith completion rs).package.Fits → ∀ source,
        ∃ q, Package.ofBytes source r.bytes = .ok q ∧ Paged c p t rs r q) := by
  obtain ⟨hpaged, hbytes⟩ := paged_of_renderWith hparts hload hcapacity hrecords h
  refine ⟨hpaged, hbytes, ?_⟩
  intro hfits source
  obtain ⟨q, hopen, hcontent⟩ := Package.ofBytes_toBytes hfits source
  exact ⟨q, hbytes ▸ hopen, hpaged.of_content?_eq hcontent⟩

/-! ### A deck of one templated slide -/

def entryOfText (name s : Text) : Zip.Entry := ⟨name, .first, .deflated, 0, 3, Text.utf8 s⟩

def oneSlide : Package where
  source := Package.memory
  entries := [
    entryOfText Package.contentTypes
      "<Types xmlns=\"http://schemas.openxmlformats.org/package/2006/content-types\"/>",
    entryOfText Package.presentation
      "<presentation xmlns=\"http://schemas.openxmlformats.org/presentationml/2006/main\"/>",
    entryOfText Package.presentationRelationships
      "<Relationships xmlns=\"http://schemas.openxmlformats.org/package/2006/relationships\"/>",
    entryOfText (Package.slideName 1) "<p>\x7b\x7bNAME_1\x7d\x7d</p>"]
  modified := []
  distinct := by decide

/-- Settings by which every record has a page of its own. -/
def oneSlot : Config := { Config.default with capacity := 1, capacity_pos := Nat.zero_lt_one }

def oneSlideTemplate : Template where
  config := oneSlot
  package := oneSlide
  parts := [(Package.slideName 1, "<p>\x7b\x7bNAME_1\x7d\x7d</p>")]

def twoRecords : List Record := [⟨"Ada", [], []⟩, ⟨"Bo", [], []⟩]

theorem Template.load_of_parts {parts : List (Text × Text)}
    (h : (Template.load c p).map (·.parts) = .ok parts) : Template.load c p = .ok ⟨c, p, parts⟩ := by
  cases hload : Template.load c p with
  | error => simp [hload, Except.map] at h
  | ok t =>
    rw [hload] at h
    obtain ⟨names, hnames, hload⟩ := Sequence.bind_eq_ok_iff.1 hload
    obtain ⟨parts', hread, hload⟩ := Sequence.bind_eq_ok_iff.1 hload
    obtain rfl := Except.ok.inj hload
    obtain rfl := Except.ok.inj h
    rfl

theorem load_oneSlideTemplate : Template.load oneSlot oneSlide = .ok oneSlideTemplate :=
  Template.load_of_parts (by decide +kernel)

theorem exists_rendered_twoRecords :
    ∃ r, (oneSlideTemplate.renderWith List.range twoRecords).result = .ok r := by
  have hisSome : (oneSlideTemplate.renderWith List.range twoRecords).result.toOption.isSome := by
    decide +kernel
  cases hresult : (oneSlideTemplate.renderWith List.range twoRecords).result with
  | error =>
    rw [hresult] at hisSome
    cases hisSome
  | ok r => exact ⟨r, rfl⟩

/-- The second record goes into a copy of the only slide. -/
theorem renderWith_paged_copy : ∃ r, Template.load oneSlot oneSlide = .ok oneSlideTemplate ∧
    (oneSlideTemplate.renderWith List.range twoRecords).result = .ok r ∧
    Paged oneSlot oneSlide oneSlideTemplate twoRecords r
      (oneSlideTemplate.renderWith List.range twoRecords).package ∧
    r.bytes = (oneSlideTemplate.renderWith List.range twoRecords).package.toBytes ∧
    ((oneSlideTemplate.renderWith List.range twoRecords).package.Fits → ∀ source,
      ∃ q, Package.ofBytes source r.bytes = .ok q ∧
        Paged oneSlot oneSlide oneSlideTemplate twoRecords r q) := by
  obtain ⟨r, hresult⟩ := exists_rendered_twoRecords
  exact ⟨r, load_oneSlideTemplate, hresult,
    renderWith_paged rfl load_oneSlideTemplate (by decide) (by decide) hresult⟩

end DeckMerge.Deck
