import DeckMerge.Proofs.Deck.Conversion
import DeckMerge.Proofs.Deck.Pagination
import DeckMerge.Proofs.Deck.Writing
import DeckMerge.Proofs.Package.Atomicity

/-!
When a rendering leaves the package as it was. All that is reported of records, bindings and rendered texts
comes before anything is written. Past the check something is written, unless no text has changed and no
copy is asked for: a copy is written whether its text has been checked or not.
-/

namespace DeckMerge.Package

variable {α β : Type} {p q : Package} {names : List Text}

theorem WrittenOver.subset (h : p.WrittenOver names q) : p.names ⊆ q.names := by
  obtain ⟨ws, -, rfl⟩ := h
  rw [(rewritten_writeAll p ws).names_eq]
  exact List.subset_append_left _ _

/-- An edit, be it done or failed, removes no part. -/
def Edit.Retains (e : Edit α) : Prop := ∀ p, p.names ⊆ (e.on p).2.names

namespace Edit.Retains

theorem pure (a : α) : (pure a : Edit α).Retains := fun _ => List.Subset.refl _

theorem writeText (name s : Text) : (modify fun p => p.writeText name s : Edit PUnit).Retains :=
  fun p _ => (Grown.of_write p name (Text.utf8 s)).mem_names

/-- What the first step has left stays there, whatever becomes of the next. -/
theorem subset_bind {f : α → Edit β} (hf : ∀ a, (f a).Retains) (e : Edit α) (p : Package) :
    (e.on p).2.names ⊆ ((e >>= f).on p).2.names := by
  rw [on_bind]
  cases he : e.on p with
  | mk outcome p' =>
    cases outcome with
    | ok a => exact hf a p'
    | error r => exact List.Subset.refl _

theorem bind {e : Edit α} {f : α → Edit β} (he : e.Retains) (hf : ∀ a, (f a).Retains) : (e >>= f).Retains :=
  fun p _ hname => subset_bind hf e p (he p hname)

end Edit.Retains

/-- A copy of a slide that is there leaves a part behind that was not, even if it fails. -/
theorem exists_new_of_duplicate {source : Text} (after s : Option Text) (hsource : source ∈ p.names) :
    p.names ⊆ ((duplicate source after s).on p).2.names ∧
      slideName p.nextNumber ∈ ((duplicate source after s).on p).2.names := by
  cases hcopy : (duplicate source after s).on p with
  | mk outcome q =>
  cases outcome with
  | ok name =>
    have hgrown := grown_of_duplicate hcopy
    obtain ⟨rfl, -⟩ := duplicated_of_duplicate hcopy
    refine ⟨fun _ => hgrown.mem_names, ?_⟩
    rw [hgrown.names_eq]
    exact List.mem_append_right _
      (List.mem_filter.2 ⟨List.mem_cons_self, decide_eq_true (slideName_nextNumber_notMem p)⟩)
  | error f =>
    obtain ⟨hmissing, -⟩ | ⟨content, -, hwritten⟩ := duplicate_eq_error hcopy
    · exact absurd hsource hmissing
    · have hnames := names_write p (slideName p.nextNumber) ((s.map Text.utf8).getD content)
      rw [newcomers_singleton, if_neg (slideName_nextNumber_notMem p)] at hnames
      have hsubset := hwritten.subset
      rw [hnames] at hsubset
      exact ⟨fun _ hname => hsubset (List.mem_append_left _ hname), hsubset (by simp)⟩

theorem duplicate_retains (source : Text) (after s : Option Text) : (duplicate source after s).Retains := by
  intro p
  by_cases hsource : source ∈ p.names
  · exact (exists_new_of_duplicate after s hsource).1
  · cases hcopy : (duplicate source after s).on p with
    | mk outcome q =>
    cases outcome with
    | ok name => exact absurd (mem_names_of_duplicate hcopy) hsource
    | error f =>
      obtain ⟨-, rfl⟩ | ⟨content, hcontent, -⟩ := duplicate_eq_error hcopy
      · exact List.Subset.refl _
      · exact absurd (content?_isSome_iff.1 (by simp [hcontent])) hsource

end DeckMerge.Package

namespace DeckMerge.Deck

open Candidate (Record)
open Placeholder (Binding)

variable {c : Config} {p q : Package} {t : Template} {completion : Nat → List Nat} {rs : List Record}
  {bindings : List Binding} {jobs : List Job} {rendered : List Rendered} {last : Text}
  {previous : Option Text} {r : Report}

/-! ### What placing writes -/

/-- A result of which something is written: a text that has changed, or a copy. -/
inductive Rendered.Written (x : Rendered) : Prop where
  | changed (h : x.isChanged)
  | copied (h : x.1.role = .copy)

theorem names_subset_writeTo (x : Rendered) (p : Package) : p.names ⊆ (x.writeTo p).names := by
  rw [Rendered.writeTo]
  split
  · exact Package.Edit.Retains.writeText _ _ p
  · exact List.Subset.refl _

theorem place_retains (last : Text) (previous : Option Text) (rendered : List Rendered) :
    (place last previous rendered).Retains := by
  induction rendered generalizing previous with
  | nil => exact .pure _
  | cons x rendered ih =>
    by_cases hrole : x.1.role = .copy
    · rw [place_copy hrole]
      exact (Package.duplicate_retains _ _ _).bind fun name => (ih _).bind fun _ => .pure _
    · intro p
      rw [on_place_page hrole]
      exact List.Subset.trans (names_subset_writeTo x p) (ih _ _)

/-- Where a copy is asked for, there is a new part afterwards. -/
theorem exists_new_of_place (hlast : last ∈ p.names) (hcopy : ∃ x ∈ rendered, x.1.role = .copy) :
    ∃ name ∈ ((place last previous rendered).on p).2.names, name ∉ p.names := by
  induction rendered generalizing p previous with
  | nil => simp at hcopy
  | cons x rendered ih =>
    by_cases hrole : x.1.role = .copy
    · rw [place_copy hrole]
      refine ⟨_, ?_, Package.slideName_nextNumber_notMem p⟩
      refine Package.Edit.Retains.subset_bind (fun name => ?_) _ p (Package.exists_new_of_duplicate _ _ hlast).2
      exact (place_retains _ _ _).bind fun _ => .pure _
    · have hrest := ((List.exists_mem_cons_iff _ _ _).1 hcopy).resolve_left hrole
      have hkeep := names_subset_writeTo x p
      obtain ⟨name, hname, hnew⟩ := ih (hkeep hlast) hrest
      rw [on_place_page hrole]
      exact ⟨name, hname, fun hmem => hnew (hkeep hmem)⟩

theorem place_of_no_copy (p : Package) (hroles : ∀ x ∈ rendered, x.1.role ≠ .copy) :
    ((place last previous rendered).on p).1 = .ok [] := by
  induction rendered generalizing p previous with
  | nil => rfl
  | cons x rendered ih =>
    obtain ⟨hrole, hroles⟩ := List.forall_mem_cons.1 hroles
    rw [on_place_page hrole]
    exact ih _ hroles

theorem place_of_not_written (p : Package) (h : ∀ x ∈ rendered, ¬ x.Written) :
    ((place last previous rendered).on p).2 = p := by
  induction rendered generalizing previous with
  | nil => rfl
  | cons x rendered ih =>
    obtain ⟨hx, h⟩ := List.forall_mem_cons.1 h
    rw [on_place_page fun hrole => hx (.copied hrole),
      Rendered.writeTo_of_not_isChanged fun hchanged => hx (.changed hchanged)]
    exact ih h

/-- A text that has changed is not the one that was there, also if several are written to one part. -/
theorem place_of_changed {x : Rendered} (hroles : ∀ x ∈ rendered, x.1.role ≠ .copy)
    (hreads : ∀ x ∈ rendered, p.readText x.1.name = .ok x.1.source) (hx : x ∈ rendered) (hchanged : x.isChanged) :
    ((place last previous rendered).on p).2.content? x.1.name ≠ p.content? x.1.name := by
  have hnames : ∀ x ∈ rendered, x.1.name ∈ p.names := fun x hx => Package.mem_names_of_readText (hreads x hx)
  have hplace : (place last previous (rendered ++ [])).on p =
      (.ok [], ((place last previous rendered).on p).2) := by
    rw [List.append_nil]
    exact Prod.ext (place_of_no_copy p hroles) rfl
  obtain ⟨p', hnil, -, hcontent⟩ := place_filled hroles hnames hplace
  obtain rfl : p' = _ := (Prod.mk.inj hnil).2
  rw [hcontent]
  cases hlast : lastText? x.1.name rendered with
  | none =>
    have hwrites := writes?_eq_some_iff.2 ⟨hchanged, rfl, rfl⟩
    cases (lastText?_eq_none_iff.1 hlast x hx).symm.trans hwrites
  | some s =>
    obtain ⟨y, hy, hwrites⟩ := exists_of_lastText? hlast
    obtain ⟨hychanged, hname, rfl⟩ := writes?_eq_some_iff.1 hwrites
    intro heq
    have hread := Package.readText_of_content? heq.symm
    rw [← hname, hreads y hy] at hread
    exact bne_iff_ne.1 hychanged (Except.ok.inj hread).symm

/-- Placing results leaves a package as it was exactly if there is nothing to write. -/
theorem place_eq_iff (hlast : last ∈ p.names)
    (hreads : ∀ x ∈ rendered, x.1.role ≠ .copy → p.readText x.1.name = .ok x.1.source) :
    ((place last previous rendered).on p).2 = p ↔ ∀ x ∈ rendered, ¬ x.Written := by
  refine ⟨fun heq x hx hwritten => ?_, place_of_not_written p⟩
  by_cases hcopy : ∃ x ∈ rendered, x.1.role = .copy
  · obtain ⟨name, hname, hnew⟩ := exists_new_of_place hlast hcopy
    exact hnew (heq ▸ hname)
  · have hroles : ∀ x ∈ rendered, x.1.role ≠ .copy := fun x hx hrole => hcopy ⟨x, hx, hrole⟩
    cases hwritten with
    | changed hchanged =>
      exact place_of_changed hroles (fun x hx => hreads x hx (hroles x hx)) hx hchanged (by rw [heq])
    | copied hrole => exact hroles x hx hrole

/-! ### Stages -/

/-- Any report but one of the template itself comes before the first writing. -/
theorem package_of_renderWith_error (h : (t.renderWith completion rs).result = .error (.report r))
    (hkind : r.kind ≠ .templateLoad) : (t.renderWith completion rs).package = t.package := by
  unfold Template.renderWith at h ⊢
  cases hbind : t.bind rs with
  | error => rfl
  | ok bindings =>
  cases hplan : t.plan bindings with
  | error => simp only [hplan]
  | ok jobs =>
  cases hrun : runJobs t.config.workers completion jobs with
  | error => simp only [hplan, hrun]
  | ok rendered =>
  cases hcheck : check rendered with
  | error => simp only [hplan, hrun, hcheck]
  | ok n =>
  simp only [hbind, hplan, hrun, hcheck] at h
  cases hplace : (place t.last.1 none rendered).on t.package with
  | mk outcome q =>
  rw [hplace] at h
  cases outcome with
  | ok added => cases h
  | error failure =>
    obtain rfl := Except.error.inj h
    exact absurd ((place_stops _ _ _ _ _ _ hplace).2 r rfl) hkind

theorem package_of_check {n : Nat} (hbind : t.bind rs = .ok bindings) (hplan : t.plan bindings = .ok jobs)
    (hrun : runJobs t.config.workers completion jobs = .ok rendered) (hcheck : check rendered = .ok n) :
    (t.renderWith completion rs).package = ((place t.last.1 none rendered).on t.package).2 := by
  unfold Template.renderWith
  simp only [hbind, hplan, hrun, hcheck]
  cases hplace : (place t.last.1 none rendered).on t.package with
  | mk outcome q => cases outcome <;> rfl

theorem Template.last_mem_of_load (h : Template.load c p = .ok t) : t.last ∈ t.parts := by
  obtain ⟨names, hfind, h⟩ := Sequence.bind_eq_ok_iff.1 h
  obtain ⟨parts, hread, h⟩ := Sequence.bind_eq_ok_iff.1 h
  obtain rfl := Except.ok.inj h
  have hnames : names ≠ [] := by
    rw [findParts] at hfind
    split at hfind
    case isTrue hparts =>
      split at hfind
      · cases hfind
      · exact Except.ok.inj hfind ▸ hparts
    case isFalse =>
      obtain ⟨slides, -, hfind⟩ := Sequence.bind_eq_ok_iff.1 hfind
      split at hfind
      · cases hfind
      case isFalse hslides => exact Except.ok.inj hfind ▸ hslides
  have hparts : parts ≠ [] := fun hnil => hnames (by rw [← (read_eq_ok hread).1, hnil, List.map_nil])
  rw [last, List.getLast?_eq_some_getLast hparts, Option.getD_some]
  exact List.getLast_mem hparts

/-- A rendering that is refused for its records, its bindings or a rendered text leaves the package as it was.
Once the jobs have been run, it is left so exactly if a text that has changed is no document or there is nothing
to write. -/
theorem renderWith_package_eq_iff (hload : Template.load c p = .ok t) (completion : Nat → List Nat)
    (rs : List Record) :
    (∀ r, (t.renderWith completion rs).result = .error (.report r) →
      r.kind ∈ [.noContent, .binding, .partValidation] → (t.renderWith completion rs).package = p) ∧
    ∀ bindings jobs rendered, t.bind rs = .ok bindings → t.plan bindings = .ok jobs →
      runJobs t.config.workers completion jobs = .ok rendered →
      ((t.renderWith completion rs).package = p ↔
        (∃ x ∈ rendered, x.isChanged ∧ ¬ Xml.isWellFormed x.2.text) ∨ ∀ x ∈ rendered, ¬ x.Written) := by
  obtain ⟨-, rfl, hreads⟩ := Template.reads_of_load hload
  refine ⟨fun r hresult hkind => package_of_renderWith_error hresult ?_, ?_⟩
  · rintro htemplate
    rw [htemplate] at hkind
    simp at hkind
  intro bindings jobs rendered hbind hplan hrun
  have hlast : t.last.1 ∈ t.package.names :=
    Package.mem_names_of_readText (hreads _ (Template.last_mem_of_load hload))
  cases hcheck : check rendered with
  | error report =>
    obtain ⟨-, hbad⟩ := check_eq_error hcheck
    refine iff_of_true ?_ (.inl hbad)
    unfold Template.renderWith
    simp only [hbind, hplan, hrun, hcheck]
  | ok n =>
    have hgood : ¬ ∃ x ∈ rendered, x.isChanged ∧ ¬ Xml.isWellFormed x.2.text := by
      rintro ⟨x, hx, hchanged, hbad⟩
      exact hbad (check_eq_ok hcheck x hx hchanged)
    rw [package_of_check hbind hplan hrun hcheck, or_iff_right hgood]
    refine place_eq_iff hlast fun x hx hrole => ?_
    have hjob : x.1 ∈ jobs := by
      rw [← map_fst_of_run (runJobs_eq_ok hrun)]
      exact List.mem_map_of_mem hx
    rw [Template.plan_eq_ok hplan] at hjob
    exact hreads _ (mem_of_mem_jobsFrom hjob hrole)

/-- Without records the only slide stays as it is; a second one is put beside it where there are two. -/
theorem renderWith_package_eq_iff_oneSlide : ∃ bindings jobs rendered r,
    Template.load oneSlot oneSlide = .ok oneSlideTemplate ∧
    (oneSlideTemplate.renderWith List.range []).result = .error (.report r) ∧
    r.kind ∈ [.noContent, .binding, .partValidation] ∧
    (oneSlideTemplate.renderWith List.range []).package = oneSlide ∧
    oneSlideTemplate.bind twoRecords = .ok bindings ∧ oneSlideTemplate.plan bindings = .ok jobs ∧
    runJobs oneSlideTemplate.config.workers List.range jobs = .ok rendered ∧
    ((oneSlideTemplate.renderWith List.range twoRecords).package = oneSlide ↔
      (∃ x ∈ rendered, x.isChanged ∧ ¬ Xml.isWellFormed x.2.text) ∨ ∀ x ∈ rendered, ¬ x.Written) := by
  obtain ⟨r, hresult⟩ := exists_rendered_twoRecords
  obtain ⟨bindings, jobs, rendered, -, -, hbind, hplan, hrun, -⟩ := renderWith_eq_ok hresult
  obtain ⟨hrefused, -⟩ := renderWith_package_eq_iff load_oneSlideTemplate List.range []
  obtain ⟨-, hiff⟩ := renderWith_package_eq_iff load_oneSlideTemplate List.range twoRecords
  have hkind : Report.Kind.noContent ∈ [.noContent, .binding, .partValidation] := List.mem_cons_self
  exact ⟨bindings, jobs, rendered, _, load_oneSlideTemplate, rfl, hkind, hrefused _ rfl hkind, hbind, hplan, hrun,
    hiff bindings jobs rendered hbind hplan hrun⟩

/-! ### A source that is no document beside one that is -/

def layoutName : Text := "ppt/slideLayouts/slideLayout1.xml"

/-- A package with a slide that is no document, and a layout that is one. -/
def mixedParts : Package where
  source := Package.memory
  entries := brokenSlide.entries ++ [entryOfText layoutName "<p>\x7b\x7bNAME_1\x7d\x7d</p>"]
  modified := []
  distinct := by decide

/-- Settings that name the layout and the slide, by which every record has a page of its own. -/
def namedSlots : Config := { oneSlot with parts := [layoutName, Package.slideName 1] }

def mixedTemplate : Template where
  config := namedSlots
  package := mixedParts
  parts := [(layoutName, "<p>\x7b\x7bNAME_1\x7d\x7d</p>"), (Package.slideName 1, brokenText)]

/-- What is rendered for copies, if all stages before the check are done. -/
def copiedTexts? (t : Template) (rs : List Record) : Option (List Text) := do
  let bindings ← (t.bind rs).toOption
  let jobs ← (t.plan bindings).toOption
  let rendered ← (runJobs t.config.workers List.range jobs).toOption
  return (rendered.filter (·.1.role = .copy)).map (·.2.text)

/-- The page of the third record is no document, and the layout is written all the same. -/
theorem renderWith_writes_beside_malformed : ∃ bindings jobs rendered r,
    Template.load namedSlots mixedParts = .ok mixedTemplate ∧
    mixedTemplate.bind threeRecords = .ok bindings ∧ mixedTemplate.plan bindings = .ok jobs ∧
    runJobs mixedTemplate.config.workers List.range jobs = .ok rendered ∧
    (∃ x ∈ rendered, x.1.role = .copy ∧ ¬ Xml.isWellFormed x.2.text) ∧
    (mixedTemplate.renderWith List.range threeRecords).result = .ok r ∧
    (mixedTemplate.renderWith List.range threeRecords).package.readText layoutName = .ok "<p>ADA</p>" ∧
    (mixedTemplate.renderWith List.range threeRecords).package ≠ mixedParts := by
  have hload : Template.load namedSlots mixedParts = .ok mixedTemplate :=
    Template.load_of_parts (by decide +kernel)
  have hrun : ((mixedTemplate.renderWith List.range threeRecords).result.toOption.isSome,
      (mixedTemplate.renderWith List.range threeRecords).package.readText layoutName) =
        (true, .ok "<p>ADA</p>") := by decide +kernel
  have hcopies : copiedTexts? mixedTemplate threeRecords = some [brokenText] := by decide +kernel
  have hbefore : mixedParts.readText layoutName ≠ .ok "<p>ADA</p>" := by decide +kernel
  have hbroken : ¬ Xml.isWellFormed brokenText := by decide
  obtain ⟨hsome, hread⟩ := Prod.mk.inj hrun
  cases hresult : (mixedTemplate.renderWith List.range threeRecords).result with
  | error =>
    rw [hresult] at hsome
    cases hsome
  | ok r =>
    obtain ⟨bindings, jobs, rendered, -, -, hbind, hplan, hrun, -⟩ := renderWith_eq_ok hresult
    refine ⟨bindings, jobs, rendered, r, hload, hbind, hplan, hrun, ?_, rfl, hread, fun heq => ?_⟩
    · simp only [copiedTexts?, hbind, hplan, hrun, Except.toOption, Option.bind_eq_bind, Option.bind_some,
        Option.pure_def, Option.some.injEq] at hcopies
      have hmem : brokenText ∈ (rendered.filter (·.1.role = .copy)).map (·.2.text) :=
        hcopies ▸ List.mem_cons_self
      obtain ⟨x, hx, htext⟩ := List.mem_map.1 hmem
      obtain ⟨hx, hrole⟩ := List.mem_filter.1 hx
      exact ⟨x, hx, of_decide_eq_true hrole, htext ▸ hbroken⟩
    · exact hbefore (heq ▸ hread)

end DeckMerge.Deck
