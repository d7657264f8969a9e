import DeckMerge.Proofs.Deck.Rendering

/-!
What is checked before it is written. A text that has changed is written only after the check has let it
pass; a copy whose text has not changed is written as it is.
-/

namespace DeckMerge.Package

variable {name : Text} {parts : List (Text × Text)} {r : Report}

/-- A part that can be read as a document. -/
def HoldsDocument (p : Package) (name : Text) : Prop :=
  ∃ s, p.readText name = .ok s ∧ Xml.isWellFormed s

theorem checkParts_eq_ok {n : Nat} (h : checkParts parts = .ok n) :
    ∀ part ∈ parts, Xml.isWellFormed part.2 := by
  induction parts generalizing n with
  | nil => simp
  | cons part parts ih =>
    obtain ⟨_, hpart, h⟩ := Sequence.bind_eq_ok_iff.1 h
    obtain ⟨m, hparts, -⟩ := Sequence.bind_eq_ok_iff.1 h
    refine List.forall_mem_cons.2 ⟨?_, ih hparts⟩
    by_contra hbad
    simp [checkPart, hbad] at hpart

theorem checkParts_eq_error (h : checkParts parts = .error r) :
    r.kind = .partValidation ∧ ∃ part ∈ parts, ¬ Xml.isWellFormed part.2 := by
  induction parts with
  | nil => simp [checkParts] at h
  | cons part parts ih =>
    by_cases hpart : Xml.isWellFormed part.2
    · have hrest : checkParts parts = .error r := by
        cases hrest : checkParts parts with
        | ok m => simp [checkParts, checkPart, hpart, hrest] at h
        | error r' => simpa [checkParts, checkPart, hpart, hrest, bind, Except.bind] using h
      obtain ⟨hkind, part', hmem, hbad⟩ := ih hrest
      exact ⟨hkind, part', List.mem_cons_of_mem _ hmem, hbad⟩
    · simp only [checkParts, checkPart, hpart, bind, Except.bind] at h
      obtain rfl := Except.error.inj h
      exact ⟨rfl, part, List.mem_cons_self, hpart⟩

end DeckMerge.Package

namespace DeckMerge.Deck

open Package (isSlide)
open Placeholder (Binding)

variable {p q : Package} {rendered : List Rendered} {added : List Text} {name : Text}

/-- A slide that has been added, or whose content is not what it was. -/
def Rewrote (p q : Package) (name : Text) : Prop :=
  isSlide name ∧ q.content? name ≠ p.content? name

theorem check_eq_ok {n : Nat} (h : check rendered = .ok n) :
    ∀ x ∈ rendered, x.isChanged → Xml.isWellFormed x.2.text := by
  intro x hx hchanged
  exact Package.checkParts_eq_ok h (x.1.name, x.2.text)
    (List.mem_map.2 ⟨x, List.mem_filter.2 ⟨hx, hchanged⟩, rfl⟩)

theorem check_eq_error {r : Report} (h : check rendered = .error r) :
    r.kind = .partValidation ∧ ∃ x ∈ rendered, x.isChanged ∧ ¬ Xml.isWellFormed x.2.text := by
  obtain ⟨hkind, part, hpart, hbad⟩ := Package.checkParts_eq_error h
  obtain ⟨x, hx, rfl⟩ := List.mem_map.1 hpart
  obtain ⟨hmem, hchanged⟩ := List.mem_filter.1 hx
  exact ⟨hkind, x, hmem, hchanged, hbad⟩

/-! ### What is placed -/

/-- A slide holds the text of a job: one that has changed, or one that was copied to the slide. -/
def Came (rendered : List Rendered) (added : List Text) (q : Package) (name : Text) : Prop :=
  ∃ x ∈ rendered, q.content? name = some (Text.utf8 x.2.text) ∧
    (x.isChanged ∨ x.1.role = .copy ∧ name ∈ added)

theorem Came.cons {x : Rendered} (h : Came rendered added q name) {added' : List Text}
    (hadded : added ⊆ added') : Came (x :: rendered) added' q name := by
  obtain ⟨y, hy, hcontent, hfrom⟩ := h
  exact ⟨y, List.mem_cons_of_mem _ hy, hcontent, hfrom.imp_right fun h => ⟨h.1, hadded h.2⟩⟩

/-- Where the content of a slide comes from after some jobs have been placed. -/
structure Origin (p : Package) (rendered : List Rendered) (added : List Text) (q : Package) : Prop where
  came : ∀ name, isSlide name → q.content? name = p.content? name ∨ Came rendered added q name
  isSlide : ∀ name ∈ added, isSlide name
  fresh : ∀ name ∈ added, p.content? name = none
  there : ∀ name ∈ added, (q.content? name).isSome

theorem Origin.isSome (h : Origin p rendered added q) (hname : Package.isSlide name)
    (hp : (p.content? name).isSome) : (q.content? name).isSome := by
  rcases h.came name hname with heq | ⟨x, -, hcontent, -⟩
  · rwa [heq]
  · simp [hcontent]

/-- One job is placed in a slide, and the rest of them after it. -/
theorem Origin.cons {x : Rendered} {s : Package} {added' : List Text}
    (hframe : ∀ other, Package.isSlide other → other ≠ name → s.content? other = p.content? other)
    (hwritten : Package.isSlide name → s.content? name = some (Text.utf8 x.2.text))
    (hfrom : x.isChanged ∨ x.1.role = .copy ∧ name ∈ added') (hadded : added ⊆ added')
    (hnew : ∀ other ∈ added', other ∈ added ∨
      other = name ∧ Package.isSlide name ∧ p.content? name = none)
    (h : Origin s rendered added q) : Origin p (x :: rendered) added' q where
  came := by
    intro other hother
    rcases h.came other hother with heq | hcame
    · by_cases hne : other = name
      · subst hne
        exact .inr ⟨x, List.mem_cons_self, heq.trans (hwritten hother), hfrom⟩
      · exact .inl (heq.trans (hframe other hother hne))
    · exact .inr (hcame.cons hadded)
  isSlide := by
    intro other hother
    rcases hnew other hother with hother | ⟨rfl, hslide, -⟩
    · exact h.isSlide other hother
    · exact hslide
  fresh := by
    intro other hother
    rcases hnew other hother with hother | ⟨rfl, -, hnone⟩
    · by_cases hne : other = name
      · subst hne
        have hnone := h.fresh other hother
        simp [hwritten (h.isSlide other hother)] at hnone
      · rw [← hframe other (h.isSlide other hother) hne]
        exact h.fresh other hother
    · exact hnone
  there := by
    intro other hother
    rcases hnew other hother with hother | ⟨rfl, hslide, -⟩
    · exact h.there other hother
    · exact h.isSome hslide (by simp [hwritten hslide])

theorem origin_of_place {last : Text} {previous : Option Text}
    (h : (place last previous rendered).on p = (.ok added, q)) : Origin p rendered added q := by
  induction rendered generalizing p previous added with
  | nil =>
    obtain ⟨rfl, rfl⟩ : [] = added ∧ p = q := by simpa using h
    exact ⟨fun _ _ => .inl rfl, by simp, by simp, by simp⟩
  | cons x rendered ih =>
    by_cases hrole : x.1.role = .copy
    · obtain ⟨name, s, added', hcopy, hrest, rfl⟩ := place_copy_eq_ok hrole h
      obtain ⟨hslide, hfresh, hcontent, hframe⟩ := Package.duplicate_eq_ok hcopy
      have hnone : p.content? name = none := by
        rw [← Option.not_isSome_iff_eq_none, Package.content?_isSome_iff]
        exact hfresh
      refine (ih hrest).cons hframe (fun _ => hcontent) (.inr ⟨hrole, List.mem_cons_self⟩)
        (List.subset_cons_self _ _) ?_
      intro other hother
      exact (List.mem_cons.1 hother).symm.imp_right fun heq => ⟨heq, hslide, hnone⟩
    · rw [on_place_page hrole] at h
      have horigin := ih h
      by_cases hchanged : x.isChanged
      · rw [Rendered.writeTo_of_isChanged hchanged] at horigin
        have hframe : ∀ other, isSlide other → other ≠ x.1.name →
            (p.writeText x.1.name x.2.text).content? other = p.content? other :=
          fun other _ hne => Package.content?_write_of_ne hne.symm _
        exact horigin.cons hframe (fun _ => Package.content?_write_self _ _ _) (.inl hchanged)
          (List.Subset.refl _) fun other hother => .inl hother
      · rw [Rendered.writeTo_of_not_isChanged hchanged] at horigin
        refine ⟨fun name hname => ?_, horigin.isSlide, horigin.fresh, horigin.there⟩
        exact (horigin.came name hname).imp_right fun hcame => hcame.cons (List.Subset.refl _)

/-! ### What is delivered -/

/-- Every slide that was written in its place is a document, and so is every added one but for the
copies of a source that is none. -/
structure Sound (t : Template) (added : List Text) (q : Package) : Prop where
  rewritten : ∀ name, Rewrote t.package q name → name ∉ added → q.HoldsDocument name
  added : ∀ name ∈ added, Rewrote t.package q name ∧
    (q.HoldsDocument name ↔ (q.readText name = .ok t.last.2 → Xml.isWellFormed t.last.2))

theorem sound_of_origin {t : Template} {n : Nat} (hcheck : check rendered = .ok n)
    (hsource : ∀ x ∈ rendered, x.1.role = .copy → x.1.source = t.last.2)
    (h : Origin t.package rendered added q) : Sound t added q := by
  have hcame : ∀ name, Rewrote t.package q name → ∃ s, q.readText name = .ok s ∧
      (Xml.isWellFormed s ∨ s = t.last.2 ∧ name ∈ added) := by
    rintro name ⟨hslide, hne⟩
    obtain ⟨x, hx, hcontent, hfrom⟩ := (h.came name hslide).resolve_left hne
    refine ⟨x.2.text, Package.readText_of_content? hcontent, ?_⟩
    by_cases hchanged : x.isChanged
    · exact .inl (check_eq_ok hcheck x hx hchanged)
    · obtain ⟨hrole, hadded⟩ := hfrom.resolve_left hchanged
      have hsame : x.2.text = x.1.source := by simpa [Rendered.isChanged] using hchanged
      exact .inr ⟨hsame.trans (hsource x hx hrole), hadded⟩
  constructor
  · intro name hname hadded
    obtain ⟨s, hread, hs⟩ := hcame name hname
    exact ⟨s, hread, hs.resolve_right fun hcopy => hadded hcopy.2⟩
  · intro name hname
    have hrewrote : Rewrote t.package q name := by
      refine ⟨h.isSlide name hname, fun heq => ?_⟩
      have hthere := h.there name hname
      simp [heq, h.fresh name hname] at hthere
    refine ⟨hrewrote, ?_, ?_⟩
    · rintro ⟨s, hread, hs⟩ hlast
      rwa [← Except.ok.inj (hread.symm.trans hlast)]
    · intro hlast
      obtain ⟨s, hread, hs | ⟨rfl, -⟩⟩ := hcame name hrewrote
      · exact ⟨s, hread, hs⟩
      · exact ⟨_, hread, hlast hread⟩

section Rendering

variable {t : Template} {completion : Nat → List Nat} {rs : List Candidate.Record}
  {bindings : List Binding} {jobs : List Job}

/-- A rendering is refused exactly if a text that has changed is no document, and then nothing has been
written; one that succeeds leaves documents, but for copies of a source that is none. -/
theorem renderWith_checked (hbind : t.bind rs = .ok bindings) (hplan : t.plan bindings = .ok jobs)
    (hrun : runJobs t.config.workers completion jobs = .ok rendered) :
    ((∃ x ∈ rendered, x.isChanged ∧ ¬ Xml.isWellFormed x.2.text) ↔
      ∃ report, report.kind = .partValidation ∧
        t.renderWith completion rs = ⟨.expanded, t.package, .error (.report report)⟩) ∧
    ∀ r, (t.renderWith completion rs).result = .ok r →
      Sound t r.added (t.renderWith completion rs).package := by
  constructor
  · unfold Template.renderWith
    simp only [hbind, hplan, hrun]
    cases hcheck : check rendered with
    | error report =>
      obtain ⟨hkind, hbad⟩ := check_eq_error hcheck
      exact ⟨fun _ => ⟨report, hkind, rfl⟩, fun _ => hbad⟩
    | ok n =>
      have hgood := check_eq_ok hcheck
      constructor
      · rintro ⟨x, hx, hchanged, hbad⟩
        exact absurd (hgood x hx hchanged) hbad
      · -- past the check a rendering is in a later stage, whatever becomes of it
        rintro ⟨report, -, heq⟩
        have hstage := congrArg Attempt.stage heq
        simp only at hstage
        split at hstage <;> simp at hstage
  · intro r h
    obtain ⟨bindings', jobs', rendered', n, added, hbind', hplan', hrun', hcheck, hplace, -, -, -, -, rfl⟩ :=
      renderWith_eq_ok h
    obtain rfl : bindings = bindings' := Except.ok.inj (hbind.symm.trans hbind')
    obtain rfl : jobs = jobs' := Except.ok.inj (hplan.symm.trans hplan')
    obtain rfl : rendered = rendered' := Except.ok.inj (hrun.symm.trans hrun')
    refine sound_of_origin hcheck ?_ (origin_of_place hplace)
    intro x hx hrole
    have hjob : x.1 ∈ jobs := by
      rw [← map_fst_of_run (runJobs_eq_ok hrun)]
      exact List.mem_map_of_mem hx
    rw [Template.plan_eq_ok hplan] at hjob
    exact source_of_mem_jobsFrom hjob hrole

end Rendering

theorem renderWith_checked_copy : ∃ bindings jobs rendered r,
    oneSlideTemplate.bind twoRecords = .ok bindings ∧ oneSlideTemplate.plan bindings = .ok jobs ∧
    runJobs oneSlideTemplate.config.workers List.range jobs = .ok rendered ∧
    (oneSlideTemplate.renderWith List.range twoRecords).result = .ok r ∧
    ((∃ x ∈ rendered, x.isChanged ∧ ¬ Xml.isWellFormed x.2.text) ↔
      ∃ report, report.kind = .partValidation ∧ oneSlideTemplate.renderWith List.range twoRecords =
        ⟨.expanded, oneSlideTemplate.package, .error (.report report)⟩) ∧
    Sound oneSlideTemplate r.added (oneSlideTemplate.renderWith List.range twoRecords).package := by
  obtain ⟨r, hresult⟩ := exists_rendered_twoRecords
  obtain ⟨bindings, jobs, rendered, -, -, hbind, hplan, hrun, -⟩ := renderWith_eq_ok hresult
  obtain ⟨hrefused, hsound⟩ := renderWith_checked hbind hplan hrun
  exact ⟨bindings, jobs, rendered, r, hbind, hplan, hrun, hresult, hrefused, hsound r hresult⟩

/-! ### A source that is no document -/

def brokenText : Text := "<p>"

def brokenSlide : Package where
  source := Package.memory
  entries := oneSlide.entries.dropLast ++ [entryOfText (Package.slideName 1) brokenText]
  modified := []
  distinct := by decide

/-- Settings that name the only slide, by which every record has a page of its own. -/
def namedSlot : Config := { oneSlot with parts := [Package.slideName 1] }

def brokenTemplate : Template := ⟨namedSlot, brokenSlide, [(Package.slideName 1, brokenText)]⟩

/-- The slide has no placeholders, so its renderings do not change, and its copy is not checked. -/
theorem renderWith_adds_malformed : ∃ r, Template.load namedSlot brokenSlide = .ok brokenTemplate ∧
    (brokenTemplate.renderWith List.range twoRecords).result = .ok r ∧
    r.added = [Package.slideName 2] ∧
    (brokenTemplate.renderWith List.range twoRecords).package.readText (Package.slideName 2) =
      .ok brokenText ∧
    ¬ Xml.isWellFormed brokenText := by
  have hload : Template.load namedSlot brokenSlide = .ok brokenTemplate :=
    Template.load_of_parts (by decide +kernel)
  have hrun : ((brokenTemplate.renderWith List.range twoRecords).result.toOption.map (·.added),
      (brokenTemplate.renderWith List.range twoRecords).package.readText (Package.slideName 2)) =
        (some [Package.slideName 2], .ok brokenText) := by decide +kernel
  obtain ⟨hadded, hread⟩ := Prod.mk.inj hrun
  cases hresult : (brokenTemplate.renderWith List.range twoRecords).result with
  | error =>
    rw [hresult] at hadded
    cases hadded
  | ok r =>
    rw [hresult] at hadded
    exact ⟨r, hload, rfl, Option.some.inj hadded, hread, by decide⟩

end DeckMerge.Deck
