import DeckMerge.Proofs.Deck.ShowOrder

/-!
Whether each page keeps a part of its own. A configuration names the templated parts in any order, and may
name one twice: a result that has changed is written over what the results before it left in its part.
-/

namespace DeckMerge.Deck

open Placeholder (Binding)

variable {p q : Package} {filled copies rendered : List Rendered} {added : List Text} {last name s : Text}
  {previous : Option Text} {x : Rendered} {c : Config} {t : Template} {completion : Nat → List Nat}
  {rs : List Candidate.Record} {r : Rendering} {bindings : List Binding} {jobs : List Job}

/-! ### Results and their parts -/

/-- A result is that of a templated part, for its page or with empty slots. -/
structure Fills (t : Template) (bindings : List Binding) (i : Nat) (x : Rendered) : Prop where
  part_eq : t.parts[i]? = some (x.1.name, x.1.source)
  renders : ∃ part, Part.render none x.1.source (bindings[i]?.getD (emptyBinding t.config.capacity)) =
    .ok part ∧ part.text = x.2.text

theorem exists_filled (hplan : t.plan bindings = .ok jobs)
    (hrun : List.Forall₂ (fun j r => Job.run j = .ok r) jobs rendered) : ∃ filled copies n,
      rendered = filled ++ copies ∧ (∀ x ∈ filled, x.1.role ≠ .copy) ∧
      filled.map (·.1.name) = t.names ∧ List.Forall₂ (fun j r => Job.run j = .ok r)
        (jobsFrom t.config.capacity t.last n [] (bindings.drop t.parts.length)) copies := by
  rcases Nat.lt_or_ge t.parts.length bindings.length with hmore | hfit
  · obtain ⟨filled, copies, n, heq, hroles, hnames, hcopies⟩ := exists_phases hplan hrun hmore
    exact ⟨filled, copies, n, heq, fun x hx => by simp [hroles x hx], hnames, hcopies⟩
  · have hjobs := Template.plan_eq_ok hplan
    have hcount := countP_jobsFrom t.config.capacity t.last 1 t.parts bindings
    rw [← hjobs, Nat.sub_eq_zero_of_le hfit, List.countP_eq_zero] at hcount
    have hroles : ∀ j ∈ jobs, j.role ≠ .copy := by simpa using hcount
    have hnames := names_jobsFrom t.config.capacity t.last 1 t.parts bindings
    rw [← hjobs, List.filter_eq_self.2 (by simpa using hroles), ← map_fst_of_run hrun, List.map_map] at hnames
    refine ⟨rendered, [], 0, (List.append_nil _).symm, fun x hx => ?_, hnames, ?_⟩
    · exact hroles x.1 (map_fst_of_run hrun ▸ List.mem_map_of_mem hx)
    · rw [List.drop_eq_nil_of_le hfit]
      exact .nil

theorem fills_of_run (hplan : t.plan bindings = .ok jobs)
    (hrun : List.Forall₂ (fun j r => Job.run j = .ok r) jobs rendered)
    (hnames : filled.map (·.1.name) = t.names) (heq : rendered = filled ++ copies) {i : Nat}
    (hx : filled[i]? = some x) : Fills t bindings i x := by
  have hi : i < filled.length := (List.getElem?_eq_some_iff.1 hx).1
  have hresult : rendered[i]? = some x := by rw [heq, List.getElem?_append_left hi, hx]
  have hjob : jobs[i]? = some x.1 := by rw [← map_fst_of_run hrun, List.getElem?_map, hresult]; rfl
  obtain ⟨x', hx', hran⟩ := Sequence.exists_getElem?_of_forall₂ hrun hjob
  obtain rfl := Option.some.inj (hresult.symm.trans hx')
  obtain ⟨part, hpart, htext⟩ := Part.render_nameless (Job.run_eq_ok hran).2
  have hname : t.names[i]? = some x.1.name := by rw [← hnames, List.getElem?_map, hx]; rfl
  rw [Template.names, List.getElem?_map, Option.map_eq_some_iff] at hname
  obtain ⟨⟨name, s⟩, hs, hname⟩ := hname
  obtain rfl : name = x.1.name := hname
  rw [Template.plan_eq_ok hplan] at hjob
  obtain ⟨j, hj, hsource, hbinding⟩ := exists_job_of_part t.config.capacity t.last 1 bindings hs
  obtain rfl := Option.some.inj (hjob.symm.trans hj)
  exact ⟨hsource ▸ hs, part, hbinding ▸ hpart, htext⟩

/-- What a successful rendering has done: results fill the templated parts, where the last writing is read,
and the pages past them are in copies. -/
structure Ran (p : Package) (t : Template) (bindings : List Binding) (added : List Text)
    (filled : List Rendered) (q : Package) : Prop where
  names_eq : filled.map (·.1.name) = t.names
  fills : ∀ (i : Nat) x, filled[i]? = some x → Fills t bindings i x
  source_eq : ∀ x ∈ filled, ∀ y ∈ filled, x.1.name = y.1.name → x.1.source = y.1.source
  reads : ∀ x ∈ filled, x.1.name ∉ writtenForCopies p t.last.1 added →
    q.readText x.1.name = .ok ((lastText? x.1.name filled).getD x.1.source)
  count_eq : added.length = bindings.length - t.parts.length
  nodup : added.Nodup
  fresh : ∀ name ∈ added, name ∉ t.names
  copies : ∀ (i : Nat) name, added[i]? = some name → ∃ b part, bindings[t.parts.length + i]? = some b ∧
    Part.render none t.last.2 b = .ok part ∧ q.readText name = .ok part.text

theorem writtenForCopies_congr (h : p.names = q.names) :
    writtenForCopies p last added = writtenForCopies q last added := by
  rw [writtenForCopies, writtenForCopies, partsOfCopy_congr h]

/-- Copies leave alone what is not written for them. -/
theorem content?_of_copies (hroles : ∀ x ∈ copies, x.1.role = .copy) (hslide : ∀ x ∈ copies, Package.isSlide last)
    (h : (place last previous copies).on p = (.ok added, q)) (hfree : name ∉ writtenForCopies p last added) :
    q.content? name = p.content? name := by
  have hgrown := grown_of_place (fun x hx hrole => absurd (hroles x hx) hrole) (fun x hx _ => hslide x hx) h
  have hnone : rewritten copies = [] := by
    rw [rewritten, List.filter_eq_nil_iff.2 fun x hx => by simp [hroles x hx], List.map_nil]
  rw [hnone, List.nil_append] at hgrown
  exact hgrown.frame name hfree

theorem exists_ran (hload : Template.load c p = .ok t) (h : (t.renderWith completion rs).result = .ok r) :
    ∃ bindings filled, t.bind rs = .ok bindings ∧ r.pages = bindings.length ∧
      Ran p t bindings r.added filled (t.renderWith completion rs).package := by
  obtain ⟨-, rfl, hreads⟩ := Template.reads_of_load hload
  obtain ⟨bindings, jobs, rendered, n, added, hbind, hplan, hrun, -, hplace, -, hpages, -, -, rfl⟩ :=
    renderWith_eq_ok h
  have hrun := runJobs_eq_ok hrun
  obtain ⟨filled, copies, m, heq, hroles, hnames, hcopies⟩ := exists_filled hplan hrun
  have hfills : ∀ (i : Nat) x, filled[i]? = some x → Fills t bindings i x := fun i x hx =>
    fills_of_run hplan hrun hnames heq hx
  have hthere : ∀ x ∈ filled, x.1.name ∈ t.package.names := fun x hx =>
    Template.mem_names_of_load hload (hnames ▸ List.mem_map_of_mem hx)
  rw [heq] at hplace
  obtain ⟨p', hplace, hnames', hcontent⟩ := place_filled hroles hthere hplace
  obtain ⟨hcount, hnodup, hpage⟩ := pages_of_copies hcopies hplace
  have hcopyRoles : ∀ x ∈ copies, x.1.role = .copy := fun x hx =>
    role_of_mem_jobsFrom_nil (map_fst_of_run hcopies ▸ List.mem_map_of_mem hx)
  have hslide : ∀ x ∈ copies, Package.isSlide t.last.1 := fun x hx => by
    have hmem : x.1 ∈ jobs := by
      rw [← map_fst_of_run hrun, heq]
      exact List.mem_map_of_mem (List.mem_append_right _ hx)
    exact Template.isSlide_last_of_plan hplan hmem (hcopyRoles x hx)
  have hsource : ∀ x ∈ filled, t.package.readText x.1.name = .ok x.1.source := fun x hx => by
    obtain ⟨i, hi⟩ := List.mem_iff_getElem?.1 hx
    exact hreads _ (List.mem_of_getElem? (hfills i x hi).part_eq)
  refine ⟨bindings, filled, hbind, hpages, hnames, hfills, fun x hx y hy hname => ?_, fun x hx hfree => ?_,
    ?_, hnodup, ?_, ?_⟩
  · exact Except.ok.inj ((hsource x hx).symm.trans (hname ▸ hsource y hy))
  · rw [← writtenForCopies_congr hnames'] at hfree
    have hkept := (content?_of_copies hcopyRoles hslide hplace hfree).trans (hcontent _)
    cases hlast : lastText? x.1.name filled with
    | some s => exact Package.readText_of_content? (by rw [hkept, hlast]; rfl)
    | none => exact (Package.readText_congr (by rw [hkept, hlast]; rfl)).2 (hsource x hx)
  · rw [hcount, List.length_drop]
  · intro name hname hmem
    have hnew := (origin_of_place hplace).fresh name hname
    rw [← Option.not_isSome_iff_eq_none, Package.content?_isSome_iff, hnames'] at hnew
    exact hnew (Template.mem_names_of_load hload hmem)
  · intro i name hname
    obtain ⟨b, part, hb, hpart, hread⟩ := hpage i name hname
    exact ⟨b, part, by rw [← hb, List.getElem?_drop], hpart, hread⟩

/-! ### Pages apart -/

/-- Each page is read from the part of its number, which is the part of no other page. -/
structure Separate (t : Template) (bindings : List Binding) (added : List Text) (q : Package) : Prop where
  page : ∀ (page : Nat) b, bindings[page]? = some b → ∃ name part, t.partOf added page = some name ∧
    Part.render none (t.sourceOf page) b = .ok part ∧ q.readText name = .ok part.text
  apart : ∀ page page', page < bindings.length → page' < bindings.length →
    t.partOf added page = t.partOf added page' → page = page'

/-- Where the part of a page is named again past the last page, its rendering with empty slots is the source,
which is not written, or the text of the page. -/
def Template.Unspoilt (t : Template) (bindings : List Binding) : Prop :=
  ∀ (page : Nat) b name s, bindings[page]? = some b → t.parts[page]? = some (name, s) →
    name ∈ t.names.drop bindings.length → ∀ part blank, Part.render none s b = .ok part →
      Part.render none s (emptyBinding t.config.capacity) = .ok blank →
        blank.text = s ∨ blank.text = part.text

theorem nodup_take_iff {α : Type} {xs : List α} {k : Nat} (hk : k ≤ xs.length) :
    (xs.take k).Nodup ↔ ∀ i j, i < k → j < k → xs[i]? = xs[j]? → i = j := by
  constructor
  · intro h i j hi hj heq
    rw [← List.getElem?_take_of_lt hi, ← List.getElem?_take_of_lt hj] at heq
    exact (List.getElem?_inj (by rw [List.length_take]; omega) h).1 heq
  · intro h
    rw [List.nodup_iff_getElem?_ne_getElem?]
    intro i j hij hj heq
    rw [List.length_take] at hj
    rw [List.getElem?_take_of_lt (by omega), List.getElem?_take_of_lt (by omega)] at heq
    exact hij.ne (h i j (by omega) (by omega) heq)

namespace Ran

theorem getElem?_filled (h : Ran p t bindings added filled q) {i : Nat} (hi : i < t.parts.length) :
    ∃ x, filled[i]? = some x := by
  have hlength := congrArg List.length h.names_eq
  rw [List.length_map, Template.names, List.length_map] at hlength
  exact ⟨_, List.getElem?_eq_getElem (hlength ▸ hi)⟩

theorem apart_iff (h : Ran p t bindings added filled q) :
    (∀ page page', page < bindings.length → page' < bindings.length →
      t.partOf added page = t.partOf added page' → page = page') ↔
      (t.names.take bindings.length).Nodup := by
  have hlength : t.names.length = t.parts.length := by rw [Template.names, List.length_map]
  have hcount := h.count_eq
  have htake : (t.names ++ added).take bindings.length = t.names.take bindings.length ++ added := by
    rw [List.take_append, hlength, ← hcount, List.take_length]
  simp only [partOf_eq]
  rw [← nodup_take_iff (by rw [List.length_append]; omega), htake, List.nodup_append]
  constructor
  · exact fun hall => hall.1
  · intro hnodup
    refine ⟨hnodup, h.nodup, fun name hname other hother heq => ?_⟩
    exact h.fresh other hother (heq ▸ List.mem_of_mem_take hname)

theorem partOf_eq_some (h : Ran p t bindings added filled q) {i : Nat} (hx : filled[i]? = some x) :
    t.partOf added i = some x.1.name := by
  have hpart := (h.fills i x hx).part_eq
  have hname : t.names[i]? = some x.1.name := by rw [Template.names, List.getElem?_map, hpart]; rfl
  rw [Template.partOf, if_pos (List.getElem?_eq_some_iff.1 hname).1, hname]

/-- What a page's result is, and where. -/
theorem page_filled (h : Ran p t bindings added filled q) {page : Nat} {b : Binding}
    (hb : bindings[page]? = some b) (hfits : page < t.parts.length) : ∃ x part, filled[page]? = some x ∧
      t.partOf added page = some x.1.name ∧ t.sourceOf page = x.1.source ∧
      Part.render none x.1.source b = .ok part ∧ part.text = x.2.text := by
  obtain ⟨x, hx⟩ := h.getElem?_filled hfits
  obtain ⟨hpart, part, hrender, htext⟩ := h.fills page x hx
  rw [hb] at hrender
  exact ⟨x, part, hx, h.partOf_eq_some hx, by rw [Template.sourceOf, hpart]; rfl, hrender, htext⟩

theorem page_copied (h : Ran p t bindings added filled q) {page : Nat} {b : Binding}
    (hb : bindings[page]? = some b) (hmore : t.parts.length ≤ page) : ∃ name part,
      t.partOf added page = some name ∧ Part.render none (t.sourceOf page) b = .ok part ∧
      q.readText name = .ok part.text := by
  have hlength : t.names.length = t.parts.length := by rw [Template.names, List.length_map]
  have hlt := (List.getElem?_eq_some_iff.1 hb).1
  have hcount := h.count_eq
  have hname : added[page - t.parts.length]? = some added[page - t.parts.length] :=
    List.getElem?_eq_getElem (by omega)
  obtain ⟨b', part, hb', hpart, hread⟩ := h.copies _ _ hname
  rw [Nat.add_sub_cancel' hmore, hb] at hb'
  obtain rfl := Option.some.inj hb'
  refine ⟨_, part, ?_, ?_, hread⟩
  · rw [Template.partOf, if_neg (by omega), hlength, hname]
  · rwa [Template.sourceOf, List.getElem?_eq_none hmore]

/-- Results past the last page come from empty slots. -/
theorem text_surplus (h : Ran p t bindings added filled q) {y : Rendered}
    (hy : y ∈ filled.drop bindings.length) {blank : Part}
    (hblank : Part.render none y.1.source (emptyBinding t.config.capacity) = .ok blank) :
    y.2.text = blank.text := by
  obtain ⟨i, hi⟩ := List.mem_iff_getElem?.1 hy
  rw [List.getElem?_drop] at hi
  obtain ⟨-, part, hrender, htext⟩ := h.fills _ y hi
  rw [List.getElem?_eq_none (by omega), Option.getD_none, hblank] at hrender
  rw [← htext, Except.ok.inj hrender]

theorem unspoilt (h : Ran p t bindings added filled q) (hseparate : Separate t bindings added q) :
    t.Unspoilt bindings := by
  intro page b name s hb hpart hagain part blank hrender hblank
  rw [or_iff_not_imp_left]
  intro hchanged
  have hfits : page < t.parts.length := (List.getElem?_eq_some_iff.1 hpart).1
  obtain ⟨x, part', hx, hplace, hfrom, hrender', htext⟩ := h.page_filled hb hfits
  obtain ⟨rfl, rfl⟩ := Prod.mk.inj (Option.some.inj (hpart.symm.trans (h.fills page x hx).part_eq))
  obtain rfl := Except.ok.inj (hrender.symm.trans hrender')
  -- A result past the last page that writes the same part comes after the page.
  rw [← h.names_eq, ← List.map_drop] at hagain
  obtain ⟨y, hy, hname⟩ := List.mem_map.1 hagain
  have hsource {z : Rendered} (hz : z ∈ filled) (hname : z.1.name = x.1.name) : z.1.source = x.1.source :=
    h.source_eq z hz x (List.mem_of_getElem? hx) hname
  have hlast : lastText? x.1.name (filled.drop bindings.length) = some blank.text := by
    have hsourceY := hsource (List.mem_of_mem_drop hy) hname
    have htextY := h.text_surplus hy (hsourceY ▸ hblank)
    refine lastText?_eq_some (writes?_eq_some_iff.2 ⟨?_, hname, htextY⟩) hy fun z hz s hwrites => ?_
    · rw [Rendered.isChanged, bne_iff_ne, htextY, hsourceY]
      exact hchanged
    · obtain ⟨-, hnameZ, rfl⟩ := writes?_eq_some_iff.1 hwrites
      exact h.text_surplus hz (hsource (List.mem_of_mem_drop hz) hnameZ ▸ hblank)
  have hnone : added = [] := by
    have hlength := List.length_pos_of_mem hy
    have hfilled := congrArg List.length h.names_eq
    have hcount := h.count_eq
    rw [List.length_drop] at hlength
    rw [List.length_map, Template.names, List.length_map] at hfilled
    exact List.length_eq_zero_iff.1 (by omega)
  have hread := h.reads x (List.mem_of_getElem? hx) (by simp [hnone, writtenForCopies])
  rw [← List.take_append_drop bindings.length filled, lastText?_append, hlast] at hread
  obtain ⟨name, part', hplace', hrender', hread'⟩ := hseparate.page page b hb
  obtain rfl := Option.some.inj (hplace.symm.trans hplace')
  rw [hfrom, hrender] at hrender'
  rw [← Except.ok.inj hrender', hread] at hread'
  exact Except.ok.inj hread'

/-- All that is written to the part of a page is its text. -/
theorem eq_text_of_writes (h : Ran p t bindings added filled q)
    (hnodup : (t.names.take bindings.length).Nodup) (hunspoilt : t.Unspoilt bindings) {page : Nat}
    {b : Binding} (hb : bindings[page]? = some b) (hx : filled[page]? = some x) :
    ∀ y ∈ filled, ∀ s, writes? x.1.name y = some s → s = x.2.text := by
  intro y hy s hwrites
  obtain ⟨hchanged, hname, rfl⟩ := writes?_eq_some_iff.1 hwrites
  obtain ⟨i, hi⟩ := List.mem_iff_getElem?.1 hy
  have hplaces : t.partOf added i = t.partOf added page := by
    rw [h.partOf_eq_some hi, h.partOf_eq_some hx, hname]
  rcases Nat.lt_or_ge i bindings.length with hpage | hsurplus
  · have hlt := (List.getElem?_eq_some_iff.1 hb).1
    obtain rfl := h.apart_iff.2 hnodup i page hpage hlt hplaces
    rw [Option.some.inj (hi.symm.trans hx)]
  · obtain ⟨hpart, part, hrender, htext⟩ := h.fills page x hx
    obtain ⟨-, blank, hblank, htextY⟩ := h.fills i y hi
    have hsource := h.source_eq y hy x (List.mem_of_getElem? hx) hname
    have hagain : x.1.name ∈ t.names.drop bindings.length := by
      rw [← h.names_eq, ← List.map_drop, ← hname]
      refine List.mem_map_of_mem (List.mem_of_getElem? (i := i - bindings.length) ?_)
      rw [List.getElem?_drop, Nat.add_sub_cancel' hsurplus, hi]
    rw [hb, Option.getD_some] at hrender
    rw [List.getElem?_eq_none hsurplus, Option.getD_none, hsource] at hblank
    rcases hunspoilt page b _ _ hb hpart hagain part blank hrender hblank with hsame | hsame
    · rw [Rendered.isChanged, bne_iff_ne, ← htextY, hsource] at hchanged
      exact absurd hsame hchanged
    · rw [← htextY, hsame, htext]

theorem separate (h : Ran p t bindings added filled q)
    (hfree : ∀ name ∈ t.names, name ∉ writtenForCopies p t.last.1 added)
    (hnodup : (t.names.take bindings.length).Nodup) (hunspoilt : t.Unspoilt bindings) :
    Separate t bindings added q := by
  refine ⟨fun page b hb => ?_, h.apart_iff.2 hnodup⟩
  rcases Nat.lt_or_ge page t.parts.length with hfits | hmore
  · obtain ⟨x, part, hx, hplace, hsource, hrender, htext⟩ := h.page_filled hb hfits
    have hmem := List.mem_of_getElem? hx
    refine ⟨x.1.name, part, hplace, hsource ▸ hrender, ?_⟩
    rw [h.reads x hmem (hfree _ (h.names_eq ▸ List.mem_map_of_mem hmem)), htext]
    exact congrArg _ (lastText?_getD hmem rfl (h.eq_text_of_writes hnodup hunspoilt hb hx))
  · exact h.page_copied hb hmore

end Ran

theorem Template.names_of_load (hparts : c.parts ≠ []) (h : Template.load c p = .ok t) :
    t.names = c.parts := by
  obtain ⟨names, hnames, hload⟩ := Sequence.bind_eq_ok_iff.1 h
  obtain ⟨parts, hread, ht⟩ := Sequence.bind_eq_ok_iff.1 hload
  obtain rfl := Except.ok.inj ht
  rw [findParts, if_pos hparts] at hnames
  rw [Template.names, (read_eq_ok hread).1]
  split at hnames
  · cases hnames
  · exact (Except.ok.inj hnames).symm

theorem Separate.of_content?_eq {q' : Package} (h : Separate t bindings added q)
    (hq : ∀ name, q'.content? name = q.content? name) : Separate t bindings added q' := by
  refine { h with page := fun page b hb => ?_ }
  obtain ⟨name, part, hplace, hrender, hread⟩ := h.page page b hb
  exact ⟨name, part, hplace, hrender, (Package.readText_congr (hq name)).2 hread⟩

/-- The pages of a rendering by configured parts are kept apart only if no part is named for two of them and
what is rendered with empty slots after them spoils none; and they are if, besides, copies write none of the
parts. -/
theorem renderWith_separate (hparts : c.parts ≠ []) (hload : Template.load c p = .ok t)
    (h : (t.renderWith completion rs).result = .ok r) :
    ∃ bindings, t.names = c.parts ∧ t.bind rs = .ok bindings ∧ r.pages = bindings.length ∧
      (Separate t bindings r.added (t.renderWith completion rs).package →
        (c.parts.take r.pages).Nodup ∧ t.Unspoilt bindings) ∧
      ((c.parts.take r.pages).Nodup → t.Unspoilt bindings →
        (∀ name ∈ c.parts, name ∉ writtenForCopies p t.last.1 r.added) →
        Separate t bindings r.added (t.renderWith completion rs).package) ∧
      ((t.renderWith completion rs).package.Fits → ∀ source, ∃ q, Package.ofBytes source r.bytes = .ok q ∧
        (Separate t bindings r.added q ↔ Separate t bindings r.added (t.renderWith completion rs).package)) := by
  obtain ⟨_, _, _, _, _, -, -, -, -, -, hbytes, -⟩ := renderWith_eq_ok h
  have hnames := Template.names_of_load hparts hload
  obtain ⟨bindings, filled, hbind, hpages, hran⟩ := exists_ran hload h
  rw [← hnames, hpages]
  refine ⟨bindings, rfl, hbind, rfl, ?_, ?_, fun hfits source => ?_⟩
  · exact fun hseparate => ⟨hran.apart_iff.1 hseparate.apart, hran.unspoilt hseparate⟩
  · exact fun hnodup hunspoilt hfree => hran.separate hfree hnodup hunspoilt
  · obtain ⟨q, hopen, hcontent⟩ := Package.ofBytes_toBytes hfits source
    exact ⟨q, hbytes ▸ hopen, fun hseparate => hseparate.of_content?_eq fun name => (hcontent name).symm,
      fun hseparate => hseparate.of_content?_eq hcontent⟩

/-! ### A slide that is named once, and twice -/

/-- The only slide, named so many times. -/
def namedTimes (n : Nat) : Config := { oneSlot with parts := List.replicate n (Package.slideName 1) }

def namedTemplate (n : Nat) : Template where
  config := namedTimes n
  package := oneSlide
  parts := List.replicate n (Package.slideName 1, "<p>\x7b\x7bNAME_1\x7d\x7d</p>")

/-- Named once, the slide keeps the first page, and the second goes into a copy. -/
theorem renderWith_separate_once : ∃ r bindings,
    (namedTimes 1).parts ≠ [] ∧ Template.load (namedTimes 1) oneSlide = .ok (namedTemplate 1) ∧
    ((namedTemplate 1).renderWith List.range twoRecords).result = .ok r ∧
    (∀ name ∈ (namedTimes 1).parts, name ∉ writtenForCopies oneSlide (namedTemplate 1).last.1 r.added) ∧
    (namedTemplate 1).bind twoRecords = .ok bindings ∧ r.pages = bindings.length ∧ r.pages = 2 ∧
    Separate (namedTemplate 1) bindings r.added
      ((namedTemplate 1).renderWith List.range twoRecords).package := by
  have hparts : (namedTimes 1).parts ≠ [] := by decide
  have hload : Template.load (namedTimes 1) oneSlide = .ok (namedTemplate 1) :=
    Template.load_of_parts (by decide +kernel)
  have hrun : ((namedTemplate 1).renderWith List.range twoRecords).result.toOption.map
      (fun r => (r.added, r.pages)) = some ([Package.slideName 2], 2) := by decide +kernel
  cases hresult : ((namedTemplate 1).renderWith List.range twoRecords).result with
  | error =>
    rw [hresult] at hrun
    cases hrun
  | ok r =>
    rw [hresult] at hrun
    obtain ⟨hadded, hpages⟩ := Prod.mk.inj (Option.some.inj hrun)
    have hfree : ∀ name ∈ (namedTimes 1).parts,
        name ∉ writtenForCopies oneSlide (namedTemplate 1).last.1 r.added := by
      rw [hadded]
      decide +kernel
    obtain ⟨bindings, -, hbind, hlength, -, hseparate, -⟩ := renderWith_separate hparts hload hresult
    refine ⟨r, bindings, hparts, hload, rfl, hfree, hbind, hlength, hpages, hseparate ?_ ?_ hfree⟩
    · rw [hpages]
      decide
    · intro page b name s _ _ hagain
      rw [← hlength, hpages] at hagain
      cases hagain

/-- Named twice, the slide is left with the second page, and the first is nowhere. -/
theorem renderWith_overwrites : ∃ r, Template.load (namedTimes 2) oneSlide = .ok (namedTemplate 2) ∧
    ((namedTemplate 2).renderWith List.range twoRecords).result = .ok r ∧
    (namedTemplate 2).bind twoRecords =
      .ok [pageBinding (namedTimes 2) twoRecords 0, pageBinding (namedTimes 2) twoRecords 1] ∧
    (Part.render none "<p>\x7b\x7bNAME_1\x7d\x7d</p>" (pageBinding (namedTimes 2) twoRecords 0)).map
      (·.text) = .ok "<p>ADA</p>" ∧
    ∀ name, ((namedTemplate 2).renderWith List.range twoRecords).package.readText name ≠
      .ok "<p>ADA</p>" := by
  have hload : Template.load (namedTimes 2) oneSlide = .ok (namedTemplate 2) :=
    Template.load_of_parts (by decide +kernel)
  have hrun : (((namedTemplate 2).renderWith List.range twoRecords).result.toOption.isSome,
      ((namedTemplate 2).renderWith List.range twoRecords).package.entries.any
        (Text.ofUtf8? ·.content = some "<p>ADA</p>")) = (true, false) := by decide +kernel
  obtain ⟨hisSome, hnone⟩ := Prod.mk.inj hrun
  cases hresult : ((namedTemplate 2).renderWith List.range twoRecords).result with
  | error =>
    rw [hresult] at hisSome
    cases hisSome
  | ok r =>
    refine ⟨r, hload, rfl, ?_, by decide +kernel, fun name hada => ?_⟩
    · rw [Template.bind, if_neg (by decide)]
      exact bindPages_eq (by decide) (by decide)
    · obtain ⟨bs, hbs, hada⟩ := Package.readText_eq_ok_iff.1 hada
      obtain ⟨e, he, rfl⟩ := Option.map_eq_some_iff.1 hbs
      rw [List.any_eq_false] at hnone
      exact hnone e (List.mem_of_find?_eq_some he) (decide_eq_true hada)

end DeckMerge.Deck
