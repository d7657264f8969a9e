import DeckMerge.Proofs.Package.Consistency

/-!
The order in which slides are shown: the entries of the list of slides, each led by its relationship to a
part. A copy that is shown after a slide comes right after it, as long as its identifier is new and the
relationship to that slide is the one that is found.
-/

namespace DeckMerge

namespace Xml

variable {n : Node} {ns front back : List Node}

/-- The tag of a node that is an element. -/
def Node.tag? : Node → Option Tag
  | .element t _ => some t
  | _ => none

/-- The tags of the elements among some nodes. -/
def tagsIn (ns : List Node) : List Tag := ns.filterMap Node.tag?

/-- Whether a node counts where places are counted. -/
def Node.counts : Node → Bool
  | .text _ => false
  | _ => true

theorem tagsIn_append (front back : List Node) : tagsIn (front ++ back) = tagsIn front ++ tagsIn back :=
  List.filterMap_append

theorem tagsIn_fedAll (ns : List Node) : tagsIn (fedAll ns) = tagsIn ns :=
  filterMap_fedAll (fun n => by cases n <;> rfl) ns

theorem tagsOf_eq_filter (e : Element) (uri label : Text) :
    e.tagsOf uri label = (tagsIn e.children).filter (·.is uri label) := by
  rw [tagsOf_eq, tagsIn, List.filter_filterMap]
  refine List.filterMap_congr fun n _ => ?_
  cases n with
  | element t ns =>
    rw [Node.tagOf?, Node.tag?, Option.filter_some]
    simp
  | _ => rfl

/-- A node that is put first comes after texts only. -/
theorem tagsIn_insertAt_zero (n : Node) (ns : List Node) : tagsIn (insertAt n 0 ns) = tagsIn (n :: ns) := by
  induction ns with
  | nil => rfl
  | cons m ns ih =>
    cases m with
    | text s =>
      have htail : tagsIn (insertAt n 0 (.text s :: ns)) = tagsIn (insertAt n 0 ns) := rfl
      rw [htail, ih]
      exact List.filterMap_cons.trans List.filterMap_cons.symm
    | _ => rfl

theorem insertAt_append (n : Node) (i : Nat) (front back : List Node) :
    insertAt n ((front.filter Node.counts).length + i) (front ++ back) = front ++ insertAt n i back := by
  induction front with
  | nil => simp
  | cons m front ih =>
    cases m with
    | text s => exact congrArg (Node.text s :: ·) ih
    | _ =>
      rw [List.filter_cons_of_pos rfl, List.length_cons, Nat.add_right_comm]
      exact congrArg (_ :: ·) ih

end Xml

namespace Package

open Xml (Element Node Tag Document tagsIn)

variable {p q : Package} {root root' list : Element} {name source id after : Text} {entry t : Tag}
  {front back : List Tag}

/-! ### The list -/

/-- The tags of all elements in the first list of slides. -/
def inList (root : Element) : List Tag := ((slideList? root).map fun list => tagsIn list.children).getD []

theorem shown_eq_filter (root : Element) : shown root = (inList root).filter (·.is Uri.presentation "sldId") := by
  rw [shown, inList]
  cases slideList? root with
  | none => rfl
  | some list => exact Xml.tagsOf_eq_filter list _ _

@[simp] theorem inList_fed (root : Element) : inList root.fed = inList root := by
  rw [inList, inList, slideList?_fed, Option.map_map]
  congr 2
  exact funext fun list => Xml.tagsIn_fedAll list.children

/-- The place after a child, if it refers to a relationship. -/
def placeIn? (id : Text) : Node × Nat → Option Nat
  | (.element t _, i) => if id ≠ [] ∧ reference? t = some id then some (i + 1) else none
  | _ => none

theorem placeAfter_eq (id : Text) (ns : List Node) : placeAfter id ns =
    (((ns.filter Node.counts).zipIdx.filterMap (placeIn? id)).getLast?).getD (ns.filter Node.counts).length := by
  refine congrArg₂ (fun (f : Node → Bool) (g : Node × Nat → Option Nat) =>
    ((ns.filter f).zipIdx.filterMap g).getLast?.getD (ns.filter f).length) (funext fun n => ?_) (funext fun x => ?_)
  · cases n <;> rfl
  · obtain ⟨n, i⟩ := x
    cases n <;> rfl

/-- The place after a child is its number, if no later one refers to what it refers to. -/
theorem placeAfter_append {pre post ns : List Node} (hafter : after ≠ []) (hentry : reference? entry = some after)
    (hlast : ∀ t ∈ tagsIn post, reference? t ≠ some after) :
    placeAfter after (pre ++ .element entry ns :: post) = (pre.filter Node.counts).length + 1 := by
  have hplace : placeIn? after (.element entry ns, (pre.filter Node.counts).length) =
      some ((pre.filter Node.counts).length + 1) := if_pos ⟨hafter, hentry⟩
  have hnone : ∀ x ∈ (post.filter Node.counts).zipIdx ((pre.filter Node.counts).length + 1),
      placeIn? after x = none := by
    rintro ⟨n, i⟩ hx
    have hn : n ∈ post := List.mem_of_mem_filter (List.fst_mem_of_mem_zipIdx hx)
    cases n with
    | element t ms => exact if_neg fun hboth => hlast t (List.mem_filterMap.2 ⟨_, hn, rfl⟩) hboth.2
    | _ => rfl
  rw [placeAfter_eq, List.filter_append, List.filter_cons_of_pos rfl, List.zipIdx_append, List.zipIdx_cons,
    List.filterMap_append, List.filterMap_cons, Nat.zero_add, hplace, List.filterMap_eq_nil_iff.2 hnone,
    List.getLast?_concat]
  rfl

/-- A new entry comes right after the last child that refers to a relationship. -/
theorem tagsIn_withEntry (scope : Xml.Declarations) (number : Int) (id : Text) (hafter : after ≠ [])
    (htags : tagsIn list.children = front ++ entry :: back) (hentry : reference? entry = some after)
    (hlast : ∀ t ∈ back, reference? t ≠ some after) :
    tagsIn (withEntry scope number id after list).children =
      front ++ entry :: entryTag (list.tag.declarations ++ scope) number id :: back := by
  obtain ⟨pre, rest, hchildren, hpre, hrest⟩ := List.filterMap_eq_append_iff.1 htags
  obtain ⟨texts, n, post, rfl, htexts, hn, hpost⟩ := List.filterMap_eq_cons_iff.1 hrest
  cases n with
  | element t ms =>
    obtain rfl : t = entry := Option.some.inj hn
    have hfront : tagsIn (pre ++ texts) = front := by
      rw [Xml.tagsIn_append, tagsIn, hpre, tagsIn, List.filterMap_eq_nil_iff.2 htexts, List.append_nil]
    have hback : tagsIn post = back := hpost
    rw [← List.append_assoc] at hchildren
    have hplace : placeAfter after list.children = ((pre ++ texts).filter Node.counts).length + 1 := by
      rw [hchildren]
      exact placeAfter_append hafter hentry fun t ht => hlast t (hback ▸ ht)
    rw [withEntry, hplace, hchildren, Xml.insertAt_append, Xml.tagsIn_append, hfront]
    refine congrArg (front ++ ·) (congrArg (t :: ·) ((Xml.tagsIn_insertAt_zero _ post).trans ?_))
    rw [← hback]
    rfl
  | _ => cases hn

theorem inList_of_withShown (h : withShown id after root = .ok root') (hafter : after ≠ [])
    (hlist : inList root = front ++ entry :: back) (hentry : reference? entry = some after)
    (hlast : ∀ t ∈ back, reference? t ≠ some after) :
    ∃ new : Tag, new.is Uri.presentation "sldId" ∧ reference? new = some id ∧
      inList root' = front ++ entry :: new :: back := by
  obtain ⟨before, list, behind, numbers, hplace, hbefore, ht, -, rfl⟩ := exists_of_withShown h
  have hnew : slideList? ⟨root.tag, before ++
      (withEntry root.tag.declarations (nextSlideNumber numbers) id after list : Node) :: behind⟩ =
        some (withEntry root.tag.declarations (nextSlideNumber numbers) id after list) :=
    slideList?_eq_some_iff.2 ⟨before, behind, rfl, hbefore, ht⟩
  cases hplace with
  | found heq =>
    rw [inList, slideList?_eq_some_iff.2 ⟨before, behind, heq, hbefore, ht⟩] at hlist
    rw [inList, hnew]
    exact ⟨_, is_entryTag _ _ _, reference?_entryTag _ _ _, tagsIn_withEntry _ _ id hafter hlist hentry hlast⟩
  | put hnone =>
    rw [inList, hnone] at hlist
    exact absurd hlist.symm (List.append_ne_nil_of_right_ne_nil _ (List.cons_ne_nil _ _))

/-! ### The order -/

/-- The part that an entry leads to through the relationship that it refers to. -/
def resolve? (rs : List Relationship) (t : Tag) : Option Text :=
  (reference? t).bind fun id => (rs.find? (·.id = id)).map (·.part)

/-- The parts that the entries among some tags lead to. -/
def shownIn (rs : List Relationship) (ts : List Tag) : List Text :=
  (ts.filter (·.is Uri.presentation "sldId")).filterMap (resolve? rs)

/-- The parts that are shown, in order. -/
def showOrder (p : Package) : List Text := p.listed.filterMap (resolve? p.relations)

/-- The tags of all elements in the list of slides. -/
def lineup (p : Package) : List Tag := p.view inList presentation

theorem listed_eq_filter (p : Package) : p.listed = p.lineup.filter (·.is Uri.presentation "sldId") := by
  rw [listed, lineup, view, view]
  cases p.document? presentation with
  | none => rfl
  | some d => exact shown_eq_filter d.root

theorem showOrder_eq (p : Package) : p.showOrder = shownIn p.relations p.lineup := by
  rw [showOrder, listed_eq_filter, shownIn]

theorem shownIn_append (rs : List Relationship) (front back : List Tag) :
    shownIn rs (front ++ back) = shownIn rs front ++ shownIn rs back := by
  rw [shownIn, List.filter_append, List.filterMap_append, shownIn, shownIn]

theorem shownIn_cons {rs : List Relationship} (ht : t.is Uri.presentation "sldId")
    (hname : resolve? rs t = some name) (ts : List Tag) : shownIn rs (t :: ts) = name :: shownIn rs ts := by
  rw [shownIn, List.filter_cons_of_pos (by simpa using ht), List.filterMap_cons, hname, shownIn]

theorem shownIn_congr {rs rs' : List Relationship} {ts : List Tag} (h : ∀ t ∈ ts, resolve? rs t = resolve? rs' t) :
    shownIn rs ts = shownIn rs' ts :=
  List.filterMap_congr fun t ht => h t (List.mem_of_mem_filter ht)

/-- A relationship that comes last changes nothing for entries that do not refer to it. -/
theorem resolve?_append {r : Relationship} (ht : reference? t ≠ some r.id) (rs : List Relationship) :
    resolve? (rs ++ [r]) t = resolve? rs t := by
  rw [resolve?, resolve?]
  cases hid : reference? t with
  | none => rfl
  | some id =>
    have hne : ¬ r.id = id := fun heq => ht (heq ▸ hid)
    rw [Option.bind_some, Option.bind_some, List.find?_append, List.find?_singleton,
      if_neg (by simpa using hne), Option.or_none]

theorem resolve?_append_self {r : Relationship} {rs : List Relationship} (ht : reference? t = some r.id)
    (hnew : r.id ∉ rs.map (·.id)) : resolve? (rs ++ [r]) t = some r.part := by
  have hnone : rs.find? (·.id = r.id) = none :=
    List.find?_eq_none.2 fun r' hr' heq => hnew (List.mem_map.2 ⟨r', hr', of_decide_eq_true heq⟩)
  rw [resolve?, ht, Option.bind_some, List.find?_append, hnone, List.find?_singleton, if_pos (by simp)]
  rfl

/-! ### What a copy changes -/

/-- The registries that say which slides are shown are written so that they read back. -/
structure Legible (p : Package) : Prop where
  related : ∀ d, p.document? presentationRelationships = some d → d.Sound
  listed : ∀ d, p.document? presentation = some d → d.Sound ∧ Unshadowed d.root

theorem Legible.congr (h : p.Legible)
    (hrelated : q.document? presentationRelationships = p.document? presentationRelationships)
    (hlisted : q.document? presentation = p.document? presentation) : q.Legible :=
  ⟨fun d hd => h.related d (hrelated ▸ hd), fun d hd => h.listed d (hlisted ▸ hd)⟩

/-- A copy adds a relationship, and lists it after the one that is found for the slide before it. -/
theorem Legible.add {before : Text} {s : Option Text} (hp : p.Legible) (hbefore : before ≠ [])
    (h : (duplicate source (some before) s).on p = (.ok name, q)) : q.Legible ∧
      q.relations = p.relations ++ [⟨nextRelationship p.relations, slideRelationship, targetOf name⟩] ∧
      ∃ root root', p.lineup = inList root ∧
        withShown (nextRelationship p.relations) (firstTo before p.relations) root = .ok root' ∧
        q.lineup = inList root' := by
  obtain ⟨c, before, rfl⟩ := List.exists_cons_of_ne_nil hbefore
  obtain ⟨hname, content, p₁, p₂, p₃, shownAfter, id, -, hcopied, htyped, hfound, hadded, hlisted⟩ :=
    duplicated_of_duplicate h
  have hslide : isSlide name := hname ▸ isSlide_slideName _
  have hlegal : name.all Xml.isLegal := hname ▸ all_isLegal_slideName _
  have hframe : ∀ other ∈ registries, other ≠ contentTypes → p₂.document? other = p.document? other := by
    intro other hother hne
    have hrelated : other ≠ relationshipsName name := fun heq =>
      relationshipsName_notMem_registries hslide (heq ▸ hother)
    rw [document?_of_registerContentType htyped hne, document?_of_copyRelationships hcopied hrelated,
      document?_write_of_ne (isSlide_ne_registry hslide (.inl hother))]
  have hrelationships := hframe presentationRelationships (by decide) (by decide)
  have hpresentation := hframe presentation (by decide) (by decide)
  have hp₂ := hp.congr hrelationships hpresentation
  have hrelations : p₂.relations = p.relations := view_congr hrelationships
  obtain ⟨-, d, hd, rfl⟩ := relationshipTo_eq_ok hfound
  obtain ⟨d', hd', hid, rfl⟩ := addRelationship_eq_ok hadded
  obtain rfl : d = d' := Option.some.inj (hd.symm.trans hd')
  obtain ⟨d₂, root, hd₂, hshown, rfl⟩ := addToShow_eq_ok hlisted
  rw [document?_writeDocumentTo_of_ne (by decide)] at hd₂
  have hroot : relationships d.root = p.relations := by rw [← hrelations, relations, view_of_document? hd]
  rw [hroot] at hid hshown
  subst hid
  have hsound := hp₂.related d hd
  obtain ⟨hsound₂, hunshadowed⟩ := hp₂.listed d₂ hd₂
  have hnew : (withRoot d (withRelationship (nextRelationship p.relations) name d.root)).Sound :=
    ⟨hsound.version, sound_withRelationship hsound.root (all_isLegal_nextRelationship _) hlegal⟩
  have hnew₂ : (withRoot d₂ root).Sound :=
    ⟨hsound₂.version, sound_withShown hsound₂.root hunshadowed (all_isLegal_nextRelationship _) hshown⟩
  have hrelated := @document?_writeDocumentTo_self p₂ presentationRelationships _ hnew
  refine ⟨⟨fun d' hd' => ?_, fun d' hd' => ?_⟩, ?_, d₂.root, root, ?_, hshown, ?_⟩
  · rw [document?_writeDocumentTo_of_ne (by decide), hrelated] at hd'
    exact Option.some.inj hd' ▸ hnew.reread
  · rw [document?_writeDocumentTo_self hnew₂] at hd'
    obtain rfl := Option.some.inj hd'
    exact ⟨hnew₂.reread, (unshadowed_of_withShown hunshadowed hshown).fed⟩
  · rw [relations, view_congr (document?_writeDocumentTo_of_ne (by decide) _),
      view_writeDocumentTo_self hnew relationships_fed, ← hroot]
    exact relationships_withRelationship _ name d.root
  · rw [lineup, view_of_document? (hpresentation ▸ hd₂)]
  · exact view_writeDocumentTo_self hnew₂ inList_fed

/-! ### What leads to a slide -/

theorem leadsTo_targetOf (hname : isSlide name) (id type : Text) :
    (⟨id, type, targetOf name⟩ : Relationship).leadsTo name := by
  obtain ⟨digits, rest, rfl, -⟩ := eq_append_of_isSlide hname
  exact Bool.or_eq_true_iff.2 (.inl (beq_self_eq_true _))

theorem eq_of_leadsTo {other type : Text} (hname : isSlide name) (hother : isSlide other)
    (h : (⟨id, type, targetOf name⟩ : Relationship).leadsTo other) : other = name := by
  obtain ⟨digits, rest, rfl, -⟩ := eq_append_of_isSlide hname
  obtain ⟨digits', rest', rfl, -⟩ := eq_append_of_isSlide hother
  rcases Bool.or_eq_true_iff.1 h with h | h
  · have htarget : "slides/slide".toList ++ (digits ++ rest) = "slides/slide".toList ++ (digits' ++ rest') :=
      eq_of_beq h
    rw [List.append_cancel_left htarget]
  · have hfront : 's' :: _ = 'p' :: _ := eq_of_beq h
    exact absurd (List.cons.inj hfront).1 (by decide)

theorem firstTo_append {rs : List Relationship} {r : Relationship} (hnone : ∀ r' ∈ rs, ¬ r'.leadsTo name)
    (hr : r.leadsTo name) : firstTo name (rs ++ [r]) = r.id := by
  rw [firstTo, List.find?_append, List.find?_eq_none.2 hnone, List.find?_singleton, if_pos hr]
  rfl

/-! ### Slides in the list -/

/-- Copies are listed where they belong: no element in the list refers to a relationship that is still to
come, and what is taken for the relationship of a slide is that of a slide that is there. -/
structure Extensible (p : Package) : Prop where
  legible : p.Legible
  unclaimed : ∀ n, lastRelationship p.relations < n → ∀ t ∈ p.lineup, reference? t ≠ some (relationshipId n)
  led : ∀ r ∈ p.relations, ∀ name, isSlide name → r.leadsTo name → name ∈ p.names

/-- A slide is listed: its entry is the last element that refers to the relationship that is found for the
slide, and leads to it. -/
structure Listed (p : Package) (name : Text) (front : List Tag) (entry : Tag) (back : List Tag) : Prop where
  lineup_eq : p.lineup = front ++ entry :: back
  isEntry : entry.is Uri.presentation "sldId"
  found : firstTo name p.relations ≠ []
  reference : reference? entry = some (firstTo name p.relations)
  last : ∀ t ∈ back, reference? t ≠ some (firstTo name p.relations)
  leads : resolve? p.relations entry = some name

theorem Extensible.congr (h : p.Extensible)
    (hrelated : q.document? presentationRelationships = p.document? presentationRelationships)
    (hlisted : q.document? presentation = p.document? presentation)
    (hnames : ∀ name ∈ p.names, name ∈ q.names) : q.Extensible where
  legible := h.legible.congr hrelated hlisted
  unclaimed := by
    rw [relations, lineup, view_congr hrelated, view_congr hlisted]
    exact h.unclaimed
  led := by
    rw [relations, view_congr hrelated]
    exact fun r hr name hname hleads => hnames name (h.led r hr name hname hleads)

theorem Listed.congr (h : p.Listed name front entry back) (hrelations : q.relations = p.relations)
    (hlineup : q.lineup = p.lineup) : q.Listed name front entry back := by
  obtain ⟨hlineup', hentry, hfound, hreference, hlast, hleads⟩ := h
  refine ⟨hlineup.trans hlineup', hentry, ?_, ?_, ?_, ?_⟩ <;> rwa [hrelations]

theorem Listed.showOrder_eq (h : p.Listed name front entry back) :
    p.showOrder = shownIn p.relations front ++ name :: shownIn p.relations back := by
  rw [Package.showOrder_eq, h.lineup_eq, shownIn_append, shownIn_cons h.isEntry h.leads]

theorem Extensible.add {before : Text} {s : Option Text} (hp : p.Extensible) (hbefore : before ≠ [])
    (hlisted : p.Listed before front entry back) (h : (duplicate source (some before) s).on p = (.ok name, q)) :
    q.Extensible ∧ (∃ new, q.Listed name (front ++ [entry]) new back) ∧
      ∀ t ∈ p.lineup, resolve? q.relations t = resolve? p.relations t := by
  obtain ⟨hslide, hfresh, hadded⟩ := slide_of_duplicate h
  obtain ⟨hlegible, hrelations, root, root', hroot, hshown, hroot'⟩ := hp.legible.add hbefore h
  obtain ⟨new, hentry, hnew, hinserted⟩ := inList_of_withShown hshown hlisted.found (hroot ▸ hlisted.lineup_eq)
    hlisted.reference hlisted.last
  rw [← hroot'] at hinserted
  have hclaimed : ∀ t ∈ p.lineup, reference? t ≠ some (nextRelationship p.relations) :=
    hp.unclaimed _ (Nat.lt_succ_self _)
  have hunled : ∀ r ∈ p.relations, ¬ r.leadsTo name := fun r hr hleads => hfresh (hp.led r hr name hslide hleads)
  have hfound : firstTo name q.relations = nextRelationship p.relations := by
    rw [hrelations, firstTo_append hunled (leadsTo_targetOf hslide _ _)]
  have hmem : ∀ t ∈ q.lineup, t ∈ p.lineup ∨ t = new := by
    intro t ht
    rw [hinserted, List.mem_append, List.mem_cons, List.mem_cons] at ht
    rw [hlisted.lineup_eq, List.mem_append, List.mem_cons]
    tauto
  refine ⟨⟨hlegible, ?unclaimed, ?led⟩, ⟨new, ?listed⟩, fun t ht => ?same⟩
  case unclaimed =>
    intro n hn t ht
    rw [hrelations, lastRelationship_append] at hn
    rcases hmem t ht with ht | rfl
    · exact hp.unclaimed n (Nat.lt_of_succ_lt hn) t ht
    · rw [hnew]
      exact fun heq => Nat.ne_of_lt hn (relationshipId_injective (Option.some.inj heq))
  case led =>
    intro r hr other hother hleads
    rw [hrelations, List.mem_append, List.mem_singleton] at hr
    rcases hr with hr | rfl
    · exact (grown_of_duplicate h).mem_names (hp.led r hr other hother hleads)
    · exact eq_of_leadsTo hslide hother hleads ▸ hadded
  case listed =>
    have hpart : (⟨nextRelationship p.relations, slideRelationship, targetOf name⟩ : Relationship).part = name := by
      rw [(duplicated_of_duplicate h).name_eq, part_targetOf]
    refine ⟨by rw [hinserted, List.append_assoc]; rfl, hentry, ?_, ?_, ?_, ?_⟩
    · rw [hfound]
      exact List.cons_ne_nil _ _
    · rw [hfound, hnew]
    · rw [hfound]
      exact fun t ht => hclaimed t (hlisted.lineup_eq ▸ List.mem_append_right _ (List.mem_cons_of_mem _ ht))
    · rw [hrelations, resolve?_append_self hnew (relationshipId_notMem (Nat.lt_succ_self _)), hpart]
  case same =>
    rw [hrelations]
    exact resolve?_append (hclaimed t ht) _

/-! ### Packages whose slides are listed -/

/-- Relationships have identifiers of their own, each slide has one relationship, written from the folder of
the presentation or from the root on, and this is listed once. -/
structure Arranged (p : Package) : Prop where
  identified : (p.relations.map (·.id)).Nodup
  related : ∀ name ∈ p.slides, ∃ r, p.relations.filter (·.part = name) = [r] ∧
    (r.target = targetOf name ∨ r.target = '/' :: name)
  listed : ∀ name ∈ p.slides, ∀ r ∈ p.relations, r.part = name →
    (p.listed.filter (reference? · = some r.id)).length = 1

/-- Nothing stands in the way of copies in the list: its registries are read without an error and can be
written with more slides, no entry refers to a relationship that is still to come, nothing else in the list
refers to any, and what is taken for the relationship of a slide is that of a slide that is there. -/
structure Settled (p : Package) : Prop where
  clear : p.Clear presentationRelationships ∧ p.Clear presentation
  unshadowed : ∀ d, p.document? presentation = some d → Unshadowed d.root
  unclaimed : p.Unclaimed
  entries : ∀ t ∈ p.lineup, ¬ t.is Uri.presentation "sldId" → reference? t = none
  named : ∀ r ∈ p.relations, isSlide r.part → r.id ≠ []
  led : ∀ r ∈ p.relations, ∀ name, isSlide name → r.leadsTo name → r.part = name ∧ name ∈ p.names

theorem Settled.extensible (h : p.Settled) : p.Extensible where
  legible := ⟨fun _ hd => h.clear.1.sound hd, fun d hd => ⟨h.clear.2.sound hd, h.unshadowed d hd⟩⟩
  unclaimed := by
    intro n hn t ht href
    have hentry : t.is Uri.presentation "sldId" := by
      by_contra hother
      cases (h.entries t ht hother).symm.trans href
    refine h.unclaimed n hn (List.mem_filterMap.2 ⟨t, ?_, href⟩)
    rw [listed_eq_filter]
    exact List.mem_filter.2 ⟨ht, decide_eq_true hentry⟩
  led := fun r hr name hname hleads => (h.led r hr name hname hleads).2

theorem leadsTo_of_target {r : Relationship} (hname : isSlide name)
    (h : r.target = targetOf name ∨ r.target = '/' :: name) : r.leadsTo name := by
  obtain ⟨digits, rest, rfl, -⟩ := eq_append_of_isSlide hname
  rw [Relationship.leadsTo]
  rcases h with h | h <;> rw [h]
  · exact Bool.or_eq_true_iff.2 (.inl (beq_self_eq_true _))
  · exact Bool.or_eq_true_iff.2 (.inr (beq_self_eq_true _))

/-- The relationship of a slide is the one that is found for it, the one under its identifier, and the only
one that leads to it. -/
theorem Arranged.exists_related (hp : p.Arranged) (hsettled : p.Settled) (hname : name ∈ p.slides) :
    ∃ r ∈ p.relations, r.part = name ∧ firstTo name p.relations = r.id ∧
      p.relations.find? (·.id = r.id) = some r ∧ ∀ r' ∈ p.relations, r'.part = name → r' = r := by
  have hslide := (mem_slides.1 hname).2
  obtain ⟨r, hrelated, htarget⟩ := hp.related name hname
  have hmem : ∀ r', r' ∈ p.relations ∧ r'.part = name ↔ r' = r := by
    intro r'
    rw [← List.mem_singleton (a := r'), ← hrelated, List.mem_filter, decide_eq_true_iff]
  obtain ⟨hr, hpart⟩ := (hmem r).2 rfl
  refine ⟨r, hr, hpart, ?_, ?_, fun r' hr' hpart' => (hmem r').1 ⟨hr', hpart'⟩⟩
  · cases hfind : p.relations.find? (·.leadsTo name) with
    | none => exact absurd (leadsTo_of_target hslide htarget) (List.find?_eq_none.1 hfind r hr)
    | some r' =>
      have hr' : r' ∈ p.relations := List.mem_of_find?_eq_some hfind
      have hleads : r'.leadsTo name := by simpa using List.find?_some hfind
      obtain rfl := (hmem r').1 ⟨hr', (hsettled.led r' hr' name hslide hleads).1⟩
      rw [firstTo, hfind]
      rfl
  · cases hfind : p.relations.find? (·.id = r.id) with
    | none => exact absurd (decide_eq_true rfl) (List.find?_eq_none.1 hfind r hr)
    | some r' =>
      have hid : r'.id = r.id := by simpa using List.find?_some hfind
      exact congrArg some (List.inj_on_of_nodup_map hp.identified (List.mem_of_find?_eq_some hfind) hr hid)

/-- The only entry that leads to a slide is where the slide is listed. -/
theorem Arranged.exists_listed (hp : p.Arranged) (hsettled : p.Settled) (hname : name ∈ p.slides) :
    ∃ front entry back, p.Listed name front entry back ∧
      name ∉ shownIn p.relations front ∧ name ∉ shownIn p.relations back := by
  obtain ⟨r, hr, hpart, hfound, hresolve, hunique⟩ := hp.exists_related hsettled hname
  obtain ⟨entry, hentry⟩ := List.length_eq_one_iff.1 (hp.listed name hname r hr hpart)
  have honly : p.lineup.filter (reference? · = some r.id) = [entry] := by
    rw [← hentry, listed_eq_filter, List.filter_filter]
    refine List.filter_congr fun t ht => ?_
    by_cases hother : t.is Uri.presentation "sldId"
    · rw [decide_eq_true hother, Bool.and_true]
    · rw [hsettled.entries t ht hother]
      rfl
  obtain ⟨front, back, hlineup, hfront, hreference, hback⟩ := List.filter_eq_cons_iff.1 honly
  have hreference : reference? entry = some r.id := of_decide_eq_true hreference
  have hlast : ∀ t ∈ back, reference? t ≠ some r.id := fun t ht heq =>
    List.filter_eq_nil_iff.1 hback t ht (decide_eq_true heq)
  have hothers : ∀ ts : List Tag, (∀ t ∈ ts, reference? t ≠ some r.id) → name ∉ shownIn p.relations ts := by
    intro ts hts hmem
    obtain ⟨t, ht, hname⟩ := List.mem_filterMap.1 hmem
    obtain ⟨id, hid, hname⟩ := Option.bind_eq_some_iff.1 hname
    obtain ⟨r', hfind, hpart'⟩ := Option.map_eq_some_iff.1 hname
    obtain rfl := hunique r' (List.mem_of_find?_eq_some hfind) hpart'
    have hsame : r'.id = id := by simpa using List.find?_some hfind
    exact hts t (List.mem_of_mem_filter ht) (hsame ▸ hid)
  refine ⟨front, entry, back, ⟨hlineup, ?_, ?_, hfound ▸ hreference, hfound ▸ hlast, ?_⟩,
    hothers front fun t ht heq => hfront t ht (decide_eq_true heq), hothers back hlast⟩
  · by_contra hother
    have hmem : entry ∈ p.lineup := hlineup ▸ List.mem_append_right _ List.mem_cons_self
    cases (hsettled.entries entry hmem hother).symm.trans hreference
  · rw [hfound]
    exact hsettled.named r hr (hpart ▸ (mem_slides.1 hname).2)
  · rw [resolve?, hreference, Option.bind_some, hresolve, ← hpart]
    rfl

/-! ### Packages of one slide -/

theorem arranged_of_single (hslides : p.slides = [slideName 1])
    (hrelations : p.relations = [⟨id, slideRelationship, targetOf (slideName 1)⟩])
    (hlisted : (p.listed.filter (reference? · = some id)).length = 1) : p.Arranged := by
  refine ⟨by simp [hrelations], fun name hname => ?_, fun name _ r hr _ => ?_⟩
  · rw [hslides, List.mem_singleton] at hname
    subst hname
    refine ⟨⟨id, slideRelationship, targetOf (slideName 1)⟩, ?_, .inl rfl⟩
    rw [hrelations, List.filter_singleton, part_targetOf]
    simp
  · rw [hrelations, List.mem_singleton] at hr
    rwa [hr]

theorem settled_of_single (hclear : p.Clear presentationRelationships ∧ p.Clear presentation)
    (hunshadowed : ∀ d ∈ p.document? presentation, Unshadowed d.root) (hmem : slideName 1 ∈ p.names)
    (hrelations : p.relations = [⟨"rId1", slideRelationship, targetOf (slideName 1)⟩])
    (hentries : ∀ t ∈ p.lineup, t.is Uri.presentation "sldId" ∧ reference? t = some "rId1".toList) : p.Settled := by
  refine ⟨hclear, hunshadowed, fun n hn hn' => ?unclaimed, fun t ht hother => absurd (hentries t ht).1 hother,
    by simp [hrelations], fun r hr name hname hleads => ?led⟩
  case unclaimed =>
    obtain ⟨t, ht, href⟩ := List.mem_filterMap.1 hn'
    rw [listed_eq_filter] at ht
    have hid : "rId1".toList = relationshipId n :=
      Option.some.inj ((hentries t (List.mem_of_mem_filter ht)).2.symm.trans href)
    obtain rfl : 1 = n := relationshipId_injective (show relationshipId 1 = relationshipId n from hid)
    rw [hrelations] at hn
    exact absurd hn (by decide)
  case led =>
    rw [hrelations, List.mem_singleton] at hr
    rw [hr] at hleads ⊢
    obtain rfl := eq_of_leadsTo (isSlide_slideName 1) hname hleads
    exact ⟨part_targetOf _ _ 1, hmem⟩

end Package

end DeckMerge
