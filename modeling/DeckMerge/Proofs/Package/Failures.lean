import DeckMerge.Proofs.Package.Registration

/-!
How adding a slide stops. Each step ends with a report, but for the list of the slides that are shown: an
entry of it without a number, or a child of the presentation that is no element where a list has to be put
in, is a fault.
-/

namespace DeckMerge

/-- A report that says something. -/
def Report.Told (r : Report) : Prop := r.message ≠ []

theorem Report.Told.text_ne_nil {r : Report} (h : r.Told) : r.text ≠ [] := by
  rw [Report.text, List.append_assoc]
  exact List.append_ne_nil_of_left_ne_nil h _

namespace Package

open Xml (Element Node Tag Document)
open Edit

variable {p q : Package} {root root' : Element} {f : Fault} {name id after : Text}

/-! ### Lists that cannot be extended -/

/-- Whether a node is passed over, or counted, when the place of a list of slides is looked for. -/
def isPlain : Node → Bool
  | .text _ | .element _ _ => true
  | _ => false

/-- No slide can be listed in the presentation: a child that is no element stands where the place of a new
list is looked for, or an entry of the list that is there has no number, or none that is an integer. -/
inductive Unlistable (root : Element) : Fault → Prop
  | cluttered {n : Node} : slideList? root = none → n ∈ root.children → isPlain n = false →
    Unlistable root .badValue
  | unnumbered {t : Tag} : t ∈ shown root → t.get? [] "id" = none → Unlistable root .wrongKind
  | misnumbered {t : Tag} {s : Text} : t ∈ shown root → t.get? [] "id" = some s → Text.readInt? s = none →
    Unlistable root .badValue

theorem listPlace_eq (ns : List Node) :
    (∀ n ∈ ns, isPlain n) ∧ (∃ place, listPlace ns = .ok place) ∨
      (∃ n ∈ ns, isPlain n = false) ∧ listPlace ns = .error .badValue := by
  have hgo : ∀ position place, (∀ n ∈ ns, isPlain n) ∧ (∃ place', listPlace.go position place ns = .ok place') ∨
      (∃ n ∈ ns, isPlain n = false) ∧ listPlace.go position place ns = .error .badValue := by
    induction ns with
    | nil => exact fun _ place => .inl ⟨nofun, place, rfl⟩
    | cons n ns ih =>
      intro position place
      cases n with
      | text s =>
        rcases ih position place with ⟨hplain, hok⟩ | ⟨⟨m, hm, hplain⟩, herror⟩
        · exact .inl ⟨List.forall_mem_cons.2 ⟨rfl, hplain⟩, hok⟩
        · exact .inr ⟨⟨m, List.mem_cons_of_mem _ hm, hplain⟩, herror⟩
      | element t children =>
        rcases ih (position + 1) (if lists.contains t.name.label then position + 1 else place) with
          ⟨hplain, hok⟩ | ⟨⟨m, hm, hplain⟩, herror⟩
        · exact .inl ⟨List.forall_mem_cons.2 ⟨rfl, hplain⟩, hok⟩
        · exact .inr ⟨⟨m, List.mem_cons_of_mem _ hm, hplain⟩, herror⟩
      | comment s => exact .inr ⟨⟨_, List.mem_cons_self, rfl⟩, rfl⟩
      | instruction target data => exact .inr ⟨⟨_, List.mem_cons_self, rfl⟩, rfl⟩
  exact hgo 0 0

theorem unlistable_of_slideNumbers {list : Element} (hshown : shown root = entriesOf list)
    (h : slideNumbers list = .error f) : Unlistable root f := by
  obtain ⟨t, ht, hfail⟩ := Sequence.exists_of_mapM_eq_error h
  have hmem : t ∈ shown root := hshown ▸ ht
  split at hfail
  case h_1 hnone =>
    obtain rfl := Except.error.inj hfail
    exact .unnumbered hmem hnone
  case h_2 s hs =>
    split at hfail
    case h_1 => cases hfail
    case h_2 hnone =>
      obtain rfl := Except.error.inj hfail
      exact .misnumbered hmem hs hnone

/-- Changing the list fails as the numbers of its entries do. -/
theorem slideNumbers_of_changeSlideList {scope : Xml.Declarations} {list : Element} {before behind : List Node}
    (hbefore : ∀ n ∈ before, listOf? n = none) (hlist : isSlideList list.tag)
    (h : changeSlideList (listSlide scope id after) (before ++ (list : Node) :: behind) = .error f) :
    slideNumbers list = .error f := by
  rw [changeSlideList_append hbefore hlist] at h
  cases hslide : listSlide scope id after list with
  | ok list' => rw [hslide] at h; cases h
  | error f' =>
    rw [hslide] at h
    obtain rfl : f' = f := Except.error.inj h
    rcases Sequence.bind_eq_error_iff.1 hslide with hnumbers | ⟨_, -, hdone⟩
    · exact hnumbers
    · cases hdone

theorem unlistable_of_withShown (h : withShown id after root = .error f) : Unlistable root f := by
  rcases Sequence.bind_eq_error_iff.1 h with hlist | ⟨root₁, hroot₁, h⟩
  · rw [withSlideList] at hlist
    split at hlist
    case isFalse => cases hlist
    case isTrue hnone =>
      rcases Sequence.bind_eq_error_iff.1 hlist with hplace | ⟨_, -, hdone⟩
      · rcases listPlace_eq root.children with ⟨-, place, hok⟩ | ⟨⟨n, hn, hplain⟩, herror⟩
        · cases hok.symm.trans hplace
        · obtain rfl := Except.error.inj (herror.symm.trans hplace)
          exact .cluttered (tagsOf_sldIdLst_eq_nil_iff.1 hnone) hn hplain
      · cases hdone
  · rcases Sequence.bind_eq_error_iff.1 h with hchanged | ⟨_, -, hdone⟩
    swap
    · cases hdone
    rcases withSlideList_eq_ok hroot₁ with ⟨rfl, hsome⟩ | ⟨hnone, place, rfl⟩
    · obtain ⟨list, hlist⟩ := Option.ne_none_iff_exists'.1 hsome
      obtain ⟨before, behind, heq, hbefore, ht⟩ := slideList?_eq_some_iff.1 hlist
      rw [heq] at hchanged
      exact unlistable_of_slideNumbers (shown_eq_of_slideList? hlist)
        (slideNumbers_of_changeSlideList hbefore ht hchanged)
    · -- a list that has just been put in has no entries
      obtain ⟨before, behind, heq, hinserted⟩ := Xml.insertAt_eq (newList root : Node) place root.children
      have hbefore : ∀ n ∈ before, listOf? n = none := fun n hn =>
        List.findSome?_eq_none_iff.1 hnone n (heq ▸ List.mem_append_left _ hn)
      rw [hinserted] at hchanged
      have hnumbers := slideNumbers_of_changeSlideList hbefore (isSlideList_newList root) hchanged
      rw [slideNumbers, ← entriesOf, entriesOf_newList] at hnumbers
      cases hnumbers

theorem not_unlistable_of_withShown (h : withShown id after root = .ok root') : ¬ Unlistable root f := by
  obtain ⟨_, _, _, numbers, -, hnumbers, -⟩ := shown_of_withShown h
  have hnumbered : ∀ t ∈ shown root, entryNumber? t ≠ none := by
    intro t ht
    obtain ⟨i, hi⟩ := List.mem_iff_getElem?.1 ht
    obtain ⟨n, -, hn⟩ := Sequence.exists_getElem?_of_forall₂ hnumbers hi
    simp [hn]
  rintro (⟨hnone, hn, hplain⟩ | ⟨ht, hid⟩ | ⟨ht, hid, hint⟩)
  · obtain ⟨root₁, hroot₁, -⟩ := Sequence.bind_eq_ok_iff.1 h
    rw [withSlideList, if_pos (tagsOf_sldIdLst_eq_nil_iff.2 hnone)] at hroot₁
    obtain ⟨place, hplace, -⟩ := Sequence.bind_eq_ok_iff.1 hroot₁
    rcases listPlace_eq root.children with ⟨hall, -⟩ | ⟨-, herror⟩
    · exact absurd (hall _ hn) (by simp [hplain])
    · cases herror.symm.trans hplace
  · exact hnumbered _ ht (by rw [entryNumber?, hid, Option.bind_none])
  · exact hnumbered _ ht (by rw [entryNumber?, hid, Option.bind_some, hint])

/-- A slide can be listed, unless one of the faults stands in the way. -/
theorem withShown_ok_iff (id after : Text) (root : Element) :
    (∃ root', withShown id after root = .ok root') ↔ ∀ f, ¬ Unlistable root f := by
  constructor
  · rintro ⟨root', h⟩ f
    exact not_unlistable_of_withShown h
  · intro h
    cases hshown : withShown id after root with
    | ok root' => exact ⟨root', rfl⟩
    | error f => exact absurd (unlistable_of_withShown hshown) (h f)

/-! ### How edits stop -/

/-- Whatever an edit stops with, it stops so. -/
def Edit.Stops {α : Type} (stop : Failure → Package → Prop) (e : Edit α) : Prop :=
  ∀ p r q, e.on p = (.error r, q) → stop r q

/-- A report that says something, or a fault that the list of slides of the package has. -/
def Stopped : Failure → Package → Prop
  | .report r, _ => r.Told
  | .refusal _, _ => False
  | .fault f, p => ∃ d, p.document? presentation = some d ∧ Unlistable d.root f

/-- As `Stopped`; what is reported is that the template is of no use. -/
def Blocked (failure : Failure) (p : Package) : Prop :=
  Stopped failure p ∧ ∀ r, failure = .report r → r.kind = .templateLoad

namespace Edit.Stops

variable {α β : Type} {stop : Failure → Package → Prop}

theorem pure (a : α) : (pure a : Edit α).Stops stop := fun _ _ _ h => by cases h

theorem get : (get : Edit Package).Stops stop := fun _ _ _ h => by cases h

theorem set (p : Package) : (set p : Edit PUnit).Stops stop := fun _ _ _ h => by cases h

theorem modify (f : Package → Package) : (modify f : Edit PUnit).Stops stop := fun _ _ _ h => by cases h

theorem failWith {r : Report} (h : r.Told) (hkind : r.kind = .templateLoad) :
    (failWith r : Edit α).Stops Blocked := by
  rintro p _ q hstop
  obtain ⟨rfl, rfl⟩ : Failure.report r = _ ∧ p = q := by simpa [Edit.failWith] using hstop
  exact ⟨h, fun r' hr' => Failure.report.inj hr' ▸ hkind⟩

theorem bind {e : Edit α} {f : α → Edit β} (he : e.Stops stop) (hf : ∀ a, (f a).Stops stop) :
    (e >>= f).Stops stop := by
  intro p r q h
  rcases on_bind_eq_error h with he' | ⟨a, p', -, hf'⟩
  · exact he p r q he'
  · exact hf a p' r q hf'

end Edit.Stops

theorem read_told {r : Report} (h : p.read name = .error r) : r.Told := by
  rw [read] at h
  split at h
  · cases h
  · obtain rfl := Except.error.inj h
    exact List.cons_ne_nil _ _

theorem read_kind {r : Report} (h : p.read name = .error r) : r.kind = .templateLoad := by
  rw [read] at h
  split at h
  · cases h
  · obtain rfl := Except.error.inj h
    rfl

theorem readDocument_stops (name : Text) : (readDocument name).Stops Blocked := by
  refine Stops.get.bind fun p => ?_
  split
  case h_1 r hr => exact .failWith (read_told hr) (read_kind hr)
  case h_2 bs _ =>
    split
    · exact .pure _
    · exact .failWith (List.cons_ne_nil _ _) rfl

theorem writeDocument_stops (name : Text) (d : Document) : (writeDocument name d).Stops Blocked := .modify _

theorem registerContentType_stops (name : Text) : (registerContentType name).Stops Blocked := by
  refine (readDocument_stops _).bind fun d => ?_
  simp only
  split
  · exact .pure _
  · exact writeDocument_stops _ _

theorem relationshipTo_stops (name : Text) : (relationshipTo name).Stops Blocked :=
  (readDocument_stops _).bind fun _ => .pure _

theorem addRelationship_stops (name : Text) : (addRelationship name).Stops Blocked :=
  (readDocument_stops _).bind fun _ => (writeDocument_stops _ _).bind fun _ => .pure _

theorem copyRelationships_stops (source name : Text) : (copyRelationships source name).Stops Blocked := by
  refine Stops.get.bind fun p => ?_
  split
  · exact .pure _
  · exact (readDocument_stops _).bind fun d => writeDocument_stops _ _

/-- Only the list of slides has faults. -/
theorem addToShow_stops (id after : Text) : (addToShow id after).Stops Blocked := by
  intro p r q h
  rcases on_bind_eq_error h with hread | ⟨d, p', hread, hrest⟩
  · exact readDocument_stops _ p r q hread
  · obtain ⟨rfl, hd⟩ := readDocument_eq_ok hread
    simp only at hrest
    split at hrest
    case h_1 => exact writeDocument_stops _ _ _ _ _ hrest
    case h_2 f hshown =>
      obtain ⟨rfl, rfl⟩ : Failure.fault f = r ∧ p' = q := by simpa using hrest
      exact ⟨⟨d, hd, unlistable_of_withShown hshown⟩, nofun⟩

theorem duplicate_stops (source : Text) (after s : Option Text) : (duplicate source after s).Stops Blocked := by
  unfold duplicate
  refine Stops.get.bind fun p => ?_
  simp only
  split
  case h_2 => exact .failWith (List.cons_ne_nil _ _) rfl
  case h_1 content _ =>
    refine (Stops.set _).bind fun _ => (copyRelationships_stops _ _).bind fun _ =>
      (registerContentType_stops _).bind fun _ => (relationshipTo_stops _).bind fun shownAfter =>
      (addRelationship_stops _).bind fun id => (addToShow_stops _ _).bind fun _ => .pure _

/-! ### What a copy needs -/

end Package

end DeckMerge
