import DeckMerge.Proofs.Association
import DeckMerge.Proofs.Package.Growth
import DeckMerge.Proofs.Xml.Edits

/-!
What the registries say before and after a slide is registered: the parts with content types of their
own, the relationships, and the entries of the list of slides.
-/

namespace DeckMerge

namespace Xml

variable {uri label : Text} {e : Element} {t : Tag} {ns : List Node} {n : Node}

/-- The tag of an element of some name. -/
def Node.tagOf? (uri label : Text) : Node → Option Tag
  | .element t _ => if t.is uri label then some t else none
  | _ => none

theorem tagOf?_element (ht : t.is uri label) : (Node.element t ns).tagOf? uri label = some t := if_pos ht

theorem tagsOf_eq (e : Element) (uri label : Text) :
    e.tagsOf uri label = e.children.filterMap (Node.tagOf? uri label) := by
  rw [Element.tagsOf]
  congr 1

@[simp] theorem tagOf?_fed (n : Node) : n.fed.tagOf? uri label = n.tagOf? uri label := by
  cases n <;> rfl

theorem filterMap_fedAll {α : Type} {f : Node → Option α} (hf : ∀ n : Node, f n.fed = f n) (ns : List Node) :
    (fedAll ns).filterMap f = ns.filterMap f := by
  induction ns with
  | nil => rfl
  | cons n ns ih => rw [fedAll, List.filterMap_cons, List.filterMap_cons, hf, ih]

@[simp] theorem tagsOf_fed (e : Element) (uri label : Text) : e.fed.tagsOf uri label = e.tagsOf uri label := by
  rw [tagsOf_eq, tagsOf_eq]
  exact filterMap_fedAll tagOf?_fed e.children

theorem tagsOf_append (e : Element) (uri label : Text) (as : List (Text × Text)) :
    (e.append uri label as).tagsOf uri label = e.tagsOf uri label ++ [e.appended uri label as] := by
  have htag : (e.appended uri label as).is uri label := ⟨rfl, rfl⟩
  rw [tagsOf_eq, tagsOf_eq, Element.append_eq, List.filterMap_append, List.filterMap_cons, tagOf?_element htag]
  rfl

theorem get?_appended (e : Element) (uri label : Text) (as : List (Text × Text)) (key : Text) :
    (e.appended uri label as).get? [] key = as.lookup key := by
  have hfind : ∀ as : List (Text × Text), ((as.map fun a => plainAttribute a.1 a.2).find? fun a =>
      a.name.uri = [] ∧ a.name.label = key).map (·.value) = as.lookup key := by
    intro as
    induction as with
    | nil => rfl
    | cons a as ih =>
      rw [List.map_cons, List.find?_cons, List.lookup_cons]
      by_cases hkey : a.1 = key
      · simp [plainAttribute, hkey]
      · have hne : (key == a.1) = false := beq_false_of_ne (Ne.symm hkey)
        have hother : decide ((plainAttribute a.1 a.2).name.uri = [] ∧
            (plainAttribute a.1 a.2).name.label = key) = false := by
          simp [plainAttribute, hkey]
        rw [hne, hother]
        exact ih
  exact hfind as

theorem insertAt_eq (n : Node) (i : Nat) (ns : List Node) :
    ∃ before after, ns = before ++ after ∧ insertAt n i ns = before ++ n :: after := by
  fun_induction insertAt n i ns with
  | case1 => exact ⟨[], [], rfl, rfl⟩
  | case2 i s ns ih =>
    obtain ⟨before, after, rfl, heq⟩ := ih
    exact ⟨.text s :: before, after, rfl, by rw [heq]; rfl⟩
  | case3 m ns hm => exact ⟨[], m :: ns, rfl, rfl⟩
  | case4 i m ns hm ih =>
    obtain ⟨before, after, rfl, heq⟩ := ih
    exact ⟨m :: before, after, rfl, by rw [heq]; rfl⟩

theorem sound_append {as : List (Text × Text)} (he : (e : Node).Sound [] 0) (huri : IsNamespace uri)
    (hlabel : isPlainName label) (has : IsAttributes as) : (e.append uri label as : Node).Sound [] 0 := by
  obtain ⟨hdepth, htag, hchildren⟩ := he
  have hnew := (e.chosen_appended htag.plain huri hlabel has).sound
  rw [Element.append_eq]
  rw [List.append_nil] at hchildren
  refine ⟨hdepth, htag, ?_⟩
  rw [List.append_nil]
  exact hchildren.append ⟨by decide, hnew, trivial⟩ rfl

end Xml

namespace Package

open Xml (Element Node Tag Document)

variable {root root' list list' : Element} {name id after : Text} {ns ns' : List Node}

theorem isNamespace_contentTypes : Xml.IsNamespace Uri.contentTypes :=
  ⟨by decide, by decide, by decide, by decide, by decide⟩

theorem isNamespace_relationships : Xml.IsNamespace Uri.relationships :=
  ⟨by decide, by decide, by decide, by decide, by decide⟩

theorem isNamespace_presentation : Xml.IsNamespace Uri.presentation :=
  ⟨by decide, by decide, by decide, by decide, by decide⟩

theorem isNamespace_references : Xml.IsNamespace Uri.references :=
  ⟨by decide, by decide, by decide, by decide, by decide⟩

/-! ### Content types and relationships -/

theorem isKeys_override : Xml.IsKeys ["PartName".toList, "ContentType".toList] :=
  ⟨by decide, by decide, by decide⟩

theorem isKeys_relationship : Xml.IsKeys ["Id".toList, "Type".toList, "Target".toList] :=
  ⟨by decide, by decide, by decide⟩

/-- The tag that registers the content type of a slide. -/
def overrideTag (name : Text) (root : Element) : Tag :=
  root.appended Uri.contentTypes "Override" [("PartName", '/' :: name), ("ContentType", slideContentType)]

theorem get?_overrideTag (name : Text) (root : Element) :
    (overrideTag name root).get? [] "PartName" = some ('/' :: name) ∧
      (overrideTag name root).get? [] "ContentType" = some slideContentType := by
  rw [overrideTag, Xml.get?_appended, Xml.get?_appended]
  exact ⟨rfl, rfl⟩

theorem tagsOf_withOverride (name : Text) (root : Element) :
    (withOverride name root).tagsOf Uri.contentTypes "Override" =
      root.tagsOf Uri.contentTypes "Override" ++ [overrideTag name root] :=
  Xml.tagsOf_append _ _ _ _

theorem relationships_withRelationship (id name : Text) (root : Element) :
    relationships (withRelationship id name root) =
      relationships root ++ [⟨id, slideRelationship, targetOf name⟩] := by
  rw [relationships, withRelationship, Xml.tagsOf_append, List.map_append, ← relationships]
  congr 1

@[simp] theorem relationships_fed (root : Element) : relationships root.fed = relationships root := by
  rw [relationships, Xml.tagsOf_fed, relationships]

theorem sound_withOverride (hroot : (root : Node).Sound [] 0) (hname : name.all Xml.isLegal) :
    (withOverride name root : Node).Sound [] 0 := by
  have hlegal : slideContentType.all Xml.isLegal := by decide
  have hpath : ('/' :: name).all Xml.isLegal := by
    rw [List.all_cons, hname]
    decide
  refine Xml.sound_append hroot isNamespace_contentTypes (by decide) ⟨isKeys_override, ?_⟩
  exact List.forall_mem_cons.2 ⟨hpath, List.forall_mem_cons.2 ⟨hlegal, by simp⟩⟩

theorem sound_withRelationship (hroot : (root : Node).Sound [] 0) (hid : id.all Xml.isLegal)
    (hname : name.all Xml.isLegal) : (withRelationship id name root : Node).Sound [] 0 := by
  have hlegal : slideRelationship.all Xml.isLegal := by decide
  have htarget : (targetOf name).all Xml.isLegal := by
    rw [List.all_eq_true] at hname ⊢
    exact fun c hc => hname c (List.mem_of_mem_drop hc)
  refine Xml.sound_append hroot isNamespace_relationships (by decide) ⟨isKeys_relationship, ?_⟩
  exact List.forall_mem_cons.2 ⟨hid, List.forall_mem_cons.2 ⟨hlegal,
    List.forall_mem_cons.2 ⟨htarget, by simp⟩⟩⟩

/-! ### The list of slides -/

/-- The list of slides that a node is. -/
def listOf? : Node → Option Element
  | .element t ns => if isSlideList t then some ⟨t, ns⟩ else none
  | _ => none

/-- The first list of slides. -/
def slideList? (root : Element) : Option Element := root.children.findSome? listOf?

/-- The entries of a list of slides. -/
def entriesOf (list : Element) : List Tag := list.tagsOf Uri.presentation "sldId"

/-- The entries of the first list of slides. -/
def shown (root : Element) : List Tag := ((slideList? root).map entriesOf).getD []

/-- The number of an entry. -/
def entryNumber? (t : Tag) : Option Int := (t.get? [] "id").bind Text.readInt?

/-- The relationship that an entry refers to. -/
def reference? (t : Tag) : Option Text := t.get? Uri.references "id"

theorem listOf?_eq_some_iff {n : Node} : listOf? n = some list ↔ n = list ∧ isSlideList list.tag := by
  cases n with
  | element t ns =>
    rw [listOf?, Option.ite_none_right_eq_some]
    constructor
    · rintro ⟨ht, heq⟩
      obtain rfl := Option.some.inj heq
      exact ⟨rfl, ht⟩
    · rintro ⟨heq, ht⟩
      obtain ⟨rfl, rfl⟩ := Node.element.inj heq
      exact ⟨ht, rfl⟩
  | _ => simp [listOf?]

theorem slideList?_eq_some_iff : slideList? root = some list ↔ ∃ before after,
    root.children = before ++ (list : Node) :: after ∧ (∀ n ∈ before, listOf? n = none) ∧
      isSlideList list.tag := by
  rw [slideList?, List.findSome?_eq_some_iff]
  constructor
  · rintro ⟨before, n, after, heq, hn, hbefore⟩
    obtain ⟨rfl, ht⟩ := listOf?_eq_some_iff.1 hn
    exact ⟨before, after, heq, hbefore, ht⟩
  · rintro ⟨before, after, heq, hbefore, ht⟩
    exact ⟨before, list, after, heq, listOf?_eq_some_iff.2 ⟨rfl, ht⟩, hbefore⟩

theorem tagsOf_sldIdLst_eq_nil_iff :
    root.tagsOf Uri.presentation "sldIdLst" = [] ↔ slideList? root = none := by
  rw [Xml.tagsOf_eq, slideList?, List.filterMap_eq_nil_iff, List.findSome?_eq_none_iff]
  refine forall₂_congr fun n _ => ?_
  cases n with
  | element t ns =>
    by_cases ht : t.is Uri.presentation "sldIdLst"
    · have hlist : isSlideList t := decide_eq_true ht
      rw [Node.tagOf?, if_pos ht, listOf?, if_pos hlist]
      exact iff_of_false (Option.some_ne_none _) (Option.some_ne_none _)
    · have hlist : ¬ isSlideList t := by rwa [isSlideList, decide_eq_true_iff]
      rw [Node.tagOf?, if_neg ht, listOf?, if_neg hlist]
      exact iff_of_true rfl rfl
  | _ => exact iff_of_true rfl rfl

theorem slideNumbers_eq_ok {numbers : List Int} (h : slideNumbers list = .ok numbers) :
    List.Forall₂ (fun t n => entryNumber? t = some n) (entriesOf list) numbers := by
  rw [slideNumbers, Sequence.mapM_eq_ok_iff] at h
  refine h.imp fun t n htn => ?_
  split at htn
  case h_1 => cases htn
  case h_2 s hs =>
    split at htn
    case h_2 => cases htn
    case h_1 m hm =>
      obtain rfl := Except.ok.inj htn
      rw [entryNumber?, hs, Option.bind_some, hm]

/-- The number of a new entry. -/
def nextSlideNumber (numbers : List Int) : Int := numbers.foldl max (leastSlideNumber - 1) + 1

/-- The tag of a new entry. -/
def entryTag (scope : Xml.Declarations) (number : Int) (id : Text) : Tag :=
  (Tag.settled scope Uri.presentation "sldId" [Xml.plainAttribute "id" (Text.ofInt number)]).settleAttribute
    scope Uri.references "id" id

/-- A list of slides with a new entry. -/
def withEntry (scope : Xml.Declarations) (number : Int) (id after : Text) (list : Element) : Element :=
  ⟨list.tag, Xml.insertAt (.element (entryTag (list.tag.declarations ++ scope) number id) [])
    (placeAfter after list.children) list.children⟩

/-- The list of slides that a root is given. -/
def newList (root : Element) : Element :=
  ⟨Tag.settled root.tag.declarations Uri.presentation "sldIdLst" [], []⟩

theorem listSlide_eq_ok {scope : Xml.Declarations} (h : listSlide scope id after list = .ok list') :
    ∃ numbers, slideNumbers list = .ok numbers ∧
      list' = withEntry scope (nextSlideNumber numbers) id after list := by
  obtain ⟨numbers, hnumbers, h⟩ := Sequence.bind_eq_ok_iff.1 h
  exact ⟨numbers, hnumbers, (Except.ok.inj h).symm⟩

/-- The first list of slides is changed, and nothing else. -/
theorem changeSlideList_append {f : Element → Except Fault Element} {before : List Node}
    (hbefore : ∀ n ∈ before, listOf? n = none) (hlist : isSlideList list.tag) (behind : List Node) :
    changeSlideList f (before ++ (list : Node) :: behind) =
      (f list).map fun list' => before ++ (list' : Node) :: behind := by
  induction before with
  | nil =>
    rw [List.nil_append, changeSlideList, if_pos hlist]
    cases f list <;> rfl
  | cons n before ih =>
    obtain ⟨hn, hbefore⟩ := List.forall_mem_cons.1 hbefore
    have hmore := ih hbefore
    cases n with
    | element t children =>
      have ht : ¬ isSlideList t := fun ht => by rw [listOf?, if_pos ht] at hn; cases hn
      rw [List.cons_append, changeSlideList, if_neg ht, hmore]
      cases f list <;> rfl
    | _ =>
      rw [List.cons_append, changeSlideList, hmore]
      · cases f list <;> rfl
      · simp

theorem isSlideList_newList (root : Element) : isSlideList (newList root).tag := by
  rw [newList, Tag.settled]
  exact decide_eq_true ⟨rfl, rfl⟩

theorem withSlideList_eq_ok (h : withSlideList root = .ok root') :
    root' = root ∧ slideList? root ≠ none ∨ slideList? root = none ∧ ∃ place,
      root' = ⟨root.tag, Xml.insertAt (newList root : Node) place root.children⟩ := by
  rw [withSlideList] at h
  split at h
  case isTrue hnone =>
    obtain ⟨place, -, h⟩ := Sequence.bind_eq_ok_iff.1 h
    exact .inr ⟨tagsOf_sldIdLst_eq_nil_iff.1 hnone, place, (Except.ok.inj h).symm⟩
  case isFalse hsome => exact .inl ⟨(Except.ok.inj h).symm, mt tagsOf_sldIdLst_eq_nil_iff.2 hsome⟩

/-- A list of slides between some children of a root: one that is there, or one that is put in. -/
inductive Stands (root : Element) : List Node → Element → List Node → Prop
  | found {before behind : List Node} {list : Element} :
    root.children = before ++ (list : Node) :: behind → Stands root before list behind
  | put {before behind : List Node} : slideList? root = none → root.children = before ++ behind →
    Stands root before (newList root) behind

theorem exists_of_withShown (h : withShown id after root = .ok root') :
    ∃ (before : List Node) (list : Element) (behind : List Node) (numbers : List Int),
      Stands root before list behind ∧ (∀ n ∈ before, listOf? n = none) ∧ isSlideList list.tag ∧
      slideNumbers list = .ok numbers ∧ root' = ⟨root.tag, before ++
        (withEntry root.tag.declarations (nextSlideNumber numbers) id after list : Node) :: behind⟩ := by
  obtain ⟨root₁, hroot₁, h⟩ := Sequence.bind_eq_ok_iff.1 h
  obtain ⟨children, hchanged, h⟩ := Sequence.bind_eq_ok_iff.1 h
  obtain rfl := Except.ok.inj h
  have hlist : ∃ (before : List Node) (list : Element) (behind : List Node),
      Stands root before list behind ∧ (∀ n ∈ before, listOf? n = none) ∧ isSlideList list.tag ∧ root₁.tag = root.tag ∧
      root₁.children = before ++ (list : Node) :: behind := by
    rcases withSlideList_eq_ok hroot₁ with ⟨rfl, hsome⟩ | ⟨hnone, place, rfl⟩
    · obtain ⟨list, hlist⟩ := Option.ne_none_iff_exists'.1 hsome
      obtain ⟨before, behind, heq, hbefore, ht⟩ := slideList?_eq_some_iff.1 hlist
      exact ⟨before, list, behind, .found heq, hbefore, ht, rfl, heq⟩
    · obtain ⟨before, behind, heq, hinserted⟩ := Xml.insertAt_eq (newList root : Node) place root.children
      have hbefore : ∀ n ∈ before, listOf? n = none := by
        intro n hn
        refine List.findSome?_eq_none_iff.1 hnone n ?_
        rw [heq]
        exact List.mem_append_left _ hn
      exact ⟨before, newList root, behind, .put hnone heq, hbefore, isSlideList_newList root, rfl, hinserted⟩
  obtain ⟨before, list, behind, hplace, hbefore, ht, htag, hchildren⟩ := hlist
  rw [hchildren, changeSlideList_append hbefore ht, htag] at hchanged
  cases hlisted : listSlide root.tag.declarations id after list with
  | error => rw [hlisted] at hchanged; cases hchanged
  | ok list' =>
    rw [hlisted] at hchanged
    obtain rfl := Except.ok.inj hchanged
    obtain ⟨numbers, hnumbers, rfl⟩ := listSlide_eq_ok hlisted
    exact ⟨before, list, behind, numbers, hplace, hbefore, ht, hnumbers, by rw [htag]⟩

/-! ### The new entry -/

theorem attributes_entryTag (scope : Xml.Declarations) (number : Int) (id : Text) :
    ∃ pfx, (entryTag scope number id).attributes =
      [Xml.plainAttribute "id" (Text.ofInt number), ⟨⟨pfx, "id", Uri.references⟩, id⟩] := ⟨_, rfl⟩

theorem is_entryTag (scope : Xml.Declarations) (number : Int) (id : Text) :
    (entryTag scope number id).is Uri.presentation "sldId" := ⟨rfl, rfl⟩

theorem reference?_entryTag (scope : Xml.Declarations) (number : Int) (id : Text) :
    reference? (entryTag scope number id) = some id := by
  obtain ⟨pfx, heq⟩ := attributes_entryTag scope number id
  have hplain : ([] : Text) ≠ Uri.references := by decide
  rw [reference?, Tag.get?, heq, List.find?_cons_of_neg (by simp [Xml.plainAttribute, hplain]),
    List.find?_cons_of_pos (by simp)]
  rfl

theorem entryNumber?_entryTag (scope : Xml.Declarations) {number : Int} (hnumber : 0 ≤ number) (id : Text) :
    entryNumber? (entryTag scope number id) = some number := by
  obtain ⟨pfx, heq⟩ := attributes_entryTag scope number id
  obtain ⟨n, rfl⟩ := Int.eq_ofNat_of_zero_le hnumber
  rw [entryNumber?, Tag.get?, heq, List.find?_cons_of_pos (by simp [Xml.plainAttribute])]
  exact Text.readInt?_ofNat n

theorem leastSlideNumber_le_nextSlideNumber (numbers : List Int) : leastSlideNumber ≤ nextSlideNumber numbers := by
  have hleast : leastSlideNumber - 1 ≤ numbers.foldl max (leastSlideNumber - 1) :=
    le_foldl_max (.inr (Int.le_refl _))
  rw [nextSlideNumber]
  omega

theorem lt_nextSlideNumber {numbers : List Int} {n : Int} (h : n ∈ numbers) : n < nextSlideNumber numbers :=
  Int.lt_add_one_iff.2 (le_foldl_max (.inl h))

theorem shown_eq_of_slideList? (h : slideList? root = some list) : shown root = entriesOf list := by
  rw [shown, h]
  rfl

theorem entriesOf_newList (root : Element) : entriesOf (newList root) = [] := by
  rw [entriesOf, Xml.tagsOf_eq]
  rfl

theorem entriesOf_withEntry (scope : Xml.Declarations) (number : Int) (id after : Text) (list : Element) :
    ∃ before behind, entriesOf list = before ++ behind ∧ entriesOf (withEntry scope number id after list) =
      before ++ entryTag (list.tag.declarations ++ scope) number id :: behind := by
  let entry : Node := .element (entryTag (list.tag.declarations ++ scope) number id) []
  obtain ⟨before, behind, hchildren, hinserted⟩ :=
    Xml.insertAt_eq entry (placeAfter after list.children) list.children
  refine ⟨before.filterMap (Node.tagOf? Uri.presentation "sldId"),
    behind.filterMap (Node.tagOf? Uri.presentation "sldId"), ?_, ?_⟩
  · rw [entriesOf, Xml.tagsOf_eq, hchildren, List.filterMap_append]
  · rw [entriesOf, Xml.tagsOf_eq]
    change (Xml.insertAt entry _ list.children).filterMap _ = _
    rw [hinserted, List.filterMap_append, List.filterMap_cons, Xml.tagOf?_element (is_entryTag _ _ _)]

/-- One entry is put in, with a number above all others. -/
theorem shown_of_withShown (h : withShown id after root = .ok root') :
    ∃ scope before behind numbers, shown root = before ++ behind ∧
      List.Forall₂ (fun t n => entryNumber? t = some n) (shown root) numbers ∧
      shown root' = before ++ entryTag scope (nextSlideNumber numbers) id :: behind := by
  obtain ⟨front, list, back, numbers, hplace, hfront, ht, hnumbers, rfl⟩ := exists_of_withShown h
  have hshown : shown root = entriesOf list := by
    cases hplace with
    | found heq => exact shown_eq_of_slideList? (slideList?_eq_some_iff.2 ⟨front, back, heq, hfront, ht⟩)
    | put hnone =>
      rw [entriesOf_newList, shown, hnone]
      rfl
  have hshown' := shown_eq_of_slideList? (@slideList?_eq_some_iff
    ⟨root.tag, front ++ (withEntry root.tag.declarations (nextSlideNumber numbers) id after list : Node) :: back⟩ _
    |>.2 ⟨front, back, rfl, hfront, ht⟩)
  obtain ⟨before, behind, hbefore, hentry⟩ :=
    entriesOf_withEntry root.tag.declarations (nextSlideNumber numbers) id after list
  rw [hshown', hshown]
  exact ⟨_, before, behind, numbers, hbefore, slideNumbers_eq_ok hnumbers, hentry⟩

/-! ### Soundness of the list -/

theorem all_isLegal_ofNat (n : Nat) : (Text.ofNat n).all Xml.isLegal := by
  rw [List.all_eq_true]
  intro c hc
  have hbounds : 48 ≤ c.toNat ∧ c.toNat ≤ 57 := Char.isDigit_iff_toNat.1 (Text.isDigit_of_mem_ofNat hc)
  simp only [Xml.isLegal, Markup.isLegal, Bool.or_eq_true, Bool.and_eq_true, decide_eq_true_eq]
  omega

/-- The first numbered prefix, which an entry may declare for its reference, does not stand for the
namespace that the entry itself is in. -/
structure Unshadowed (root : Element) : Prop where
  onRoot : (Xml.numberedPrefix 1, Uri.presentation) ∉ root.tag.declarations
  onLists : ∀ t ∈ root.tagsOf Uri.presentation "sldIdLst", (Xml.numberedPrefix 1, Uri.presentation) ∉ t.declarations

instance (root : Element) : Decidable (Unshadowed root) :=
  decidable_of_iff
    ((Xml.numberedPrefix 1, Uri.presentation) ∉ root.tag.declarations ∧
      ∀ t ∈ root.tagsOf Uri.presentation "sldIdLst", (Xml.numberedPrefix 1, Uri.presentation) ∉ t.declarations)
    ⟨fun h => ⟨h.1, h.2⟩, fun h => ⟨h.onRoot, h.onLists⟩⟩

theorem tagsOf_of_children {before behind : List Node} (hlist : isSlideList list.tag)
    (h : root.children = before ++ (list : Node) :: behind) :
    root.tagsOf Uri.presentation "sldIdLst" = before.filterMap (Node.tagOf? Uri.presentation "sldIdLst") ++
      list.tag :: behind.filterMap (Node.tagOf? Uri.presentation "sldIdLst") := by
  rw [Xml.tagsOf_eq, h, List.filterMap_append, List.filterMap_cons,
    Xml.tagOf?_element (of_decide_eq_true hlist)]

theorem declarations_newList (root : Element) : (newList root).tag.declarations = [] ∨
    (newList root).tag.declarations = [(Xml.numberedPrefix 0, Uri.presentation)] := by
  rw [newList, Tag.settled, Xml.Declarations.settle]
  cases root.tag.declarations.prefixFor? Uri.presentation with
  | some pfx => exact .inl rfl
  | none => exact .inr rfl

theorem notMem_declarations_newList (root : Element) :
    (Xml.numberedPrefix 1, Uri.presentation) ∉ (newList root).tag.declarations := by
  have hne : Xml.numberedPrefix 1 ≠ Xml.numberedPrefix 0 := Xml.numberedPrefix_injective.ne (by decide)
  rcases declarations_newList root with heq | heq <;> simp [heq, hne]

theorem sound_newList (hroot : root.tag.Sound []) : (newList root : Node).Sound root.tag.declarations 1 := by
  have hsettles := @Xml.settles_settle root.tag.declarations Uri.presentation _ hroot.plain
    (Xml.isPrefix_numberedPrefix 0)
  have hnone : Xml.IsAttributes [] := ⟨⟨by simp, by simp, by simp⟩, by simp⟩
  have hchosen : (newList root).tag.Chosen root.tag.declarations :=
    .of_plain hsettles isNamespace_presentation (by decide) hnone
  exact ⟨by decide, hchosen.sound, trivial⟩

theorem isKeys_entry : Xml.IsKeys ["id".toList] := ⟨by decide, by decide, by decide⟩

theorem sound_entryTag {scope : Xml.Declarations} {number : Int} (hscope : scope.Plain)
    (hnamed : (scope.prefixFor? Uri.presentation).isSome)
    (hnumbered : (Xml.numberedPrefix 1, Uri.presentation) ∉ scope) (hnumber : 0 ≤ number)
    (hid : id.all Xml.isLegal) : (entryTag scope number id).Sound scope := by
  obtain ⟨n, rfl⟩ := Int.eq_ofNat_of_zero_le hnumber
  have has : Xml.IsAttributes [("id", Text.ofNat n)] :=
    ⟨isKeys_entry, by simpa using all_isLegal_ofNat n⟩
  obtain ⟨ds, pfx, q, heq, hchosen⟩ := Xml.chosen_settleAttribute hscope hnamed hnumbered
    isNamespace_presentation isNamespace_references (show Xml.isPlainName "sldId" by decide)
    (show Xml.isPlainName "id" by decide) hid has
  have htag := hchosen.sound
  rw [← heq] at htag
  exact htag

theorem sound_withEntry {scope : Xml.Declarations} {number : Int} (hscope : scope.Plain)
    (hlist : (list : Node).Sound scope 1) (ht : isSlideList list.tag)
    (hnumbered : (Xml.numberedPrefix 1, Uri.presentation) ∉ list.tag.declarations ++ scope)
    (hnumber : 0 ≤ number) (hid : id.all Xml.isLegal) :
    (withEntry scope number id after list : Node).Sound scope 1 := by
  obtain ⟨hdepth, htag, hchildren⟩ := hlist
  have hnamed := Xml.prefixFor?_isSome_of_sound htag (of_decide_eq_true ht).1
    isNamespace_presentation.ne_nil isNamespace_presentation.notXml
  have hentry := sound_entryTag (htag.plain.append hscope) hnamed hnumbered hnumber hid
  have hnode : (Node.element (entryTag (list.tag.declarations ++ scope) number id) []).Sound
      (list.tag.declarations ++ scope) 2 := ⟨by decide, hentry, trivial⟩
  exact ⟨hdepth, htag, hchildren.insertAt hnode rfl _⟩

theorem Unshadowed.notMem {before behind : List Node} (h : Unshadowed root)
    (hplace : Stands root before list behind) (hlist : isSlideList list.tag) :
    (Xml.numberedPrefix 1, Uri.presentation) ∉ list.tag.declarations := by
  cases hplace with
  | found heq =>
    refine h.onLists _ ?_
    rw [tagsOf_of_children hlist heq]
    exact List.mem_append_right _ List.mem_cons_self
  | put => exact notMem_declarations_newList root

theorem unshadowed_of_withShown (hunshadowed : Unshadowed root) (h : withShown id after root = .ok root') :
    Unshadowed root' := by
  obtain ⟨front, list, back, numbers, hplace, -, ht, -, rfl⟩ := exists_of_withShown h
  have hlist := hunshadowed.notMem hplace ht
  have hold : ∀ t, t ∈ front.filterMap (Node.tagOf? Uri.presentation "sldIdLst") ∨
      t ∈ back.filterMap (Node.tagOf? Uri.presentation "sldIdLst") →
      t ∈ root.tagsOf Uri.presentation "sldIdLst" := by
    intro t hmem
    cases hplace with
    | found heq =>
      rw [tagsOf_of_children ht heq, List.mem_append, List.mem_cons]
      exact hmem.imp_right .inr
    | put _ heq =>
      rw [Xml.tagsOf_eq, heq, List.filterMap_append, List.mem_append]
      exact hmem
  refine ⟨hunshadowed.onRoot, fun t hmem => ?_⟩
  rw [@tagsOf_of_children _ (withEntry root.tag.declarations (nextSlideNumber numbers) id after list) _ _ ht rfl,
    List.mem_append, List.mem_cons] at hmem
  rcases hmem with hmem | rfl | hmem
  · exact hunshadowed.onLists t (hold t (.inl hmem))
  · exact hlist
  · exact hunshadowed.onLists t (hold t (.inr hmem))

/-- A document stays sound when a slide is listed in it. -/
theorem sound_withShown (hroot : (root : Node).Sound [] 0) (hunshadowed : Unshadowed root)
    (hid : id.all Xml.isLegal) (h : withShown id after root = .ok root') : (root' : Node).Sound [] 0 := by
  obtain ⟨front, list, back, numbers, hplace, -, ht, -, rfl⟩ := exists_of_withShown h
  obtain ⟨hdepth, htag, hchildren⟩ := hroot
  rw [List.append_nil] at hchildren
  have hnumber : 0 ≤ nextSlideNumber numbers :=
    Int.le_trans (by decide) (leastSlideNumber_le_nextSlideNumber numbers)
  have hlist : (list : Node).Sound root.tag.declarations 1 := by
    cases hplace with
    | found heq =>
      rw [heq] at hchildren
      exact hchildren.of_mem (List.mem_append_right _ List.mem_cons_self)
    | put => exact sound_newList htag
  have hnumbered : (Xml.numberedPrefix 1, Uri.presentation) ∉ list.tag.declarations ++ root.tag.declarations :=
    List.mem_append.not.2 (not_or.2 ⟨hunshadowed.notMem hplace ht, hunshadowed.onRoot⟩)
  have hnew := @sound_withEntry list id after _ _ htag.plain hlist ht hnumbered hnumber hid
  refine ⟨hdepth, htag, ?_⟩
  rw [List.append_nil]
  cases hplace with
  | found heq =>
    rw [heq] at hchildren
    exact hchildren.replace hnew rfl
  | put _ heq =>
    rw [heq] at hchildren
    exact hchildren.insert hnew rfl

/-! ### As it is read back -/

theorem listOf?_fed (n : Node) : listOf? n.fed = (listOf? n).map Element.fed := by
  cases n with
  | element t ns =>
    rw [Node.fed, listOf?, listOf?]
    split <;> rfl
  | _ => rfl

theorem slideList?_fed (root : Element) : slideList? root.fed = (slideList? root).map Element.fed := by
  have hall : ∀ ns : List Node, (Xml.fedAll ns).findSome? listOf? = (ns.findSome? listOf?).map Element.fed := by
    intro ns
    induction ns with
    | nil => rfl
    | cons n ns ih =>
      rw [Xml.fedAll, List.findSome?_cons, List.findSome?_cons, listOf?_fed]
      cases listOf? n with
      | none => exact ih
      | some list => rfl
  exact hall root.children

@[simp] theorem shown_fed (root : Element) : shown root.fed = shown root := by
  rw [shown, shown, slideList?_fed, Option.map_map]
  congr 2
  exact funext fun list => Xml.tagsOf_fed list _ _

theorem Unshadowed.fed (h : Unshadowed root) : Unshadowed root.fed := by
  refine ⟨h.onRoot, ?_⟩
  rw [Xml.tagsOf_fed]
  exact h.onLists

end Package

end DeckMerge
