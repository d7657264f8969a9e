import DeckMerge.Proofs.Association
import DeckMerge.Proofs.Xml.NewTag
import DeckMerge.Proofs.Xml.Rewriting

/-!
Edits of documents: the tags that are put in resolve where they are put, and what was sound stays so.
-/

namespace DeckMerge.Xml

variable {scope ds : Declarations} {pfx uri label value : Text} {depth : Nat} {n : Node}
  {ns : List Node} {t : Tag} {e : Element}

/-! ### Prefixes that are settled -/

/-- A prefix for a namespace in a scope, with the declaration that it may need. -/
structure Settles (scope : Declarations) (uri : Text) (declared : Declarations) (pfx : Text) : Prop where
  declared_eq : declared = [] ∨ declared = [(pfx, uri)] ∧ IsPrefix pfx
  names : Declarations.Names (declared ++ scope) pfx uri

theorem Settles.of_found (hscope : scope.Plain) (h : scope.prefixFor? uri = some pfx) :
    Settles scope uri [] pfx := ⟨.inl rfl, hscope.names_of_prefixFor? h⟩

theorem Settles.of_declared (hpfx : IsPrefix pfx) : Settles scope uri [(pfx, uri)] pfx :=
  ⟨.inr ⟨rfl, hpfx⟩, by simp, .inr hpfx⟩

theorem Settles.declared (h : Settles scope uri ds pfx) (huri : IsNamespace uri) :
    (∀ d ∈ ds, IsPrefix d.1 ∧ IsNamespace d.2) ∧ ds.length ≤ 1 := by
  rcases h.declared_eq with rfl | ⟨rfl, hpfx⟩
  · simp
  · simpa using ⟨hpfx, huri⟩

theorem settles_settle {p : Text} (hscope : scope.Plain) (hp : IsPrefix p) :
    Settles scope uri (scope.settle p uri).1 (scope.settle p uri).2 := by
  rw [Declarations.settle]
  cases hfound : scope.prefixFor? uri with
  | some pfx => exact .of_found hscope hfound
  | none => exact .of_declared hp

/-! ### Children put last -/

/-- Names of attributes in no namespace: plain, and each once. -/
structure IsKeys (keys : List Text) : Prop where
  plain : ∀ key ∈ keys, isPlainName key
  notXmlns : "xmlns".toList ∉ keys
  distinct : keys.Nodup

/-- Attributes in no namespace with values that may be written. -/
structure IsAttributes (as : List (Text × Text)) : Prop where
  keys : IsKeys (as.map Prod.fst)
  legal : ∀ a ∈ as, a.2.all isLegal

theorem IsAttributes.plain {as : List (Text × Text)} (h : IsAttributes as) {a : Text × Text} (ha : a ∈ as) :
    isPlainName a.1 := h.keys.plain a.1 (List.mem_map_of_mem ha)

theorem IsAttributes.notXmlns {as : List (Text × Text)} (h : IsAttributes as) {a : Text × Text}
    (ha : a ∈ as) : a.1 ≠ "xmlns".toList := fun heq => h.keys.notXmlns (heq ▸ List.mem_map_of_mem ha)

/-- The tag of a child that is put last. -/
def Element.appended (e : Element) (uri label : Text) (as : List (Text × Text)) : Tag :=
  let chosen := match e.tag.declarations.prefixFor? uri with
    | some pfx => ([], pfx)
    | none => ([(e.tag.declarations.fresh, uri)], e.tag.declarations.fresh)
  ⟨chosen.1, ⟨chosen.2, label, uri⟩, as.map fun a => plainAttribute a.1 a.2⟩

theorem Element.append_eq (e : Element) (uri label : Text) (as : List (Text × Text)) :
    e.append uri label as = ⟨e.tag, e.children ++ [.element (e.appended uri label as) []]⟩ := rfl

theorem Tag.Chosen.of_plain {as : List (Text × Text)} (h : Settles scope uri ds pfx)
    (huri : IsNamespace uri) (hlabel : isPlainName label) (has : IsAttributes as) :
    Tag.Chosen scope ⟨ds, ⟨pfx, label, uri⟩, as.map fun a => plainAttribute a.1 a.2⟩ := by
  obtain ⟨hdeclared, hsingle⟩ := h.declared huri
  refine ⟨hdeclared, hsingle, ⟨hlabel, h.names⟩, ?_, ?_, ?_, ?_, ?_⟩
  · intro a ha
    obtain ⟨b, hb, rfl⟩ := List.mem_map.1 ha
    exact .plain (has.plain hb) (has.notXmlns hb)
  · intro a ha
    obtain ⟨b, hb, rfl⟩ := List.mem_map.1 ha
    exact has.legal b hb
  · have hnames : (attributePairs (as.map fun a => plainAttribute a.1 a.2)).map Prod.fst = as.map Prod.fst := by
      rw [attributePairs, List.map_map, List.map_map]
      rfl
    rw [hnames]
    exact has.keys.distinct
  · rw [List.pairwise_map]
    exact List.pairwise_of_forall fun _ _ hne => absurd rfl hne
  · intro a ha
    obtain ⟨b, -, rfl⟩ := List.mem_map.1 ha
    exact (by decide : ([] : Text) ≠ xmlNamespace)

theorem Element.chosen_appended {as : List (Text × Text)} (hscope : e.tag.declarations.Plain)
    (huri : IsNamespace uri) (hlabel : isPlainName label) (has : IsAttributes as) :
    (e.appended uri label as).Chosen e.tag.declarations := by
  refine .of_plain ?_ huri hlabel has
  cases hfound : e.tag.declarations.prefixFor? uri with
  | some pfx => exact .of_found hscope hfound
  | none =>
    obtain ⟨n, hn, -⟩ := exists_fresh e.tag.declarations
    exact .of_declared (hn ▸ isPrefix_numberedPrefix n)

/-! ### References from attributes -/

theorem IsPrefix.ne_nil (h : IsPrefix pfx) : pfx ≠ [] := by
  rintro rfl
  cases h.plain

/-- The attribute that is added has a prefix that stands for its namespace. If the prefix is declared for
it, then it is the first numbered one, or a fresh one. -/
theorem settleAttribute_eq (hscope : scope.Plain) (ht : t.declarations = []) : ∃ ds pfx,
    t.settleAttribute scope uri label value =
      ⟨ds, t.name, t.attributes ++ [⟨⟨pfx, label, uri⟩, value⟩]⟩ ∧
    Settles scope uri ds pfx ∧ pfx ≠ [] ∧ (ds = [] ∨ pfx = numberedPrefix 1 ∨ scope.lookup pfx = none) := by
  have hnumbered := isPrefix_numberedPrefix 1
  simp only [Tag.settleAttribute, Declarations.settle, ht, List.nil_append]
  cases hfound : scope.prefixFor? uri with
  | none =>
    exact ⟨_, _, by simp only [if_neg hnumbered.ne_nil], .of_declared hnumbered, hnumbered.ne_nil, .inr (.inl rfl)⟩
  | some p =>
    by_cases hp : p = []
    case neg => exact ⟨[], p, by simp only [if_neg hp], .of_found hscope hfound, hp, .inl rfl⟩
    simp only [if_pos hp]
    cases hnamed : scope.namedFor? uri with
    | some q =>
      obtain ⟨hne, hnames⟩ := hscope.names_of_namedFor? hnamed
      exact ⟨[], q, rfl, ⟨.inl rfl, hnames⟩, hne, .inl rfl⟩
    | none =>
      obtain ⟨n, hfresh, hnone⟩ := exists_fresh scope
      have hnumber := isPrefix_numberedPrefix n
      simp only [hfresh]
      split
      case isTrue => exact ⟨_, _, rfl, .of_declared hnumbered, hnumbered.ne_nil, .inr (.inl rfl)⟩
      case isFalse => exact ⟨_, _, rfl, .of_declared hnumber, hnumber.ne_nil, .inr (.inr hnone)⟩

theorem mem_of_prefixFor? (h : scope.prefixFor? uri = some pfx) : (pfx, uri) ∈ scope := by
  obtain ⟨d, hd, rfl⟩ := Option.map_eq_some_iff.1 h
  obtain ⟨rfl, -⟩ : d.2 = uri ∧ scope.isVisible d := by simpa using List.find?_some hd
  exact List.mem_of_find?_eq_some hd

/-- The namespace of a tag has a prefix inside it. -/
theorem prefixFor?_isSome_of_sound (ht : t.Sound scope)
    (huri : t.name.uri = uri) (hne : uri ≠ []) (hxml : uri ≠ xmlNamespace) :
    (Declarations.prefixFor? (t.declarations ++ scope) uri).isSome := by
  have hresolved : t.name = (resolveName (t.declarations ++ scope) false t.name.written).1 := by
    have hds : (declarations t.pairs).1 = t.declarations := congrArg Tag.declarations ht.resolved
    have hname : (resolveName ((declarations t.pairs).1 ++ scope) false t.name.written).1 = t.name :=
      congrArg Tag.name ht.resolved
    rw [hds] at hname
    exact hname.symm
  obtain ⟨pfx, hlookup⟩ : ∃ pfx, (t.declarations ++ scope).lookup pfx = some uri := by
    rw [resolveName] at hresolved
    split at hresolved
    case h_1 => exact absurd (by rw [← huri, hresolved]) hne
    case h_2 label heq =>
      refine ⟨[], ?_⟩
      cases hlookup : (t.declarations ++ scope).lookup [] with
      | none => exact absurd (by rw [← huri, hresolved, hlookup]; rfl) hne
      | some uri' =>
        rw [← huri, hresolved, hlookup]
        rfl
    case h_3 pfx label _ heq =>
      split at hresolved
      case isTrue => exact absurd (by rw [← huri, hresolved]) hxml
      case isFalse =>
        split at hresolved
        case h_1 uri' hlookup => exact ⟨pfx, by rw [← huri, hresolved, hlookup]⟩
        case h_2 => exact absurd (by rw [← huri, hresolved]) hne
  rw [Declarations.prefixFor?, Option.isSome_map, List.find?_isSome]
  exact ⟨(pfx, uri), Association.mem_of_lookup_eq_some hlookup, by simp [Declarations.isVisible, hlookup]⟩

/-- A new tag in a namespace that a scope names, with plain attributes and one that has a prefix. The first
numbered prefix, which may be declared for that attribute, must not be the one of the tag. -/
theorem chosen_settleAttribute {as : List (Text × Text)} {key uri' : Text} (hscope : scope.Plain)
    (hnamed : (scope.prefixFor? uri).isSome) (hnumbered : (numberedPrefix 1, uri) ∉ scope)
    (hnamespace : IsNamespace uri) (huri' : IsNamespace uri') (hlabel : isPlainName label)
    (hkey : isPlainName key) (hvalue : value.all isLegal) (has : IsAttributes as) :
    ∃ ds pfx q, (Tag.settled scope uri label (as.map fun a => plainAttribute a.1 a.2)).settleAttribute
        scope uri' key value =
      ⟨ds, ⟨pfx, label, uri⟩, (as.map fun a => plainAttribute a.1 a.2) ++ [⟨⟨q, key, uri'⟩, value⟩]⟩ ∧
      Tag.Chosen scope
        ⟨ds, ⟨pfx, label, uri⟩, (as.map fun a => plainAttribute a.1 a.2) ++ [⟨⟨q, key, uri'⟩, value⟩]⟩ := by
  obtain ⟨pfx, hpfx⟩ := Option.isSome_iff_exists.1 hnamed
  have hsettled : Tag.settled scope uri label (as.map fun a => plainAttribute a.1 a.2) =
      ⟨[], ⟨pfx, label, uri⟩, as.map fun a => plainAttribute a.1 a.2⟩ := by
    simp only [Tag.settled, Declarations.settle, hpfx]
  obtain ⟨ds, q, heq, hq, hne, hfresh⟩ :=
    @settleAttribute_eq scope uri' key value ⟨[], ⟨pfx, label, uri⟩, as.map fun a => plainAttribute a.1 a.2⟩
      hscope rfl
  rw [hsettled]
  refine ⟨ds, pfx, q, heq, ?_⟩
  have hnames := hscope.names_of_prefixFor? hpfx
  have hlookup : Declarations.Names (ds ++ scope) pfx uri := by
    rcases hq.declared_eq with rfl | ⟨rfl, -⟩
    · exact hnames
    · have hother : pfx ≠ q := by
        rintro rfl
        rcases hfresh with hnil | rfl | hnone
        · cases hnil
        · exact hnumbered (mem_of_prefixFor? hpfx)
        · rw [hnames.lookup_eq] at hnone
          cases hnone
      refine ⟨?_, hnames.plain⟩
      rw [List.singleton_append, List.lookup_cons, beq_false_of_ne hother]
      exact hnames.lookup_eq
  have hq' : IsPrefix q := hq.names.plain.resolve_left hne
  obtain ⟨hdeclared, hsingle⟩ := hq.declared huri'
  have hplain : Tag.Chosen scope ⟨[], ⟨pfx, label, uri⟩, as.map fun a => plainAttribute a.1 a.2⟩ :=
    .of_plain (.of_found hscope hpfx) hnamespace hlabel has
  refine ⟨hdeclared, hsingle, ⟨hlabel, hlookup⟩, ?_, ?_, ?_, ?_, ?_⟩
  · intro a ha
    rcases List.mem_append.1 ha with ha | ha
    · obtain ⟨b, hb, rfl⟩ := List.mem_map.1 ha
      exact .plain (has.plain hb) (has.notXmlns hb)
    · rw [List.mem_singleton.1 ha]
      exact .named hq' hkey hq.names.lookup_eq
  · intro a ha
    rcases List.mem_append.1 ha with ha | ha
    · exact hplain.legal a ha
    · rw [List.mem_singleton.1 ha]
      exact hvalue
  · rw [attributePairs, List.map_append, List.map_append, List.nodup_append]
    refine ⟨hplain.distinct, List.nodup_singleton _, ?_⟩
    rintro name hname name' hname' rfl
    obtain rfl := List.mem_singleton.1 hname'
    obtain ⟨b, hb, hwritten⟩ := List.mem_map.1 hname
    obtain ⟨a, ha, rfl⟩ := List.mem_map.1 hb
    obtain ⟨c, hc, rfl⟩ := List.mem_map.1 ha
    -- The name of the last attribute has a colon, the others have none.
    refine colon_notMem_of_isPlainName (has.plain hc) ?_
    change c.1 = Name.written ⟨q, key, uri'⟩ at hwritten
    rw [hwritten, Name.written, if_neg hne]
    exact List.mem_append_right _ List.mem_cons_self
  · rw [List.pairwise_append]
    refine ⟨hplain.apart, List.pairwise_singleton _ _, ?_⟩
    intro a ha b hb _ heq'
    obtain ⟨c, -, rfl⟩ := List.mem_map.1 ha
    rw [List.mem_singleton.1 hb] at heq'
    exact huri'.ne_nil heq'.symm
  · intro a ha
    rcases List.mem_append.1 ha with ha | ha
    · exact hplain.unidentified a ha
    · rw [List.mem_singleton.1 ha]
      exact huri'.notXml

/-! ### Soundness is kept -/

theorem AllSound.append (h : AllSound scope depth ns) (hn : n.Sound scope depth) (htext : n.isText = false) :
    AllSound scope depth (ns ++ [n]) := by
  induction ns with
  | nil => exact ⟨hn, by simp [htext], trivial⟩
  | cons m ns ih =>
    obtain ⟨hm, hnext, hns⟩ := h
    refine ⟨hm, fun hmtext => ?_, ih hns⟩
    cases ns with
    | nil => exact htext
    | cons m' ns => exact hnext hmtext

theorem AllSound.of_mem (h : AllSound scope depth ns) (hn : n ∈ ns) : n.Sound scope depth := by
  induction ns with
  | nil => cases hn
  | cons m ns ih =>
    rcases List.mem_cons.1 hn with rfl | hn
    · exact h.1
    · exact ih h.2.2 hn

/-- A node that is no text may stand anywhere among siblings. -/
theorem AllSound.insert {before after : List Node} (h : AllSound scope depth (before ++ after))
    (hn : n.Sound scope depth) (htext : n.isText = false) :
    AllSound scope depth (before ++ n :: after) := by
  induction before with
  | nil => exact ⟨hn, by simp [htext], h⟩
  | cons m before ih =>
    obtain ⟨hm, hnext, hrest⟩ := h
    refine ⟨hm, fun hmtext => ?_, ih hrest⟩
    cases before with
    | nil => exact htext
    | cons m' before => exact hnext hmtext

/-- Where an element stands another node that is no text may stand. -/
theorem AllSound.replace {children before after : List Node}
    (h : AllSound scope depth (before ++ .element t children :: after))
    (hn : n.Sound scope depth) (htext : n.isText = false) :
    AllSound scope depth (before ++ n :: after) := by
  induction before with
  | nil => exact ⟨hn, by simp [htext], h.2.2⟩
  | cons m before ih =>
    obtain ⟨hm, hnext, hrest⟩ := h
    refine ⟨hm, fun hmtext => ?_, ih hrest⟩
    cases before with
    | nil => exact htext
    | cons m' before => exact hnext hmtext

theorem head?_insertAt (hn : n.isText = false) (i : Nat) (h : ns.head?.any Node.isText = false) :
    (insertAt n i ns).head?.any Node.isText = false := by
  fun_cases insertAt n i ns with
  | case1 => exact hn
  | case2 => cases h
  | case3 => exact hn
  | case4 => exact h

theorem AllSound.insertAt (h : AllSound scope depth ns) (hn : n.Sound scope depth) (htext : n.isText = false)
    (i : Nat) : AllSound scope depth (insertAt n i ns) := by
  fun_induction Xml.insertAt n i ns with
  | case1 => exact ⟨hn, by simp [htext], trivial⟩
  | case2 i s ns ih =>
    obtain ⟨hs, hnext, hns⟩ := h
    exact ⟨hs, fun _ => head?_insertAt htext i (hnext rfl), ih hns⟩
  | case3 m ns hm => exact ⟨hn, by simp [htext], h⟩
  | case4 i m ns hm ih =>
    obtain ⟨hsound, hnext, hns⟩ := h
    exact ⟨hsound, fun hmtext => head?_insertAt htext i (hnext hmtext), ih hns⟩

theorem head?_dropElements {p : Tag → Bool} {dropped : Bool}
    (h : dropped = false → ns.head?.any Node.isText = false) :
    (dropElements p dropped ns).head?.any Node.isText = false := by
  fun_induction dropElements p dropped ns with
  | case1 => rfl
  | case2 dropped t children ns hp ih => exact ih (by simp)
  | case3 => rfl
  | case4 s ns ih => exact ih (by simp)
  | case5 dropped s ns hdropped ih => cases h (by simpa using hdropped)
  | case6 dropped m ns helement htext ih =>
    cases m with
    | element t children => exact absurd rfl (helement t children)
    | text s => exact absurd rfl (htext s)
    | _ => rfl

theorem dropElements_sublist (p : Tag → Bool) (dropped : Bool) (ns : List Node) :
    List.Sublist (dropElements p dropped ns) ns := by
  fun_induction dropElements p dropped ns with
  | case1 => exact .slnil
  | case2 dropped t children ns hp ih => exact ih.cons _
  | case3 dropped t children ns hp ih => exact ih.cons_cons _
  | case4 s ns ih => exact ih.cons _
  | case5 dropped s ns hdropped ih => exact ih.cons_cons _
  | case6 dropped m ns helement htext ih => exact ih.cons_cons _

theorem AllSound.dropElements (h : AllSound scope depth ns) (p : Tag → Bool) (dropped : Bool) :
    AllSound scope depth (dropElements p dropped ns) := by
  fun_induction Xml.dropElements p dropped ns with
  | case1 => trivial
  | case2 dropped t children ns hp ih => exact ih h.2.2
  | case3 dropped t children ns hp ih => exact ⟨h.1, by simp [Node.isText], ih h.2.2⟩
  | case4 s ns ih => exact ih h.2.2
  | case5 dropped s ns hdropped ih => exact ⟨h.1, fun _ => head?_dropElements fun _ => h.2.1 rfl, ih h.2.2⟩
  | case6 dropped m ns helement htext ih => exact ⟨h.1, fun _ => head?_dropElements fun _ => h.2.1 ‹_›, ih h.2.2⟩

end DeckMerge.Xml
