import DeckMerge.Proofs.Xml.Names
import DeckMerge.Xml.Edit
import Mathlib.Data.List.Nodup
import Mathlib.Data.List.Perm.Subperm

/-!
New tags. The prefixes that are chosen for them stand for their namespaces where they are put, so they
are read back as they were made.
-/

namespace DeckMerge

namespace Xml

variable {scope : Declarations} {pfx uri label : Text} {t : Tag} {as bs : List (Text × Text)}

/-! ### Prefixes -/

/-- A prefix that may be declared. -/
structure IsPrefix (pfx : Text) : Prop where
  plain : isPlainName pfx
  notXml : pfx ≠ "xml".toList
  notXmlns : pfx ≠ "xmlns".toList

def Declarations.Plain (scope : Declarations) : Prop := ∀ d ∈ scope, d.1 = [] ∨ IsPrefix d.1

theorem isPrefix_of_checkDeclaration {pfx uri : Text} (hne : pfx ≠ []) (hkeep : (checkDeclaration pfx uri).1)
    (hsilent : .error ∉ (checkDeclaration pfx uri).2) : IsPrefix pfx := by
  rw [checkDeclaration] at hkeep hsilent
  simp only [if_neg hne] at hkeep hsilent
  split at hkeep
  case isTrue => cases hkeep
  case isFalse hxml =>
  rw [if_neg hxml] at hsilent
  split at hkeep
  case isTrue => cases hkeep
  case isFalse hreserved =>
  rw [if_neg hreserved, List.mem_append, not_or] at hsilent
  refine ⟨?_, hxml, fun h => hreserved (.inl h)⟩
  by_contra hplain
  simp [hplain] at hsilent

theorem plain_declarations (h : .error ∉ (declarations as).2) : (declarations as).1.Plain := by
  induction as with
  | nil => exact fun d hd => by cases hd
  | cons a as ih =>
    obtain ⟨name, s⟩ := a
    cases hpfx : declaredPrefix? name with
    | none =>
      have hcons := @declarations_cons_of_not as name s (by simp [isDeclaration, hpfx])
      rw [hcons.1]
      exact ih (mt hcons.2.2 h)
    | some pfx =>
      rw [declarations_cons hpfx, List.mem_append, not_or] at h
      rw [declarations_cons hpfx]
      split
      case isFalse => exact ih h.2
      case isTrue hkeep =>
        refine List.forall_mem_cons.2 ⟨?_, ih h.2⟩
        by_cases hne : pfx = []
        · exact .inl hne
        · exact .inr (isPrefix_of_checkDeclaration hne hkeep h.1)

theorem Tag.Sound.plain (h : t.Sound scope) : t.declarations.Plain := by
  have hsilent := h.silent
  simp only [resolveTag, List.mem_append, not_or] at hsilent
  have hdeclared : t.declarations = (Xml.declarations t.pairs).1 :=
    (congrArg Tag.declarations h.resolved).symm
  rw [hdeclared]
  exact plain_declarations hsilent.1.1.1

theorem Declarations.Plain.append {scope' : Declarations} (h : scope.Plain) (h' : scope'.Plain) :
    Declarations.Plain (scope ++ scope') :=
  fun d hd => (List.mem_append.1 hd).elim (h d) (h' d)

/-- A prefix, maybe none, that stands for a namespace. -/
structure Declarations.Names (scope : Declarations) (pfx uri : Text) : Prop where
  lookup_eq : scope.lookup pfx = some uri
  plain : pfx = [] ∨ IsPrefix pfx

theorem Declarations.Plain.names_of_prefixFor? (h : scope.Plain) (hpfx : scope.prefixFor? uri = some pfx) :
    scope.Names pfx uri := by
  obtain ⟨d, hd, rfl⟩ := Option.map_eq_some_iff.1 hpfx
  obtain ⟨huri, hvisible⟩ : d.2 = uri ∧ scope.isVisible d := by simpa using List.find?_some hd
  exact ⟨by simpa [isVisible, huri] using hvisible, h d (List.mem_of_find?_eq_some hd)⟩

theorem Declarations.Plain.names_of_namedFor? (h : scope.Plain) (hpfx : scope.namedFor? uri = some pfx) :
    pfx ≠ [] ∧ scope.Names pfx uri := by
  obtain ⟨d, hd, rfl⟩ := Option.map_eq_some_iff.1 hpfx
  obtain ⟨hne, huri, hvisible⟩ : d.1 ≠ [] ∧ d.2 = uri ∧ scope.isVisible d := by
    simpa using List.find?_some hd
  exact ⟨hne, by simpa [isVisible, huri] using hvisible, h d (List.mem_of_find?_eq_some hd)⟩

theorem numberedPrefix_injective : Function.Injective numberedPrefix := by
  intro m n h
  exact Text.ofNat_injective (List.append_cancel_left h)

theorem isPrefix_numberedPrefix (n : Nat) : IsPrefix (numberedPrefix n) := by
  have hdigits : ∀ c ∈ Text.ofNat n, isNameChar c && c != ':' := by
    intro c hc
    have hdigit := Text.isDigit_of_mem_ofNat hc
    have hcolon : c ≠ ':' := by rintro rfl; cases hdigit
    simp [isNameChar, hdigit, hcolon]
  refine ⟨?_, ?_, ?_⟩
  · rw [numberedPrefix, show "ns".toList = ['n', 's'] by decide]
    simp only [List.cons_append, List.nil_append, isPlainName, List.all_cons, List.all_eq_true.2 hdigits]
    decide
  all_goals
    intro h
    exact absurd (List.cons.inj h).1 (by decide)

/-- There are more numbered prefixes than declarations. -/
theorem exists_fresh (scope : Declarations) :
    ∃ n, scope.fresh = numberedPrefix n ∧ scope.lookup (numberedPrefix n) = none := by
  rw [Declarations.fresh]
  cases hfind : ((List.range (scope.length + 1)).map numberedPrefix).find?
      fun p => (scope.lookup p).isNone with
  | some pfx =>
    obtain ⟨n, -, rfl⟩ := List.mem_map.1 (List.mem_of_find?_eq_some hfind)
    exact ⟨n, rfl, by simpa using List.find?_some hfind⟩
  | none =>
    have hdeclared : (List.range (scope.length + 1)).map numberedPrefix ⊆ scope.map Prod.fst := by
      intro pfx hpfx
      have hsome := List.find?_eq_none.1 hfind pfx hpfx
      rw [Bool.not_eq_true, Option.isNone_eq_false_iff] at hsome
      obtain ⟨uri, huri⟩ := Option.isSome_iff_exists.1 hsome
      exact List.mem_map.2 ⟨_, Association.mem_of_lookup_eq_some huri, rfl⟩
    have hnodup : ((List.range (scope.length + 1)).map numberedPrefix).Nodup :=
      List.Nodup.map numberedPrefix_injective List.nodup_range
    have hlength : scope.length + 1 ≤ scope.length := by
      simpa using (List.Nodup.subperm hnodup hdeclared).length_le
    omega

/-! ### Names that are chosen -/

theorem colon_notMem_of_isPlainName {s : Text} (h : isPlainName s) : ':' ∉ s := by
  intro hmem
  cases s with
  | nil => cases hmem
  | cons c s =>
    rw [isPlainName, Bool.and_eq_true] at h
    exact absurd (List.all_eq_true.1 h.2 ':' hmem) (by decide)

theorem isName_of_isPlainName {s : Text} (h : isPlainName s) : isName s := by
  cases s with
  | nil => cases h
  | cons c s =>
    simp only [isPlainName, List.all_cons, Bool.and_eq_true, List.all_eq_true] at h
    simp only [isName, Bool.and_eq_true, List.all_eq_true]
    exact ⟨h.1, fun d hd => (h.2.2 d hd).1⟩

theorem isName_append_colon (hpfx : isPlainName pfx) (hlabel : isPlainName label) :
    isName (pfx ++ ':' :: label) := by
  have hfront := isName_of_isPlainName hpfx
  have hback := isName_of_isPlainName hlabel
  cases pfx with
  | nil => cases hpfx
  | cons c pfx =>
    cases label with
    | nil => cases hlabel
    | cons d label =>
      simp only [isName, List.cons_append, Bool.and_eq_true, List.all_eq_true] at hfront hback ⊢
      refine ⟨hfront.1, fun e he => ?_⟩
      simp only [List.mem_append, List.mem_cons] at he
      rcases he with he | rfl | rfl | he
      · exact hfront.2 e he
      · decide
      · rw [isNameChar, hback.1]; rfl
      · exact hback.2 e he

theorem splitName_plain (hlabel : isPlainName label) : splitName label = some ([], label) := by
  rw [splitName, Text.splitAt_of_notMem (colon_notMem_of_isPlainName hlabel)]

theorem splitName_append (hpfx : isPlainName pfx) (hlabel : isPlainName label) :
    splitName (pfx ++ ':' :: label) = some (pfx, label) := by
  rw [splitName, Text.splitAt_append (colon_notMem_of_isPlainName hpfx),
    Text.splitAt_of_notMem (colon_notMem_of_isPlainName hlabel)]
  simp [hpfx, hlabel]

/-- A name with a prefix that stands for its namespace. -/
structure Name.Chosen (scope : Declarations) (n : Name) : Prop where
  label : isPlainName n.label
  names : scope.Names n.pfx n.uri

theorem isName_written {n : Name} (hlabel : isPlainName n.label) (hpfx : n.pfx = [] ∨ IsPrefix n.pfx) :
    isName n.written := by
  rw [Name.written]
  split
  case isTrue => exact isName_of_isPlainName hlabel
  case isFalse hne => exact isName_append_colon (hpfx.resolve_left hne).plain hlabel

theorem resolveName_append {isAttribute : Bool} (hpfx : IsPrefix pfx) (hlabel : isPlainName label)
    (hlookup : scope.lookup pfx = some uri) :
    resolveName scope isAttribute (pfx ++ ':' :: label) = (⟨pfx, label, uri⟩, []) := by
  have hne : pfx ≠ [] := by
    rintro rfl
    cases hpfx.plain
  rw [resolveName, splitName_append hpfx.plain hlabel]
  split
  case h_1 heq => cases heq
  case h_2 heq =>
    obtain ⟨rfl, -⟩ := Prod.mk.inj (Option.some.inj heq)
    exact absurd rfl hne
  case h_3 heq =>
    obtain ⟨rfl, rfl⟩ := Prod.mk.inj (Option.some.inj heq)
    rw [if_neg hpfx.notXml, hlookup]

/-- Such a name resolves to itself. -/
theorem Name.Chosen.resolve {n : Name} (h : n.Chosen scope) : resolveName scope false n.written = (n, []) := by
  obtain ⟨pfx, label, uri⟩ := n
  rw [Name.written]
  split
  case isTrue hnil =>
    obtain rfl : pfx = [] := hnil
    have hlookup : scope.lookup [] = some uri := h.names.lookup_eq
    rw [resolveName, splitName_plain h.label]
    simp only [hlookup]
    rfl
  case isFalse hne =>
    exact resolveName_append (h.names.plain.resolve_left hne) h.label h.names.lookup_eq

/-- An attribute in no namespace, or with a prefix that stands for its namespace. -/
inductive Attribute.Chosen (scope : Declarations) : Attribute → Prop
  | plain {label value : Text} : isPlainName label → label ≠ "xmlns".toList →
    Attribute.Chosen scope (plainAttribute label value)
  | named {pfx label uri value : Text} : IsPrefix pfx → isPlainName label →
    scope.lookup pfx = some uri → Attribute.Chosen scope ⟨⟨pfx, label, uri⟩, value⟩

theorem Attribute.Chosen.isName {a : Attribute} (h : a.Chosen scope) : isName a.name.written := by
  cases h with
  | plain hlabel => exact isName_of_isPlainName hlabel
  | named hpfx hlabel => exact isName_written hlabel (.inr hpfx)

theorem Attribute.Chosen.not_isDeclaration {a : Attribute} (h : a.Chosen scope) :
    isDeclaration (a.name.written, a.value) = false := by
  rw [isDeclaration, Option.isSome_eq_false_iff, Option.isNone_iff_eq_none, Option.eq_none_iff_forall_ne_some]
  intro pfx heq
  rw [declaredPrefix?_eq_some_iff, declarationName] at heq
  cases h with
  | @plain label value hlabel hne =>
    change label = _ at heq
    split at heq
    · exact hne heq
    · refine colon_notMem_of_isPlainName hlabel ?_
      rw [heq]
      exact List.mem_append_left _ (by decide)
  | @named p label uri value hpfx hlabel =>
    have hne : p ≠ [] := by
      rintro rfl
      cases hpfx.plain
    rw [Name.written, if_neg hne] at heq
    -- A colon ends the prefix on both sides, so it would be the one that declares others.
    have hsplit := congrArg (Text.splitAt ':') heq
    rw [Text.splitAt_append (colon_notMem_of_isPlainName hpfx.plain)] at hsplit
    split at hsplit
    · exact hpfx.notXmlns (List.cons.inj (hsplit.trans (Text.splitAt_of_notMem (by decide)))).1
    · rw [show "xmlns:".toList ++ pfx = "xmlns".toList ++ ':' :: pfx from rfl,
        Text.splitAt_append (by decide)] at hsplit
      exact hpfx.notXmlns (List.cons.inj hsplit).1

theorem Attribute.Chosen.resolve {a : Attribute} (h : a.Chosen scope) :
    resolveName scope true a.name.written = (a.name, []) := by
  cases h with
  | @plain label value hlabel hne =>
    change resolveName scope true label = _
    rw [resolveName, splitName_plain hlabel]
    rfl
  | @named p label uri value hpfx hlabel hlookup =>
    have hne : p ≠ [] := by
      rintro rfl
      cases hpfx.plain
    rw [Name.written, if_neg hne]
    exact resolveName_append hpfx hlabel hlookup

/-! ### Tags that are made -/

/-- A namespace that may be declared for a prefix. -/
structure IsNamespace (uri : Text) : Prop where
  reference : Uri.isReference uri
  ne_nil : uri ≠ []
  notXml : uri ≠ xmlNamespace
  notDeclarations : uri ≠ declarationNamespace
  legal : uri.all isLegal

theorem checkDeclaration_of_isNamespace (hpfx : IsPrefix pfx) (huri : IsNamespace uri) :
    checkDeclaration pfx uri = (true, []) := by
  have hne : pfx ≠ [] := by
    rintro rfl
    cases hpfx.plain
  have hreserved : ¬ (pfx = "xmlns".toList ∨ uri = xmlNamespace ∨ uri = declarationNamespace ∨ uri = []) := by
    rintro (h | h | h | h)
    exacts [hpfx.notXmlns h, huri.notXml h, huri.notDeclarations h, huri.ne_nil h]
  rw [checkDeclaration]
  simp only [if_neg hne, if_neg hpfx.notXml, if_neg hreserved, if_pos (Or.inr huri.reference), hpfx.plain]
  rfl

/-- A tag as it is made for a scope: it declares one prefix at most. -/
structure Tag.Chosen (scope : Declarations) (t : Tag) : Prop where
  declared : ∀ d ∈ t.declarations, IsPrefix d.1 ∧ IsNamespace d.2
  single : t.declarations.length ≤ 1
  name : t.name.Chosen (t.declarations ++ scope)
  attributes : ∀ a ∈ t.attributes, a.Chosen (t.declarations ++ scope)
  legal : ∀ a ∈ t.attributes, a.value.all isLegal
  distinct : ((attributePairs t.attributes).map Prod.fst).Nodup
  apart : t.attributes.Pairwise fun a b => b.name.uri ≠ [] → a.name.uri ≠ b.name.uri
  unidentified : ∀ a ∈ t.attributes, a.name.uri ≠ xmlNamespace

theorem declarations_of_chosen {ds : Declarations} (hds : ∀ d ∈ ds, IsPrefix d.1 ∧ IsNamespace d.2)
    (has : ∀ a ∈ as, isDeclaration a = false) :
    (declarations (ds.pairs ++ as)).1 = ds ∧ .error ∉ (declarations (ds.pairs ++ as)).2 := by
  induction ds with
  | nil =>
    induction as with
    | nil => exact ⟨rfl, List.not_mem_nil⟩
    | cons a as ih =>
      obtain ⟨ha, has⟩ := List.forall_mem_cons.1 has
      obtain ⟨hkept, hsilent⟩ := ih has
      obtain ⟨hcons, herror⟩ := declarations_cons_of_not ha
      exact ⟨hcons.trans hkept, mt herror.1 hsilent⟩
  | cons d ds ih =>
    obtain ⟨⟨hpfx, huri⟩, hds⟩ := List.forall_mem_cons.1 hds
    obtain ⟨hkept, hsilent⟩ := ih hds
    have hcons : declarations ((declarationName d.1, d.2) :: (Declarations.pairs ds ++ as)) = _ :=
      declarations_cons (declaredPrefix?_eq_some_iff.2 rfl)
    rw [checkDeclaration_of_isNamespace hpfx huri, if_pos rfl, hkept, List.nil_append] at hcons
    change (declarations ((declarationName d.1, d.2) :: (Declarations.pairs ds ++ as))).1 = _ ∧
      .error ∉ (declarations ((declarationName d.1, d.2) :: (Declarations.pairs ds ++ as))).2
    rw [hcons]
    exact ⟨rfl, hsilent⟩

theorem resolveAttributes_of_chosen {chosen : List Attribute} (h : ∀ a ∈ chosen, a.Chosen scope)
    (earlier : List Attribute)
    (hapart : (earlier ++ chosen).Pairwise fun a b => b.name.uri ≠ [] → a.name.uri ≠ b.name.uri) :
    resolveAttributes scope earlier (attributePairs chosen) = (earlier ++ chosen, []) := by
  induction chosen generalizing earlier with
  | nil => rw [List.append_nil]; rfl
  | cons a chosen ih =>
    obtain ⟨ha, h⟩ := List.forall_mem_cons.1 h
    have hmore := ih h (earlier ++ [a]) (by simpa using hapart)
    have hfirst : standsAmong earlier a.name = false := by
      rw [standsAmong, List.any_eq_false]
      intro b hb heq
      obtain ⟨hne, huri, -⟩ := of_decide_eq_true heq
      exact (List.pairwise_append.1 hapart).2.2 b hb a List.mem_cons_self hne huri
    have hcons : resolveAttributes scope earlier ((a.name.written, a.value) :: attributePairs chosen) = _ :=
      resolveAttributes_cons ha.not_isDeclaration earlier
    rw [ha.resolve, hfirst] at hcons
    change resolveAttributes scope earlier ((a.name.written, a.value) :: attributePairs chosen) = _
    rw [hcons, show (⟨a.name, a.value⟩ : Attribute) = a from rfl, hmore]
    simp

theorem Tag.Chosen.not_isDeclaration (h : t.Chosen scope) :
    ∀ a ∈ attributePairs t.attributes, isDeclaration a = false := by
  intro a ha
  obtain ⟨b, hb, rfl⟩ := List.mem_map.1 ha
  exact (h.attributes b hb).not_isDeclaration

theorem Tag.Chosen.distinct_pairs (h : t.Chosen scope) : (t.pairs.map Prod.fst).Nodup := by
  rw [Tag.pairs, List.map_append, List.nodup_append]
  refine ⟨?_, h.distinct, ?_⟩
  · have hlength : (t.declarations.pairs.map Prod.fst).length ≤ 1 := by
      simpa [Declarations.pairs] using h.single
    generalize t.declarations.pairs.map Prod.fst = names at hlength
    rcases Nat.le_one_iff_eq_zero_or_eq_one.1 hlength with hnil | hone
    · rw [List.length_eq_zero_iff.1 hnil]
      exact List.nodup_nil
    · obtain ⟨name, rfl⟩ := List.length_eq_one_iff.1 hone
      exact List.nodup_singleton name
  · rintro name hdeclared name' hattribute rfl
    obtain ⟨a, ha, rfl⟩ := List.mem_map.1 hdeclared
    obtain ⟨b, hb, heq⟩ := List.mem_map.1 hattribute
    have hdeclaration := isDeclaration_of_mem_pairs ha
    rw [isDeclaration, ← heq, ← isDeclaration, h.not_isDeclaration b hb] at hdeclaration
    cases hdeclaration

/-- A tag that is made for a scope is written in a form that reads back there. -/
theorem Tag.Chosen.sound (h : t.Chosen scope) : t.Sound scope := by
  obtain ⟨hkept, hsilent⟩ := declarations_of_chosen h.declared h.not_isDeclaration
  have hattributes : resolveAttributes (t.declarations ++ scope) [] t.pairs = (t.attributes, []) := by
    rw [Tag.pairs, resolveAttributes_append_of_declarations fun a => isDeclaration_of_mem_pairs]
    exact resolveAttributes_of_chosen h.attributes [] h.apart
  have hidentifiers : checkIdentifiers t.attributes = [] := by
    rw [checkIdentifiers, List.filterMap_eq_nil_iff]
    exact fun a ha => if_neg fun hid => h.unidentified a ha hid.1
  have hresolved : (resolveTag scope t.name.written t.pairs).1 = t ∧
      .error ∉ (resolveTag scope t.name.written t.pairs).2 := by
    rw [← Tag.pairs] at hkept hsilent
    simp only [resolveTag, hkept, hattributes, h.name.resolve, hidentifiers, List.append_nil]
    exact ⟨trivial, hsilent⟩
  refine ⟨⟨isName_written h.name.label h.name.names.plain, ?_, ?_, h.distinct_pairs⟩, hresolved.1, hresolved.2⟩
  · intro a ha
    rcases List.mem_append.1 ha with ha | ha
    · obtain ⟨d, hd, rfl⟩ := List.mem_map.1 ha
      have hpfx := (h.declared d hd).1
      have hne : d.1 ≠ [] := by
        intro hnil
        rw [hnil] at hpfx
        cases hpfx.plain
      have hxmlns : isPlainName "xmlns".toList := by decide
      change isName (declarationName d.1)
      rw [declarationName, if_neg hne]
      exact isName_append_colon hxmlns hpfx.plain
    · obtain ⟨b, hb, rfl⟩ := List.mem_map.1 ha
      exact (h.attributes b hb).isName
  · intro a ha
    rcases List.mem_append.1 ha with ha | ha
    · obtain ⟨d, hd, rfl⟩ := List.mem_map.1 ha
      exact (h.declared d hd).2.legal
    · obtain ⟨b, hb, rfl⟩ := List.mem_map.1 ha
      exact h.legal b hb

end Xml

end DeckMerge
