import DeckMerge.Proofs.Markup.Line
import DeckMerge.Proofs.Xml.Writing
import Mathlib.Data.List.Perm.Basic

/-!
Names as they are written. A name that has been resolved is written as it was read, and a tag resolves
to itself again when it is written with its declarations first.
-/

namespace DeckMerge.Xml

variable {scope : Declarations} {as bs : List (Text × Text)} {name s pfx uri : Text}

theorem eq_append_of_splitName {label : Text} (h : splitName s = some (pfx, label)) :
    pfx = [] ∧ s = label ∨ pfx ≠ [] ∧ s = pfx ++ ':' :: label := by
  have hjoin := Text.joinWith_splitAt ':' s
  rw [splitName] at h
  split at h
  case h_1 name hsplit =>
    obtain ⟨rfl, rfl⟩ := Prod.mk.inj (Option.some.inj h)
    rw [hsplit] at hjoin
    exact .inl ⟨rfl, hjoin.symm⟩
  case h_2 p n hsplit =>
    split at h
    case isFalse => cases h
    case isTrue hplain =>
      obtain ⟨rfl, rfl⟩ := Prod.mk.inj (Option.some.inj h)
      rw [hsplit] at hjoin
      refine .inr ⟨?_, by simpa [Text.joinWith] using hjoin.symm⟩
      rintro rfl
      cases hplain
  case h_3 => cases h

theorem written_resolveName (scope : Declarations) (isAttribute : Bool) (s : Text) :
    (resolveName scope isAttribute s).1.written = s := by
  rw [resolveName]
  split
  case h_1 => rfl
  case h_2 label hsplit =>
    rcases eq_append_of_splitName hsplit with ⟨-, rfl⟩ | ⟨hne, -⟩
    · rfl
    · exact absurd rfl hne
  case h_3 p label hnil hsplit =>
    have hwritten : ∀ uri, (⟨p, label, uri⟩ : Name).written = s := by
      intro uri
      rcases eq_append_of_splitName hsplit with ⟨rfl, -⟩ | ⟨hne, rfl⟩
      · exact absurd rfl hnil
      · rw [Name.written, if_neg hne]
    split
    · exact hwritten _
    · split <;> exact hwritten _

/-! ### Declarations -/

/-- The attribute that declares a prefix. -/
def declarationName (pfx : Text) : Text := if pfx = [] then "xmlns" else "xmlns:" ++ pfx

theorem declaredPrefix?_eq_some_iff : declaredPrefix? name = some pfx ↔ name = declarationName pfx := by
  rw [declaredPrefix?, declarationName]
  by_cases hname : name = "xmlns".toList
  · subst hname
    rw [if_pos rfl]
    by_cases hpfx : pfx = []
    · simp [hpfx]
    · simp [hpfx, Ne.symm hpfx]
  · rw [if_neg hname]
    have happend : ∀ rest, ("xmlns:".toList).isPrefixOf? name = some rest ↔ "xmlns:".toList ++ rest = name :=
      fun rest => List.isPrefixOf?_eq_some_iff_append_eq
    split
    case h_1 hnone =>
      refine iff_of_false (by simp) fun heq => ?_
      split at heq
      · exact hname heq
      · rw [(happend pfx).2 heq.symm] at hnone
        cases hnone
    case h_2 hnil =>
      rw [happend] at hnil
      refine iff_of_false (by simp) fun heq => ?_
      split at heq
      · exact hname heq
      case isFalse hpfx => exact hpfx (List.append_cancel_left (hnil.trans heq)).symm
    case h_3 rest hne hrest =>
      rw [happend] at hrest
      have hrest' : rest ≠ [] := fun h => hne h
      constructor
      · intro h
        obtain rfl := Option.some.inj h
        rw [if_neg hrest', hrest]
      · intro heq
        split at heq
        · exact absurd heq hname
        · rw [List.append_cancel_left (hrest.trans heq)]

def isDeclaration (a : Text × Text) : Bool := (declaredPrefix? a.1).isSome

/-- Declarations as the attributes they are written as. -/
def Declarations.pairs (ds : Declarations) : List (Text × Text) :=
  ds.map fun d => (declarationName d.1, d.2)

theorem isDeclaration_of_mem_pairs {ds : Declarations} {a : Text × Text} (h : a ∈ ds.pairs) :
    isDeclaration a := by
  obtain ⟨d, -, rfl⟩ := List.mem_map.1 h
  rw [isDeclaration, declaredPrefix?_eq_some_iff.2 rfl]
  rfl

theorem declarations_cons_of_not (h : isDeclaration (name, s) = false) :
    (declarations ((name, s) :: as)).1 = (declarations as).1 ∧
      (.error ∈ (declarations ((name, s) :: as)).2 ↔ .error ∈ (declarations as).2) := by
  have hnone : declaredPrefix? name = none := by simpa [isDeclaration] using h
  rw [declarations, hnone]
  refine ⟨rfl, ?_⟩
  simp only [List.mem_append]
  split <;> simp

theorem declarations_cons (h : declaredPrefix? name = some pfx) :
    declarations ((name, s) :: as) =
      (if (checkDeclaration pfx s).1 then (pfx, s) :: (declarations as).1 else (declarations as).1,
        (checkDeclaration pfx s).2 ++ (declarations as).2) := by
  rw [declarations, h]

/-- What is kept of declarations stands among them. -/
theorem pairs_declarations_sublist (as : List (Text × Text)) :
    List.Sublist (declarations as).1.pairs (as.filter isDeclaration) := by
  induction as with
  | nil => exact .slnil
  | cons a as ih =>
    obtain ⟨name, s⟩ := a
    cases hpfx : declaredPrefix? name with
    | none =>
      have hnot : isDeclaration (name, s) = false := by simp [isDeclaration, hpfx]
      rw [List.filter_cons_of_neg (by simp [hnot]), (declarations_cons_of_not hnot).1]
      exact ih
    | some pfx =>
      rw [List.filter_cons_of_pos (by simp [isDeclaration, hpfx]), declarations_cons hpfx]
      split
      case isTrue =>
        rw [declaredPrefix?_eq_some_iff.1 hpfx]
        exact ih.cons_cons _
      case isFalse => exact ih.cons _

/-- What is kept of declarations is kept again, with no other complaints. -/
theorem declarations_pairs (as : List (Text × Text)) (hbs : ∀ b ∈ bs, isDeclaration b = false) :
    (declarations ((declarations as).1.pairs ++ bs)).1 = (declarations as).1 ∧
      (.error ∈ (declarations ((declarations as).1.pairs ++ bs)).2 → .error ∈ (declarations as).2) := by
  induction as with
  | nil =>
    induction bs with
    | nil => exact ⟨rfl, id⟩
    | cons b bs ih =>
      obtain ⟨hb, hbs⟩ := List.forall_mem_cons.1 hbs
      obtain ⟨hkept, hcomplaints⟩ := declarations_cons_of_not hb
      obtain ⟨ihkept, ihcomplaints⟩ := ih hbs
      exact ⟨hkept.trans ihkept, fun h => ihcomplaints (hcomplaints.1 h)⟩
  | cons a as ih =>
    obtain ⟨name, s⟩ := a
    obtain ⟨ihkept, ihcomplaints⟩ := ih
    cases hpfx : declaredPrefix? name with
    | none =>
      have hnot : isDeclaration (name, s) = false := by simp [isDeclaration, hpfx]
      have hcons := @declarations_cons_of_not as name s hnot
      rw [hcons.1, hcons.2]
      exact ⟨ihkept, ihcomplaints⟩
    | some pfx =>
      rw [declarations_cons hpfx]
      split
      case isFalse => exact ⟨ihkept, fun h => List.mem_append_right _ (ihcomplaints h)⟩
      case isTrue hkeep =>
        have hagain : declarations ((declarationName pfx, s) :: ((declarations as).1.pairs ++ bs)) = _ :=
          declarations_cons (declaredPrefix?_eq_some_iff.2 rfl)
        rw [if_pos hkeep] at hagain
        change (declarations ((declarationName pfx, s) :: ((declarations as).1.pairs ++ bs))).1 = _ ∧
          (_ ∈ (declarations ((declarationName pfx, s) :: ((declarations as).1.pairs ++ bs))).2 → _)
        rw [hagain, ihkept]
        refine ⟨rfl, fun h => ?_⟩
        rcases List.mem_append.1 h with h | h
        · exact List.mem_append_left _ h
        · exact List.mem_append_right _ (ihcomplaints h)

/-! ### Attributes -/

/-- Attributes as they are written. -/
def attributePairs (as : List Attribute) : List (Text × Text) := as.map fun a => (a.name.written, a.value)

theorem resolveAttributes_cons_of_declaration {a : Text × Text} (ha : isDeclaration a)
    (earlier : List Attribute) :
    resolveAttributes scope earlier (a :: as) = resolveAttributes scope earlier as := if_pos ha

/-- Whether an attribute is there already, in the same namespace. -/
def standsAmong (earlier : List Attribute) (n : Name) : Bool :=
  earlier.any fun a => n.uri ≠ [] ∧ a.name.uri = n.uri ∧ a.name.label = n.label

theorem resolveAttributes_cons (ha : isDeclaration (name, s) = false) (earlier : List Attribute) :
    resolveAttributes scope earlier ((name, s) :: as) =
      ((resolveAttributes scope (earlier ++ [⟨(resolveName scope true name).1, s⟩]) as).1,
        (resolveName scope true name).2 ++
          (if standsAmong earlier (resolveName scope true name).1 then [.error] else []) ++
          (resolveAttributes scope (earlier ++ [⟨(resolveName scope true name).1, s⟩]) as).2) := by
  have hnone : ¬ (declaredPrefix? name).isSome := by simpa [isDeclaration] using ha
  rw [resolveAttributes, if_neg hnone]
  rfl

theorem resolveAttributes_append_of_declarations (has : ∀ a ∈ as, isDeclaration a) (earlier : List Attribute) :
    resolveAttributes scope earlier (as ++ bs) = resolveAttributes scope earlier bs := by
  induction as with
  | nil => rfl
  | cons a as ih =>
    obtain ⟨ha, has⟩ := List.forall_mem_cons.1 has
    rw [List.cons_append, resolveAttributes_cons_of_declaration ha, ih has]

theorem resolveAttributes_filter (earlier : List Attribute) (as : List (Text × Text)) :
    resolveAttributes scope earlier (as.filter (!isDeclaration ·)) = resolveAttributes scope earlier as := by
  induction as generalizing earlier with
  | nil => rfl
  | cons a as ih =>
    obtain ⟨name, s⟩ := a
    by_cases ha : isDeclaration (name, s)
    · rw [List.filter_cons_of_neg (by simp [ha]), ih, resolveAttributes_cons_of_declaration ha]
    · rw [Bool.not_eq_true] at ha
      rw [List.filter_cons_of_pos (by simp [ha]), resolveAttributes_cons ha, resolveAttributes_cons ha, ih]

theorem pairs_resolveAttributes (earlier : List Attribute) (as : List (Text × Text)) :
    attributePairs (resolveAttributes scope earlier as).1 =
      attributePairs earlier ++ as.filter (!isDeclaration ·) := by
  induction as generalizing earlier with
  | nil => exact (List.append_nil _).symm
  | cons a as ih =>
    obtain ⟨name, s⟩ := a
    by_cases ha : isDeclaration (name, s)
    · rw [List.filter_cons_of_neg (by simp [ha]), resolveAttributes_cons_of_declaration ha, ih]
    · rw [Bool.not_eq_true] at ha
      rw [List.filter_cons_of_pos (by simp [ha]), resolveAttributes_cons ha, ih]
      simp [attributePairs, written_resolveName]

/-! ### Tags -/

/-- All attributes of a tag as they are written, the declarations first. -/
def Tag.pairs (t : Tag) : List (Text × Text) := t.declarations.pairs ++ attributePairs t.attributes

theorem Tag.write_eq (named : Bool) (t : Tag) :
    t.write named = t.name.written ++ t.pairs.flatMap fun a => writeAttribute named a.1 a.2 := by
  rw [Tag.write, Tag.pairs, List.flatMap_append, Declarations.pairs, attributePairs, List.flatMap_map,
    List.flatMap_map, List.append_assoc]
  rfl

/-- A tag that is written as it may be, and that is read again without an error. -/
structure Tag.Sound (scope : Declarations) (t : Tag) : Prop where
  proper : ProperTag t.name.written t.pairs
  resolved : (resolveTag scope t.name.written t.pairs).1 = t
  silent : .error ∉ (resolveTag scope t.name.written t.pairs).2

theorem ProperTag.of_pairs {ds : Declarations} (h : ProperTag name as)
    (hds : List.Sublist ds.pairs (as.filter isDeclaration)) :
    ProperTag name (ds.pairs ++ as.filter (!isDeclaration ·)) := by
  have hsub : List.Sublist (ds.pairs ++ as.filter (!isDeclaration ·))
      (as.filter isDeclaration ++ as.filter (!isDeclaration ·)) := hds.append_right _
  have hperm : (as.filter isDeclaration ++ as.filter (!isDeclaration ·)).Perm as :=
    List.filter_append_perm isDeclaration as
  have hmem : ∀ a ∈ ds.pairs ++ as.filter (!isDeclaration ·), a ∈ as :=
    fun a ha => hperm.mem_iff.1 (hsub.subset ha)
  exact ⟨h.name, fun a ha => h.names a (hmem a ha), fun a ha => h.legal a (hmem a ha),
    (hsub.map Prod.fst).nodup ((hperm.map Prod.fst).nodup_iff.2 h.distinct)⟩

/-- A tag that is read without an error is read again when it has been written. -/
theorem sound_resolveTag (h : ProperTag name as) (hsilent : .error ∉ (resolveTag scope name as).2) :
    (resolveTag scope name as).1.Sound scope := by
  have hpairs : (resolveTag scope name as).1.pairs =
      (declarations as).1.pairs ++ as.filter (!isDeclaration ·) :=
    congrArg ((declarations as).1.pairs ++ ·) (pairs_resolveAttributes [] as)
  have hname : (resolveTag scope name as).1.name.written = name := written_resolveName _ _ _
  have hplain : ∀ b ∈ as.filter (!isDeclaration ·), isDeclaration b = false :=
    fun b hb => by simpa using (List.mem_filter.1 hb).2
  obtain ⟨hkept, hcomplaints⟩ := declarations_pairs as hplain
  have hattributes : ∀ scope, resolveAttributes scope []
      ((declarations as).1.pairs ++ as.filter (!isDeclaration ·)) = resolveAttributes scope [] as := by
    intro scope
    rw [resolveAttributes_append_of_declarations (fun a => isDeclaration_of_mem_pairs),
      resolveAttributes_filter]
  refine ⟨?_, ?_, ?_⟩
  · rw [hpairs, hname]
    exact h.of_pairs (pairs_declarations_sublist as)
  · rw [hpairs, hname]
    simp only [resolveTag, hkept, hattributes]
  · rw [hpairs, hname]
    simp only [resolveTag, hkept, hattributes, List.mem_append] at hsilent ⊢
    exact fun herror => hsilent (herror.imp_left (Or.imp_left (Or.imp_left hcomplaints)))

end DeckMerge.Xml
