import DeckMerge.Deck.Presets
import DeckMerge.Proofs.Fields
import DeckMerge.Proofs.Sequence

/-!
Settings of merged fields. Only what stands under each key counts: neither the order of the fields nor that of
the keys that are no settings can be seen in the outcome.
-/

namespace DeckMerge.Deck

/-! ### The order of keys -/

theorem keyLe_total (a b : Key) : keyLe a b || keyLe b a := by
  unfold keyLe
  generalize a.identity = x, b.identity = y
  rcases x with (_ | s) | ⟨i, p⟩ <;> rcases y with (_ | t) | ⟨j, q⟩ <;> simp
  · exact List.le_total s t
  · have := Rat.le_total (a := p) (b := q)
    grind

theorem keyLe_trans (a b c : Key) (hab : keyLe a b) (hbc : keyLe b c) : keyLe a c := by
  unfold keyLe at *
  generalize a.identity = x, b.identity = y, c.identity = z at *
  rcases x with (_ | s) | ⟨i, p⟩ <;> rcases y with (_ | t) | ⟨j, q⟩ <;> rcases z with (_ | u) | ⟨k, r⟩ <;>
    simp at hab hbc ⊢
  · exact List.le_trans hab hbc
  · have := Rat.le_trans (a := p) (b := q) (c := r)
    grind

theorem identity_eq_of_keyLe {a b : Key} (hab : keyLe a b) (hba : keyLe b a) : a.identity = b.identity := by
  unfold keyLe at *
  generalize a.identity = x, b.identity = y at *
  rcases x with (_ | s) | ⟨i, p⟩ <;> rcases y with (_ | t) | ⟨j, q⟩ <;> simp at hab hba ⊢
  · exact List.le_antisymm hab hba
  · have := Rat.le_antisymm (a := p) (b := q)
    grind

theorem sortKeys_eq_of_perm {ks ks' : List Key} (h : ks.Perm ks') (hnodup : (ks.map Key.identity).Nodup) :
    sortKeys ks = sortKeys ks' := by
  have hsorted (ks : List Key) : (ks.mergeSort keyLe).Pairwise (keyLe · ·) :=
    List.pairwise_mergeSort keyLe_trans keyLe_total ks
  have hsort : ks.mergeSort keyLe = ks'.mergeSort keyLe := by
    refine List.Perm.eq_of_pairwise (fun a b ha hb hab hba => ?_) (hsorted ks) (hsorted ks') ?_
    · rw [List.mem_mergeSort] at ha hb
      exact List.inj_on_of_nodup_map hnodup ha (h.mem_iff.2 hb) (identity_eq_of_keyLe hab hba)
    · exact (List.mergeSort_perm ks _).trans (h.trans (List.mergeSort_perm ks' _).symm)
  rw [sortKeys, sortKeys, h.all_eq, h.all_eq, hsort]

/-! ### Settings -/

theorem Settings.ofFields_eq_of_perm {fields fields' : List (Key × Value)} (h : fields.Perm fields')
    (hnodup : (fields.map (·.1)).Nodup) : Settings.ofFields fields = Settings.ofFields fields' := by
  rw [Settings.ofFields, Settings.ofFields, h.any_eq]
  simp only [Association.lookup_eq_of_perm h hnodup]

/-- The fields that are no settings. -/
def strays (fields : List (Key × Value)) : List (Key × Value) :=
  fields.filter fun f => !(settingNames.map Key.text).contains f.1

theorem Settings.ofMerged_eq (fields : List (Key × Value)) : Settings.ofMerged fields =
    if strays fields = [] then Settings.ofFields fields
    else (sortKeys ((strays fields).map (·.1))).mapError .fault >>= fun ks =>
      .error (.refusal (.unknownFields ks)) := by
  rw [Settings.ofMerged]
  split
  case h_1 hnone => exact (if_pos hnone).symm
  case h_2 hsome => exact (if_neg hsome).symm

theorem Settings.ofMerged_eq_of_perm {fields fields' : List (Key × Value)} (h : fields.Perm fields')
    (hnodup : (Fields.identities fields).Nodup) : Settings.ofMerged fields = Settings.ofMerged fields' := by
  have hstrays : (strays fields).Perm (strays fields') := h.filter _
  have hkeys : (((strays fields).map (·.1)).map Key.identity).Nodup := by
    rw [List.map_map]
    exact hnodup.sublist (List.filter_sublist.map _)
  rw [ofMerged_eq, ofMerged_eq, ofFields_eq_of_perm h (Fields.nodup_keys hnodup),
    sortKeys_eq_of_perm (hstrays.map _) hkeys]
  simp only [← List.length_eq_zero_iff, hstrays.length_eq]

/-! ### Values of settings -/

/-- The settings with what fields give them. -/
def filled (fields : List (Key × Value)) : Settings :=
  Settings.default.map fun f => (f.1, (fields.lookup f.1).getD f.2)

/-- The parts one by one, also out of a text. -/
def takenApart (v : Value) : Value :=
  match elements v with
  | .ok items => .list items
  | .error _ => v

/-- What a setting holds of a value. -/
def stored (k : Key) (v : Value) : Value := if k = .text "template_parts" then takenApart v else v

theorem lookup_filled {f : Key × Value} (fields : List (Key × Value)) (hf : f ∈ Settings.default) :
    (filled fields).lookup f.1 = some ((fields.lookup f.1).getD f.2) := by
  have hdefault : Settings.default.lookup f.1 = some f.2 := Association.lookup_eq_some_of_nodup (by decide) hf
  rw [filled, Association.lookup_map (fun k v => (fields.lookup k).getD v), hdefault, Option.map_some]

/-- What is given for the parts. -/
def partsOf (fields : List (Key × Value)) : Value := (fields.lookup (.text "template_parts")).getD .null

/-- The settings with something for the parts. -/
def withParts (fields : List (Key × Value)) (parts : Value) : Settings :=
  (filled fields).map fun f => if f.1 = .text "template_parts" then (f.1, parts) else (f.1, f.2)

theorem withParts_takenApart (fields : List (Key × Value)) :
    withParts fields (takenApart (partsOf fields)) = (filled fields).map fun f => (f.1, stored f.1 f.2) := rfl

/-- The parts are given, as a list or as what can be taken apart, or they are to be found. -/
theorem Settings.ofFields_eq {fields : List (Key × Value)} (h : strays fields = []) :
    Settings.ofFields fields = checkBounds (filled fields) lowerBounds >>= fun _ =>
      if (partsOf fields).isNull || (elements (partsOf fields)).isOk
      then .ok ((filled fields).map fun f => (f.1, stored f.1 f.2))
      else .error (.fault .wrongKind) := by
  rw [Settings.ofFields, if_neg (by simpa [strays] using h), ← withParts_takenApart]
  -- What is filled in has the parts as they are given, so that both outcomes differ in the parts only.
  change (checkBounds (filled fields) lowerBounds >>= fun _ =>
    if (partsOf fields).isNull then .ok (withParts fields (partsOf fields))
    else (elements (partsOf fields)).mapError .fault >>= fun items => .ok (withParts fields (.list items))) = _
  congr 1
  funext _
  cases partsOf fields <;> rfl

theorem Settings.eq_of_ofMerged_eq_ok {fields : List (Key × Value)} {s : Settings}
    (h : Settings.ofMerged fields = .ok s) : s = (filled fields).map fun f => (f.1, stored f.1 f.2) := by
  rw [ofMerged_eq] at h
  split at h
  case isTrue hstrays =>
    rw [ofFields_eq hstrays, Sequence.bind_eq_ok_iff] at h
    obtain ⟨_, -, h⟩ := h
    split at h
    · exact (Except.ok.inj h).symm
    · cases h
  case isFalse =>
    obtain ⟨_, -, h⟩ := Sequence.bind_eq_ok_iff.1 h
    cases h

/-! ### Bounds -/

/-- Whether a value is of the kind that a setting is declared with. -/
def isDeclared (k : Key) : Value → Bool
  | .int _ | .bool _ => k ∉ [.text "template_parts", .text "output_filename"]
  | .text _ => k = .text "output_filename"
  | .list _ => k = .text "template_parts"
  | .null => k ∈ [.text "template_parts", .text "education_cap"]
  | .real _ | .mapping _ => false

/-- Whether a value can be held against the bound of a setting; where there may be none, there is none to hold. -/
def IsComparable (v : Value) (b : Text × Int) : Prop :=
  (∃ below, isBelow v b.2 = .ok below) ∨ v.isNull ∧ b.1 = "education_cap".toList

theorem isBelow_null (least : Int) : isBelow .null least = .error .wrongKind := rfl

theorem checkBounds_cons {s : Settings} {b : Text × Int} {bounds : List (Text × Int)} {v : Value}
    (hv : s.lookup (.text b.1) = some v) (h : IsComparable v b) : checkBounds s (b :: bounds) =
      if isBelow v b.2 = .ok true then .error (.refusal (.outOfRange b.1 b.2 v.display)) else checkBounds s bounds := by
  obtain ⟨name, least⟩ := b
  rw [checkBounds]
  have hget : (Fields.get? s name).getD .null = v := by rw [Fields.get?, hv, Option.getD_some]
  simp only [hget]
  rcases h with ⟨below, hbelow⟩ | ⟨hnull, rfl⟩
  · have hsome : v.isNull = false := by
      cases v <;> first | rfl | cases hbelow
    rw [hsome, hbelow, Bool.false_and, if_neg Bool.false_ne_true]
    cases below <;> rfl
  · obtain rfl : v = .null := by cases v <;> first | rfl | cases hnull
    rw [hnull, isBelow_null, if_pos (by rw [decide_eq_true rfl]; rfl), if_neg (by simp)]
    rfl

/-- Whether a number among settings is below its bound. -/
def HasLow (s : Settings) (bounds : List (Text × Int)) : Prop :=
  ∃ b ∈ bounds, ∃ v, s.lookup (.text b.1) = some v ∧ isBelow v b.2 = .ok true

theorem hasLow_cons_iff {s : Settings} {b : Text × Int} {bounds : List (Text × Int)} {v : Value}
    (hv : s.lookup (.text b.1) = some v) : HasLow s (b :: bounds) ↔ isBelow v b.2 = .ok true ∨ HasLow s bounds := by
  simp [HasLow, hv]

/-- Settings that can be compared are either within all bounds or refused for a number below one. -/
theorem checkBounds_of_comparable {s : Settings} {bounds : List (Text × Int)}
    (h : ∀ b ∈ bounds, ∃ v, s.lookup (.text b.1) = some v ∧ IsComparable v b) :
    (¬ HasLow s bounds ∧ checkBounds s bounds = .ok ()) ∨
      HasLow s bounds ∧ ∃ r, checkBounds s bounds = .error (.refusal r) := by
  induction bounds with
  | nil => exact .inl ⟨nofun, rfl⟩
  | cons b bounds ih =>
    obtain ⟨⟨v, hv, hcomparable⟩, hrest⟩ := List.forall_mem_cons.1 h
    rw [checkBounds_cons hv hcomparable, hasLow_cons_iff hv]
    by_cases hbelow : isBelow v b.2 = .ok true
    · rw [if_pos hbelow]
      exact .inr ⟨.inl hbelow, _, rfl⟩
    · rw [if_neg hbelow, or_iff_right hbelow]
      exact ih hrest

theorem isComparable_of_isDeclared {b : Text × Int} (hb : b ∈ lowerBounds) {v : Value}
    (h : isDeclared (.text b.1) v) : IsComparable v b := by
  have hkind : ∀ b ∈ lowerBounds, Key.text b.1 ≠ .text "template_parts" ∧ Key.text b.1 ≠ .text "output_filename" ∧
      (isDeclared (.text b.1) .null → b.1 = "education_cap".toList) := by decide
  obtain ⟨hparts, hname, hnull⟩ := hkind b hb
  cases v with
  | int n => exact .inl ⟨_, rfl⟩
  | bool b => exact .inl ⟨_, rfl⟩
  | null => exact .inr ⟨rfl, hnull h⟩
  | text s => exact absurd (of_decide_eq_true h) hname
  | list items => exact absurd (of_decide_eq_true h) hparts
  | real => cases h
  | mapping => cases h

/-- Whether keys have an order: all of them are numbers or none is. -/
def IsSortable (ks : List Key) : Prop := (∀ k ∈ ks, isNumeric k) ∨ ∀ k ∈ ks, ¬ isNumeric k

theorem sortKeys_of_isSortable {ks : List Key} (h : IsSortable ks) : sortKeys ks = .ok (ks.mergeSort keyLe) := by
  rw [sortKeys, if_pos]
  simpa [IsSortable] using h

theorem sortKeys_of_not_isSortable {ks : List Key} (h : ¬ IsSortable ks) : sortKeys ks = .error .wrongKind := by
  rw [sortKeys, if_neg]
  simpa [IsSortable] using h

theorem Settings.ofFields_of_declared {fields : List (Key × Value)} (hstrays : strays fields = [])
    (h : ∀ f ∈ Settings.default, isDeclared f.1 ((fields.lookup f.1).getD f.2)) :
    (¬ HasLow (filled fields) lowerBounds ∧ ∃ s, Settings.ofFields fields = .ok s) ∨
      HasLow (filled fields) lowerBounds ∧ ∃ r, Settings.ofFields fields = .error (.refusal r) := by
  have hparts : (partsOf fields).isNull || (elements (partsOf fields)).isOk := by
    have hdeclared := h (.text "template_parts", .null) (by simp [Settings.default])
    change isDeclared (.text "template_parts") (partsOf fields) at hdeclared
    cases hv : partsOf fields with
    | null => rfl
    | list => rfl
    | _ => simp [hv, isDeclared] at hdeclared
  have hcomparable : ∀ b ∈ lowerBounds, ∃ v, (filled fields).lookup (.text b.1) = some v ∧ IsComparable v b := by
    intro b hb
    have hdefault : ∀ b ∈ lowerBounds, (Settings.default.lookup (.text b.1)).isSome := by decide
    obtain ⟨v, hv⟩ := Option.isSome_iff_exists.1 (hdefault b hb)
    have hmem := Association.mem_of_lookup_eq_some hv
    exact ⟨_, lookup_filled fields hmem, isComparable_of_isDeclared hb (h _ hmem)⟩
  rw [ofFields_eq hstrays]
  rcases checkBounds_of_comparable hcomparable with ⟨hlow, hok⟩ | ⟨hlow, r, hr⟩
  · rw [hok, Sequence.bind_ok, if_pos hparts]
    exact .inl ⟨hlow, _, rfl⟩
  · rw [hr]
    exact .inr ⟨hlow, r, rfl⟩

/-- Fields whose settings are of their kinds are accepted, or refused, or their keys have no order. -/
theorem Settings.ofMerged_of_declared {fields : List (Key × Value)}
    (h : ∀ f ∈ Settings.default, isDeclared f.1 ((fields.lookup f.1).getD f.2)) :
    (strays fields = [] ∧ ¬ HasLow (filled fields) lowerBounds ∧ ∃ s, Settings.ofMerged fields = .ok s) ∨
    (IsSortable ((strays fields).map (·.1)) ∧ (strays fields ≠ [] ∨ HasLow (filled fields) lowerBounds) ∧
      ∃ r, Settings.ofMerged fields = .error (.refusal r)) ∨
    (¬ IsSortable ((strays fields).map (·.1)) ∧ Settings.ofMerged fields = .error (.fault .wrongKind)) := by
  rw [ofMerged_eq]
  by_cases hstrays : strays fields = []
  · rw [if_pos hstrays]
    rcases ofFields_of_declared hstrays h with ⟨hlow, hok⟩ | ⟨hlow, hrefused⟩
    · exact .inl ⟨hstrays, hlow, hok⟩
    · exact .inr (.inl ⟨.inl (by simp [hstrays]), .inr hlow, hrefused⟩)
  · rw [if_neg hstrays]
    by_cases hsortable : IsSortable ((strays fields).map (·.1))
    · rw [sortKeys_of_isSortable hsortable]
      exact .inr (.inl ⟨hsortable, .inl hstrays, _, rfl⟩)
    · rw [sortKeys_of_not_isSortable hsortable]
      exact .inr (.inr ⟨hsortable, rfl⟩)

end DeckMerge.Deck
