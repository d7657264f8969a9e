import DeckMerge.Document.Reading
import DeckMerge.Proofs.Fields
import DeckMerge.Proofs.Sequence

/-!
Values without references. They are resolved to themselves: the written form of a value is longer than its
parts are deep. Where no such value is a mapping, one layer is put over another key by key.
-/

namespace DeckMerge.Document

/-- No text of a value refers to another or is missing, and the keys of each of its mappings are distinct and
not null. -/
inductive Plain : Value → Prop
  | null : Plain .null
  | bool (b : Bool) : Plain (.bool b)
  | int (n : Int) : Plain (.int n)
  | real (x : Binary64) : Plain (.real x)
  | text {s : Text} : ¬ isReferring s → s ≠ missing → Plain (.text s)
  | list {items : List Value} : (∀ v ∈ items, Plain v) → Plain (.list items)
  | mapping {fields : List (Key × Value)} : (∀ f ∈ fields, f.1 ≠ .null) → (fields.map (·.1)).Nodup →
    (∀ f ∈ fields, Plain f.2) → Plain (.mapping fields)

variable {root v : Value} {p : Place} {fuel : Nat}

theorem length_shown_le_items {items : List Value} (h : v ∈ items) :
    v.shown.length ≤ (Value.shownItems items).length := by
  induction items with
  | nil => cases h
  | cons w items ih =>
    cases items with
    | nil =>
      obtain rfl := List.mem_singleton.1 h
      exact Nat.le_refl _
    | cons w' items =>
      rw [Value.shownItems, List.length_append, List.length_append]
      · rcases List.mem_cons.1 h with rfl | h
        · omega
        · have := ih h
          omega
      · exact List.cons_ne_nil _ _

theorem length_shown_le_fields {fields : List (Key × Value)} {f : Key × Value} (h : f ∈ fields) :
    f.2.shown.length ≤ (Value.shownFields fields).length := by
  induction fields with
  | nil => cases h
  | cons g fields ih =>
    obtain ⟨k, w⟩ := g
    cases fields with
    | nil =>
      obtain rfl := List.mem_singleton.1 h
      rw [Value.shownFields]
      simp only [List.length_append]
      omega
    | cons g' fields =>
      rw [Value.shownFields]
      · simp only [List.length_append]
        rcases List.mem_cons.1 h with rfl | h
        · simp only
          omega
        · have := ih h
          omega
      · exact List.cons_ne_nil _ _

theorem length_shownItems_lt (items : List Value) :
    (Value.shownItems items).length < (Value.list items).shown.length := by
  have hopening : "[".length = 1 := rfl
  simp only [Value.shown, List.length_append, String.length_toList]
  omega

theorem length_shownFields_lt (fields : List (Key × Value)) :
    (Value.shownFields fields).length < (Value.mapping fields).shown.length := by
  have hopening : "\x7b".length = 1 := rfl
  simp only [Value.shown, List.length_append, String.length_toList]
  omega

theorem get?_append (root : Value) (p : Place) (s : Step) :
    get? root (p ++ [s]) = (get? root p).bind (child? · s) := by
  rw [get?, List.foldlM_append]
  cases h : get? root p <;> simp_all [get?]

/-- A plain value stands where it stands. -/
theorem settle_of_plain (hp : get? root p = some v) (hv : Plain v) : settle root (fuel + 1) p = .ok (.place p) := by
  rw [settle, hp]
  cases hv with
  | text hreferring _ => simp [hreferring]
  | _ => rfl

/-- What stands one step below a place. -/
theorem valueOf_settle_of_plain (hp : get? root p = some v) {s : Step} {w : Value} (hchild : child? v s = some w)
    (hw : Plain w) (hfuel : w.shown.length < fuel)
    (hvalue : ∀ {p v}, get? root p = some v → Plain v → v.shown.length < fuel → valueOf root fuel (.place p) = .ok v) :
    (do valueOf root fuel (← settle root fuel (p ++ [s]))) = .ok w := by
  have hplace : get? root (p ++ [s]) = some w := by rw [get?_append, hp, Option.bind_some, hchild]
  obtain ⟨fuel, rfl⟩ := Nat.exists_eq_add_of_lt (Nat.zero_lt_of_lt hfuel)
  rw [Nat.zero_add] at *
  rw [settle_of_plain hplace hw, Sequence.bind_ok, hvalue hplace hw hfuel]

/-- By induction on the fuel: what stands below a value has a shorter written form. -/
theorem valueOf_of_plain (hp : get? root p = some v) (hv : Plain v) (hfuel : v.shown.length < fuel) :
    valueOf root fuel (.place p) = .ok v := by
  induction fuel generalizing p v with
  | zero => omega
  | succ fuel ih =>
    rw [valueOf, hp]
    cases hv with
    | @list items hitems =>
      have hless := length_shownItems_lt items
      have hitem (n : Nat) (hn : n < items.length) : (do
          valueOf root fuel (← settle root fuel (p ++ [Step.item n]))) = .ok items[n] := by
        have hmem := List.getElem_mem hn
        have hshorter := length_shown_le_items hmem
        exact valueOf_settle_of_plain hp (List.getElem?_eq_getElem hn) (hitems _ hmem) (by omega) ih
      simp only [Sequence.mapM_range_eq_ok hitem, Sequence.bind_ok, Sequence.pure_eq_ok]
    | @mapping fields hkeys hnodup hfields =>
      have hless := length_shownFields_lt fields
      simp only
      rw [Sequence.mapM_eq_ok_map (g := id), List.map_id]
      · rfl
      · intro f hf
        obtain ⟨k, w⟩ := f
        have hk : k ≠ .null := hkeys _ hf
        have hshorter : w.shown.length ≤ _ := length_shown_le_fields hf
        have hchild : child? (.mapping fields) (.field k) = some w :=
          Association.lookup_eq_some_of_nodup hnodup hf
        have hvalue := valueOf_settle_of_plain hp hchild (hfields _ hf) (by omega) ih
        obtain ⟨t, hsettle, hvalue⟩ := Sequence.bind_eq_ok_iff.1 hvalue
        simp only [hk, if_false, hsettle, hvalue, Sequence.bind_ok, Sequence.pure_eq_ok, id_eq]
    | _ => rfl

theorem resolve_of_plain (hv : Plain v) : resolve v = .ok v :=
  valueOf_of_plain rfl hv (by omega)

/-! ### Layers -/

/-- A plain value that has no fields of its own. -/
structure Flat (v : Value) : Prop where
  plain : Plain v
  no_fields : ∀ fields, v ≠ .mapping fields

@[simp] theorem flat_null : Flat .null := ⟨.null, nofun⟩

@[simp] theorem flat_int (n : Int) : Flat (.int n) := ⟨.int n, nofun⟩

theorem flat_text {s : Text} (hreferring : ¬ isReferring s) (hmissing : s ≠ missing) : Flat (.text s) :=
  ⟨.text hreferring hmissing, nofun⟩

/-- A list goes over anything but a mapping, and what is not missing goes over anything. -/
theorem mergeValue_of_flat {w : Value} (hw : Flat w) (hv : Flat v) : mergeValue w v = .ok v := by
  cases hv.plain with
  | mapping => exact absurd rfl (hv.no_fields _)
  | list =>
    rw [mergeValue]
    exact fun fields hfields => hw.no_fields fields hfields
  | text _ hmissing => simp [mergeValue, isMissing, hmissing]
  | _ => rfl

theorem mergeFields_of_flat {fields more : List (Key × Value)} (hfields : ∀ f ∈ fields, Flat f.2)
    (hmore : ∀ f ∈ more, Flat f.2) : mergeFields fields more = .ok (Fields.layer fields more) := by
  induction more generalizing fields with
  | nil => rfl
  | cons f more ih =>
    obtain ⟨k, v⟩ := f
    obtain ⟨hv, hmore⟩ := List.forall_mem_cons.1 hmore
    have hset : ∀ f ∈ Fields.set fields k v, Flat f.2 := fun f hf =>
      (Fields.mem_set hf).elim (hfields f) fun hsame => hsame.1 ▸ hv
    rw [mergeFields, Fields.layer_cons, ← ih hset hmore]
    cases hfind : Fields.find? fields k with
    | none => rfl
    | some w =>
      obtain ⟨f, hf, rfl⟩ := Option.map_eq_some_iff.1 hfind
      simp only [mergeValue_of_flat (hfields f (List.mem_of_find?_eq_some hf)) hv, Sequence.bind_ok]

end DeckMerge.Document
