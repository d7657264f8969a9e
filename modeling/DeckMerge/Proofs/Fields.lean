import DeckMerge.Proofs.Association
import DeckMerge.Value
import Mathlib.Data.List.Perm.Basic

/-!
Fields that are set by their keys, where numbers that are equal are one key. Of fields put over others, the
last with a key has the say; and fields of different keys may be put in any order.
-/

namespace DeckMerge

/-- A text is the same key as nothing but itself. -/
@[simp] theorem Key.identity_eq_text_iff {k : Key} {name : Text} :
    k.identity = (Key.text name).identity ↔ k = .text name := by
  cases k <;> simp [identity]

@[simp] theorem Key.identity_eq_null_iff {k : Key} : k.identity = Key.null.identity ↔ k = .null := by
  cases k <;> simp [identity]

namespace Fields

variable {fields base more : List (Key × Value)} {f : Key × Value} {k : Key} {v : Value}
  {i : Option Text ⊕ (Int × Rat)}

/-- The keys of fields, as what counts in them. -/
def identities (fields : List (Key × Value)) : List (Option Text ⊕ (Int × Rat)) := fields.map (·.1.identity)

theorem identities_cons (f : Key × Value) (fields : List (Key × Value)) :
    identities (f :: fields) = f.1.identity :: identities fields := rfl

theorem mem_identities (h : f ∈ fields) : f.1.identity ∈ identities fields :=
  List.mem_map_of_mem (f := fun f : Key × Value => f.1.identity) h

theorem nodup_keys (h : (identities fields).Nodup) : (fields.map (·.1)).Nodup := by
  have hmap : ((fields.map (·.1)).map Key.identity).Nodup := by rwa [List.map_map]
  exact hmap.of_map _

/-! ### One field -/

theorem set_nil (k : Key) (v : Value) : set [] k v = [(k, v)] := rfl

theorem set_cons_of_eq {k' : Key} (h : k'.identity = k.identity) (w : Value) (fields : List (Key × Value))
    (v : Value) : set ((k', w) :: fields) k v = (k', v) :: fields := if_pos h

theorem set_cons_of_ne {k' : Key} (h : k'.identity ≠ k.identity) (w : Value) (fields : List (Key × Value))
    (v : Value) : set ((k', w) :: fields) k v = (k', w) :: set fields k v := if_neg h

@[simp] theorem set_set (fields : List (Key × Value)) (k : Key) (v : Value) :
    set (set fields k v) k v = set fields k v := by
  induction fields with
  | nil => simp [set_nil, set_cons_of_eq]
  | cons f fields ih =>
    obtain ⟨k', w⟩ := f
    by_cases hsame : k'.identity = k.identity
    · simp only [set_cons_of_eq hsame]
    · simp only [set_cons_of_ne hsame, ih]

theorem get?_set (fields : List (Key × Value)) (k : Key) (v : Value) (name : Text) :
    get? (set fields k v) name = if k = .text name then some v else get? fields name := by
  induction fields with
  | nil => simp [set_nil, get?, Association.lookup_cons_eq_ite, eq_comm]
  | cons f fields ih =>
    obtain ⟨k', w⟩ := f
    by_cases hsame : k'.identity = k.identity
    · have hkey : k' = .text name ↔ k = .text name := by
        rw [← Key.identity_eq_text_iff, hsame, Key.identity_eq_text_iff]
      simp only [set_cons_of_eq hsame, get?, Association.lookup_cons_eq_ite, eq_comm (a := Key.text name), hkey]
      split <;> rfl
    · simp only [get?, Association.lookup_cons_eq_ite] at ih ⊢
      rw [set_cons_of_ne hsame, Association.lookup_cons_eq_ite, ih]
      by_cases hk : k = .text name
      · subst hk
        have hne : k' ≠ .text name := fun h => hsame (by rw [h])
        simp [Ne.symm hne]
      · simp [hk]

theorem mem_set (h : f ∈ set fields k v) : f ∈ fields ∨ f.2 = v ∧ f.1.identity = k.identity := by
  induction fields with
  | nil => exact .inr (by simp [List.mem_singleton.1 h])
  | cons g fields ih =>
    obtain ⟨k', w⟩ := g
    by_cases hsame : k'.identity = k.identity
    · rw [set_cons_of_eq hsame] at h
      rcases List.mem_cons.1 h with rfl | h
      · exact .inr ⟨rfl, hsame⟩
      · exact .inl (List.mem_cons_of_mem _ h)
    · rw [set_cons_of_ne hsame] at h
      rcases List.mem_cons.1 h with rfl | h
      · exact .inl List.mem_cons_self
      · exact (ih h).imp_left (List.mem_cons_of_mem _)

theorem mem_identities_set : i ∈ identities (set fields k v) ↔ i ∈ identities fields ∨ i = k.identity := by
  induction fields with
  | nil => simp [set_nil, identities]
  | cons g fields ih =>
    obtain ⟨k', w⟩ := g
    by_cases hsame : k'.identity = k.identity
    · simp [set_cons_of_eq hsame, identities_cons, hsame, or_comm, or_left_comm]
    · rw [set_cons_of_ne hsame, identities_cons, identities_cons, List.mem_cons, ih, List.mem_cons, or_assoc]

theorem nodup_set (h : (identities fields).Nodup) (k : Key) (v : Value) :
    (identities (set fields k v)).Nodup := by
  induction fields with
  | nil => exact List.nodup_singleton _
  | cons g fields ih =>
    obtain ⟨k', w⟩ := g
    by_cases hsame : k'.identity = k.identity
    · rwa [set_cons_of_eq hsame]
    · obtain ⟨hfresh, hrest⟩ := List.nodup_cons.1 h
      rw [set_cons_of_ne hsame]
      refine List.nodup_cons.2 ⟨fun hmem => ?_, ih hrest⟩
      exact (mem_identities_set.1 hmem).elim hfresh hsame

/-- The fields under one key. -/
def under (i : Option Text ⊕ (Int × Rat)) (fields : List (Key × Value)) : List (Key × Value) :=
  fields.filter fun f => f.1.identity = i

theorem under_append (fields more : List (Key × Value)) : under i (fields ++ more) = under i fields ++ under i more :=
  List.filter_append _ _

theorem under_eq_nil_iff : under i fields = [] ↔ i ∉ identities fields := by
  simp [under, identities, List.filter_eq_nil_iff]

/-- Fields of different keys stand under each key as if they were in another order. -/
theorem under_swap (h : (identities fields).Disjoint (identities more))
    (hfields : (identities base).Disjoint (identities fields)) (hmore : (identities base).Disjoint (identities more)) :
    under i (fields ++ base ++ more) = under i (more ++ base ++ fields) := by
  simp only [under_append]
  by_cases hi : i ∈ identities fields
  · have hbase : under i base = [] := under_eq_nil_iff.2 fun hbase => hfields hbase hi
    have hmore : under i more = [] := under_eq_nil_iff.2 (h hi)
    simp [hbase, hmore]
  · by_cases hbase : i ∈ identities base
    · simp [under_eq_nil_iff.2 hi, under_eq_nil_iff.2 (hmore hbase)]
    · simp [under_eq_nil_iff.2 hi, under_eq_nil_iff.2 hbase]

theorem under_set (fields : List (Key × Value)) (k : Key) (v : Value) :
    under i (set fields k v) = if k.identity = i then set (under i fields) k v else under i fields := by
  induction fields with
  | nil => by_cases hk : k.identity = i <;> simp [set_nil, under, hk]
  | cons g fields ih =>
    obtain ⟨k', w⟩ := g
    simp only [under] at ih
    by_cases hsame : k'.identity = k.identity
    · by_cases hk : k.identity = i <;> simp [set_cons_of_eq, under, hsame, hk]
    · rw [set_cons_of_ne hsame]
      by_cases hk : k.identity = i
      · subst hk
        simp [under, hsame, ih]
      · by_cases hi : k'.identity = i
        · subst hi
          simp [under, hk, ih]
        · simp [under, hk, hi, ih]

/-- Fields that agree under each key are the same, in some order. -/
theorem perm_of_under_eq (hfields : (identities fields).Nodup) (hmore : (identities more).Nodup)
    (h : ∀ i, under i fields = under i more) : fields.Perm more := by
  refine (List.perm_ext_iff_of_nodup (hfields.of_map _) (hmore.of_map _)).2 fun f => ?_
  have hmem (fields : List (Key × Value)) : f ∈ fields ↔ f ∈ under f.1.identity fields := by simp [under]
  rw [hmem fields, hmem more, h]

/-! ### Layers -/

/-- Fields with others put over them. -/
def layer (base more : List (Key × Value)) : List (Key × Value) := more.foldl (fun fs f => set fs f.1 f.2) base

theorem layer_cons (base : List (Key × Value)) (f : Key × Value) (more : List (Key × Value)) :
    layer base (f :: more) = layer (set base f.1 f.2) more := rfl

theorem layer_append (base more last : List (Key × Value)) :
    layer base (more ++ last) = layer (layer base more) last := List.foldl_append

theorem get?_layer (base more : List (Key × Value)) (name : Text) :
    get? (layer base more) name = (get? more.reverse name).or (get? base name) := by
  induction more generalizing base with
  | nil => rfl
  | cons f more ih =>
    obtain ⟨k, v⟩ := f
    have hlast : get? [(k, v)] name = if k = .text name then some v else none := by
      simp [get?, Association.lookup_cons_eq_ite, eq_comm]
    have hreverse : get? ((k, v) :: more).reverse name =
        (get? more.reverse name).or (get? [(k, v)] name) := by
      rw [List.reverse_cons, get?, List.lookup_append]
      rfl
    rw [layer_cons, ih, get?_set, hreverse, hlast, Option.or_assoc]
    by_cases hk : k = .text name <;> simp [hk]

theorem mem_layer (h : f ∈ layer base more) : f ∈ base ∨ ∃ g ∈ more, f.2 = g.2 ∧ f.1.identity = g.1.identity := by
  induction more generalizing base with
  | nil => exact .inl h
  | cons g more ih =>
    rcases ih h with h | ⟨g', hg', hsame⟩
    · exact (mem_set h).imp_right fun hsame => ⟨g, List.mem_cons_self, hsame⟩
    · exact .inr ⟨g', List.mem_cons_of_mem _ hg', hsame⟩

theorem mem_identities_layer : i ∈ identities (layer base more) ↔ i ∈ identities base ∨ i ∈ identities more := by
  induction more generalizing base with
  | nil => simp [layer, identities]
  | cons f more ih => rw [layer_cons, ih, mem_identities_set, identities_cons, List.mem_cons, or_assoc]

theorem nodup_layer (h : (identities base).Nodup) (more : List (Key × Value)) :
    (identities (layer base more)).Nodup := by
  induction more generalizing base with
  | nil => exact h
  | cons f more ih => exact ih (nodup_set h _ _)

/-- Fields put over twice are as if put over once. -/
theorem layer_under_twice (h : (identities more).Nodup) :
    layer (layer base (under i more)) (under i more) = layer base (under i more) := by
  induction more with
  | nil => rfl
  | cons f more ih =>
    obtain ⟨hfresh, hrest⟩ := List.nodup_cons.1 h
    by_cases hf : f.1.identity = i
    · have hmore : under i more = [] := under_eq_nil_iff.2 (hf ▸ hfresh)
      have hunder : under i (f :: more) = [f] := by
        rw [under, List.filter_cons_of_pos (by simpa using hf)]
        exact congrArg _ hmore
      rw [hunder]
      exact set_set base f.1 f.2
    · have hunder : under i (f :: more) = under i more := List.filter_cons_of_neg (by simpa using hf)
      rw [hunder]
      exact ih hrest

theorem under_layer (base more : List (Key × Value)) :
    under i (layer base more) = layer (under i base) (under i more) := by
  induction more generalizing base with
  | nil => rfl
  | cons f more ih =>
    rw [layer_cons, ih, under_set]
    by_cases hf : f.1.identity = i <;> simp [under, hf, layer]

/-- Layers that agree under each key come to the same fields, in some order. -/
theorem layer_perm {more' : List (Key × Value)} (h : (identities base).Nodup)
    (hmore : ∀ i, layer (under i base) (under i more) = layer (under i base) (under i more')) :
    (layer base more).Perm (layer base more') :=
  perm_of_under_eq (nodup_layer h _) (nodup_layer h _) fun i => by rw [under_layer, under_layer, hmore]

/-! ### Nulls -/

/-- The fields that are not null. -/
def withoutNulls (fields : List (Key × Value)) : List (Key × Value) := fields.filter fun f => !f.2.isNull

theorem get?_withoutNulls (h : (fields.map (·.1)).Nodup) (name : Text) :
    get? (withoutNulls fields) name = (get? fields name).filter (!·.isNull) := by
  induction fields with
  | nil => rfl
  | cons f fields ih =>
    obtain ⟨k, v⟩ := f
    obtain ⟨hfresh, hrest⟩ := List.nodup_cons.1 h
    have ih := ih hrest
    simp only [get?, withoutNulls, Association.lookup_cons_eq_ite] at ih ⊢
    cases hv : v.isNull with
    | false =>
      rw [List.filter_cons_of_pos (by simp [hv]), Association.lookup_cons_eq_ite, ih]
      split <;> simp [Option.filter, hv]
    | true =>
      rw [List.filter_cons_of_neg (by simp [hv]), ih]
      split
      case isTrue hk =>
        rw [hk, Association.lookup_eq_none_of_notMem hfresh]
        simp [Option.filter, hv]
      case isFalse hk => rfl

end Fields

end DeckMerge
