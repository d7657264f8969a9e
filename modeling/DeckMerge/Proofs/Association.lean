import Mathlib.Data.List.Nodup

/-!
Values under keys, as lists in which the first of a key counts.
-/

namespace DeckMerge.Association

variable {κ α β : Type} [BEq κ]

theorem lookup_map [LawfulBEq κ] (f : κ → α → β) (xs : List (κ × α)) (k : κ) :
    (xs.map fun x => (x.1, f x.1 x.2)).lookup k = (xs.lookup k).map (f k) := by
  induction xs with
  | nil => rfl
  | cons x xs ih =>
    obtain ⟨k', a⟩ := x
    rw [List.map_cons, List.lookup_cons, List.lookup_cons, ih]
    cases hk : k == k' with
    | false => rfl
    | true => rw [eq_of_beq hk, Option.map_some]

theorem lookup_map_snd [LawfulBEq κ] (f : α → β) (xs : List (κ × α)) (k : κ) :
    (xs.map fun x => (x.1, f x.2)).lookup k = (xs.lookup k).map f :=
  lookup_map (fun _ => f) xs k

theorem lookup_cons_eq_ite {κ : Type} [DecidableEq κ] (xs : List (κ × α)) (x k : κ) (a : α) :
    ((x, a) :: xs).lookup k = if k = x then some a else xs.lookup k := by
  by_cases h : k = x
  · simp [h]
  · rw [List.lookup_cons, beq_false_of_ne h, if_neg h]

theorem lookup_flatMap {ι : Type} (is : List ι) (f : ι → List (κ × α)) (k : κ) :
    (is.flatMap f).lookup k = is.findSome? fun i => (f i).lookup k := by
  induction is with
  | nil => rfl
  | cons i is ih =>
    rw [List.flatMap_cons, List.lookup_append, ih, List.findSome?_cons]
    cases (f i).lookup k <;> rfl

theorem lookup_eq_none_of_notMem [LawfulBEq κ] {xs : List (κ × α)} {k : κ} (h : k ∉ xs.map (·.1)) :
    xs.lookup k = none := by
  rw [List.lookup_eq_none_iff]
  intro x hx
  simp only [bne_iff_ne]
  rintro rfl
  exact h (List.mem_map_of_mem hx)

theorem mem_of_lookup_eq_some [LawfulBEq κ] {xs : List (κ × α)} {k : κ} {a : α}
    (h : xs.lookup k = some a) : (k, a) ∈ xs := by
  obtain ⟨before, after, rfl, -⟩ := List.lookup_eq_some_iff.1 h
  simp

theorem lookup_eq_some_of_unique [LawfulBEq κ] {xs : List (κ × α)} {k : κ} {a : α} (h : (k, a) ∈ xs)
    (hunique : ∀ a', (k, a') ∈ xs → a' = a) : xs.lookup k = some a := by
  cases hl : xs.lookup k with
  | none => simpa using List.lookup_eq_none_iff.1 hl _ h
  | some a' => rw [hunique a' (mem_of_lookup_eq_some hl)]

theorem lookup_eq_some_of_nodup [LawfulBEq κ] {xs : List (κ × α)} {k : κ} {a : α} (h : (xs.map (·.1)).Nodup)
    (hmem : (k, a) ∈ xs) : xs.lookup k = some a :=
  lookup_eq_some_of_unique hmem fun _ hmem' => congrArg Prod.snd (List.inj_on_of_nodup_map h hmem' hmem rfl)

theorem lookup_eq_some_iff_of_nodup [LawfulBEq κ] {xs : List (κ × α)} {k : κ} {a : α} (h : (xs.map (·.1)).Nodup) :
    xs.lookup k = some a ↔ (k, a) ∈ xs :=
  ⟨mem_of_lookup_eq_some, lookup_eq_some_of_nodup h⟩

theorem lookup_eq_of_perm [LawfulBEq κ] {xs ys : List (κ × α)} (h : xs.Perm ys) (hnodup : (xs.map (·.1)).Nodup)
    (k : κ) : xs.lookup k = ys.lookup k := by
  ext a
  rw [lookup_eq_some_iff_of_nodup hnodup, lookup_eq_some_iff_of_nodup ((h.map _).nodup hnodup), h.mem_iff]

end DeckMerge.Association
