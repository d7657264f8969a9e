import DeckMerge.Proofs.Deck.Placement
import DeckMerge.Proofs.Sequence

/-!
The plan of a rendering: a job for each page and for each templated part that is left, and the slides
that these jobs are placed in.
-/

namespace DeckMerge.Deck

open Placeholder (Binding)

variable {capacity n : Nat} {last : Text × Text} {parts : List (Text × Text)} {bs : List Binding}
  {j : Job}

/-! ### Jobs -/

@[simp] theorem jobsFrom_nil : jobsFrom capacity last n parts [] =
    parts.map fun part => ⟨part.1, part.2, emptyBinding capacity, .surplus⟩ := rfl

@[simp] theorem jobsFrom_copy (b : Binding) : jobsFrom capacity last n [] (b :: bs) =
    ⟨last.1 ++ "#page" ++ Text.ofNat n, last.2, b, .copy⟩ :: jobsFrom capacity last (n + 1) [] bs := rfl

@[simp] theorem jobsFrom_page (part : Text × Text) (b : Binding) :
    jobsFrom capacity last n (part :: parts) (b :: bs) =
      ⟨part.1, part.2, b, .page⟩ :: jobsFrom capacity last (n + 1) parts bs := rfl

theorem getElem?_jobsFrom_page (capacity : Nat) (last : Text × Text) (n : Nat)
    (parts : List (Text × Text)) (bs : List Binding) {i : Nat} {b : Binding} (h : bs[i]? = some b) :
    ∃ j, (jobsFrom capacity last n parts bs)[i]? = some j ∧ j.source = (parts[i]?.getD last).2 ∧
      j.binding = b := by
  induction bs generalizing n parts i with
  | nil => simp at h
  | cons b' bs ih =>
    cases parts with
    | nil =>
      rw [jobsFrom_copy]
      cases i with
      | zero => exact ⟨_, rfl, rfl, Option.some.inj h⟩
      | succ i => exact ih (n + 1) [] h
    | cons part parts =>
      rw [jobsFrom_page]
      cases i with
      | zero => exact ⟨_, rfl, rfl, Option.some.inj h⟩
      | succ i => exact ih (n + 1) parts h

theorem getElem?_jobsFrom_surplus (capacity : Nat) (last : Text × Text) (n : Nat)
    (parts : List (Text × Text)) (bs : List Binding) {i : Nat} {part : Text × Text}
    (hi : bs.length ≤ i) (h : parts[i]? = some part) : (jobsFrom capacity last n parts bs)[i]? =
      some ⟨part.1, part.2, emptyBinding capacity, .surplus⟩ := by
  induction bs generalizing n parts i with
  | nil => simp [h]
  | cons b bs ih =>
    cases parts with
    | nil => simp at h
    | cons part' parts =>
      rw [jobsFrom_page]
      cases i with
      | zero => simp at hi
      | succ i => exact ih (n + 1) parts (Nat.le_of_succ_le_succ hi) h

/-- The job of a templated part has the page of its number, or empty slots. -/
theorem exists_job_of_part (capacity : Nat) (last : Text × Text) (n : Nat) {parts : List (Text × Text)}
    (bs : List Binding) {i : Nat} {part : Text × Text} (h : parts[i]? = some part) :
    ∃ j, (jobsFrom capacity last n parts bs)[i]? = some j ∧ j.source = part.2 ∧
      j.binding = bs[i]?.getD (emptyBinding capacity) := by
  cases hb : bs[i]? with
  | some b =>
    obtain ⟨j, hj, hsource, hbinding⟩ := getElem?_jobsFrom_page capacity last n parts bs hb
    exact ⟨j, hj, by rw [hsource, h]; rfl, hbinding⟩
  | none =>
    have hsurplus := getElem?_jobsFrom_surplus capacity last n parts bs (List.getElem?_eq_none_iff.1 hb) h
    exact ⟨_, hsurplus, rfl, rfl⟩

/-- Where a job comes from: a templated part, or the last of them for a copy; and a page fills it, or nothing. -/
structure Planned (capacity : Nat) (last : Text × Text) (parts : List (Text × Text)) (bs : List Binding)
    (j : Job) : Prop where
  origin : (j.name, j.source) ∈ parts ∧ j.role ≠ .copy ∨ j.source = last.2 ∧ j.role = .copy
  binding : j.binding ∈ bs ∨ j.binding = emptyBinding capacity

theorem Planned.cons {b : Binding} {parts' : List (Text × Text)} (h : Planned capacity last parts bs j)
    (hparts : parts ⊆ parts') : Planned capacity last parts' (b :: bs) j where
  origin := h.origin.imp_left (And.imp_left fun hmem => hparts hmem)
  binding := h.binding.imp_left (List.mem_cons_of_mem b)

theorem planned_of_mem_jobsFrom (h : j ∈ jobsFrom capacity last n parts bs) :
    Planned capacity last parts bs j := by
  induction bs generalizing n parts with
  | nil =>
    obtain ⟨part, hpart, rfl⟩ := List.mem_map.1 h
    exact ⟨.inl ⟨hpart, nofun⟩, .inr rfl⟩
  | cons b bs ih =>
    cases parts with
    | nil =>
      rcases List.mem_cons.1 h with rfl | h
      · exact ⟨.inr ⟨rfl, rfl⟩, .inl List.mem_cons_self⟩
      · exact (ih h).cons (List.Subset.refl [])
    | cons part parts =>
      rcases List.mem_cons.1 h with rfl | h
      · exact ⟨.inl ⟨List.mem_cons_self, nofun⟩, .inl List.mem_cons_self⟩
      · exact (ih h).cons (List.subset_cons_self part parts)

theorem mem_of_mem_jobsFrom (h : j ∈ jobsFrom capacity last n parts bs) (hrole : j.role ≠ .copy) :
    (j.name, j.source) ∈ parts :=
  ((planned_of_mem_jobsFrom h).origin.resolve_right fun hcopy => hrole hcopy.2).1

/-- A copy is rendered from the last templated part. -/
theorem source_of_mem_jobsFrom (h : j ∈ jobsFrom capacity last n parts bs) (hrole : j.role = .copy) :
    j.source = last.2 :=
  ((planned_of_mem_jobsFrom h).origin.resolve_left fun hpart => hpart.2 hrole).1

theorem names_jobsFrom (capacity : Nat) (last : Text × Text) (n : Nat) (parts : List (Text × Text))
    (bs : List Binding) : ((jobsFrom capacity last n parts bs).filter fun j => j.role ≠ .copy).map
      (·.name) = parts.map (·.1) := by
  induction bs generalizing n parts with
  | nil => simp [List.filter_map, Function.comp_def]
  | cons b bs ih =>
    cases parts with
    | nil => simpa using ih (n + 1) []
    | cons part parts => simpa using ih (n + 1) parts

theorem countP_jobsFrom (capacity : Nat) (last : Text × Text) (n : Nat) (parts : List (Text × Text))
    (bs : List Binding) : (jobsFrom capacity last n parts bs).countP (fun j => j.role = .copy) =
      bs.length - parts.length := by
  induction bs generalizing n parts with
  | nil => simp [List.countP_map, Function.comp_def]
  | cons b bs ih =>
    cases parts with
    | nil => simpa using ih (n + 1) []
    | cons part parts => simpa using ih (n + 1) parts

/-- Pages go to the templated parts first, and then to the added ones. -/
theorem destinations_jobsFrom (capacity : Nat) (last : Text × Text) (n : Nat)
    (parts : List (Text × Text)) (bs : List Binding) {added : List Text}
    (h : added.length = bs.length - parts.length) :
    destinations (jobsFrom capacity last n parts bs) added = parts.map (·.1) ++ added := by
  induction bs generalizing n parts added with
  | nil =>
    obtain rfl : added = [] := List.length_eq_zero_iff.1 (by simpa using h)
    have hsurplus : ∀ j ∈ parts.map fun part => (⟨part.1, part.2, emptyBinding capacity, .surplus⟩ : Job),
        j.role ≠ .copy := by
      intro j hj
      obtain ⟨part, -, rfl⟩ := List.mem_map.1 hj
      simp
    rw [jobsFrom_nil, destinations_pages hsurplus]
    simp
  | cons b bs ih =>
    cases parts with
    | nil =>
      cases added with
      | nil => simp at h
      | cons name added =>
        rw [jobsFrom_copy, destinations_copy rfl, ih (n + 1) [] (by simpa using h)]
        rfl
    | cons part parts =>
      rw [jobsFrom_page, destinations_page (by simp), ih (n + 1) parts (by simpa using h)]
      rfl

end DeckMerge.Deck
