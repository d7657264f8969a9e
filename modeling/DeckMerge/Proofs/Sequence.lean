import Mathlib.Data.List.Forall2

/-!
Steps that may fail: what it means that several of them, or one after another, succeed.
-/

namespace DeckMerge.Sequence

variable {ε α β : Type} {f : α → Except ε β} {xs : List α} {ys : List β}

@[simp] theorem bind_ok (a : α) (f : α → Except ε β) : (Except.ok a >>= f) = f a := rfl

theorem bind_eq_ok_iff {x : Except ε α} {f : α → Except ε β} {b : β} :
    (x >>= f) = .ok b ↔ ∃ a, x = .ok a ∧ f a = .ok b := by
  cases x with
  | error e => simp [bind, Except.bind]
  | ok a => simp

theorem bind_eq_error_iff {x : Except ε α} {f : α → Except ε β} {e : ε} :
    (x >>= f) = .error e ↔ x = .error e ∨ ∃ a, x = .ok a ∧ f a = .error e := by
  cases x with
  | error e' => simp [bind, Except.bind]
  | ok a => simp

@[simp] theorem pure_eq_ok (a : α) : (pure a : Except ε α) = .ok a := rfl

theorem mapError_eq_ok_iff {ε' : Type} {x : Except ε α} {f : ε → ε'} {a : α} : x.mapError f = .ok a ↔ x = .ok a := by
  cases x <;> simp [Except.mapError]

theorem exists_of_map_toOption {x : Except ε α} {g : α → β} {b : β} (h : x.toOption.map g = some b) :
    ∃ a, x = .ok a ∧ g a = b := by
  cases x with
  | error e => cases h
  | ok a => exact ⟨a, rfl, Option.some.inj h⟩

theorem mapM_eq_ok_iff : xs.mapM f = .ok ys ↔ List.Forall₂ (fun x y => f x = .ok y) xs ys := by
  induction xs generalizing ys with
  | nil => cases ys <;> simp
  | cons x xs ih =>
    rw [List.mapM_cons, bind_eq_ok_iff]
    simp only [bind_eq_ok_iff, ih, pure_eq_ok, Except.ok.injEq, List.forall₂_cons_left_iff]
    constructor
    · rintro ⟨y, hy, ys', hys, rfl⟩
      exact ⟨y, ys', hy, hys, rfl⟩
    · rintro ⟨y, ys', hy, hys, rfl⟩
      exact ⟨y, hy, ys', hys, rfl⟩

/-- Steps fail as the first one that fails. -/
theorem mapM_eq_error_iff {e : ε} : xs.mapM f = .error e ↔ ∃ before x after, xs = before ++ x :: after ∧
    (∀ y ∈ before, ∃ b, f y = .ok b) ∧ f x = .error e := by
  induction xs with
  | nil => simp
  | cons x xs ih =>
    rw [List.mapM_cons, bind_eq_error_iff]
    simp only [bind_eq_error_iff, pure_eq_ok, reduceCtorEq, and_false, exists_false, or_false, ih]
    constructor
    · rintro (hx | ⟨b, hb, before, y, after, rfl, hbefore, hy⟩)
      · exact ⟨[], x, xs, rfl, nofun, hx⟩
      · exact ⟨x :: before, y, after, rfl, List.forall_mem_cons.2 ⟨⟨b, hb⟩, hbefore⟩, hy⟩
    · rintro ⟨_ | ⟨x', before⟩, y, after, heq, hbefore, hy⟩
      · obtain ⟨rfl, rfl⟩ := List.cons.inj heq
        exact .inl hy
      · obtain ⟨rfl, rfl⟩ := List.cons.inj heq
        obtain ⟨⟨b, hb⟩, hbefore⟩ := List.forall_mem_cons.1 hbefore
        exact .inr ⟨b, hb, before, y, after, rfl, hbefore, hy⟩

theorem exists_of_mapM_eq_error {e : ε} (h : xs.mapM f = .error e) : ∃ x ∈ xs, f x = .error e := by
  obtain ⟨before, x, after, rfl, -, hx⟩ := mapM_eq_error_iff.1 h
  exact ⟨x, by simp, hx⟩

theorem mapM_eq_ok_map {g : α → β} (h : ∀ x ∈ xs, f x = .ok (g x)) :
    xs.mapM f = .ok (xs.map g) := by
  rw [mapM_eq_ok_iff]
  induction xs with
  | nil => exact .nil
  | cons x xs ih => exact .cons (h x (by simp)) (ih fun y hy => h y (by simp [hy]))

theorem mapM_range_eq_ok {g : Nat → Except ε α} (h : ∀ n (hn : n < xs.length), g n = .ok xs[n]) :
    (List.range xs.length).mapM g = .ok xs := by
  rw [mapM_eq_ok_iff, List.forall₂_iff_get]
  refine ⟨List.length_range, fun n hn hn' => ?_⟩
  simpa using h n hn'

theorem exists_mapM_eq_ok (h : ∀ x ∈ xs, ∃ y, f x = .ok y) : ∃ ys, xs.mapM f = .ok ys := by
  cases hmap : xs.mapM f with
  | ok ys => exact ⟨ys, rfl⟩
  | error e =>
    obtain ⟨x, hx, hfail⟩ := exists_of_mapM_eq_error hmap
    obtain ⟨y, hy⟩ := h x hx
    cases hy.symm.trans hfail

theorem mapM_id_eq_some_iff {xs : List (Option α)} {as : List α} :
    xs.mapM id = some as ↔ xs = as.map some := by
  induction xs generalizing as with
  | nil => cases as <;> simp
  | cons x xs ih =>
    cases x with
    | none => cases as <;> simp
    | some a =>
      rw [List.mapM_cons]
      simp only [id_eq, Option.bind_eq_bind, Option.bind_some, Option.bind_eq_some_iff, ih]
      cases as with
      | nil => simp
      | cons a' as => simp [eq_comm, and_comm]

theorem exists_eq_map_some {xs : List (Option α)} (h : ∀ x ∈ xs, x.isSome) :
    ∃ as : List α, xs = as.map some := by
  induction xs with
  | nil => exact ⟨[], rfl⟩
  | cons x xs ih =>
    obtain ⟨hx, hxs⟩ := List.forall_mem_cons.1 h
    obtain ⟨a, rfl⟩ := Option.isSome_iff_exists.1 hx
    obtain ⟨as, rfl⟩ := ih hxs
    exact ⟨a :: as, rfl⟩

theorem filterMap_eq_of_map_eq {f : α → Option β} (h : xs.map f = ys.map some) : xs.filterMap f = ys := by
  calc xs.filterMap f = (xs.map f).filterMap id := by rw [List.filterMap_map, Function.id_comp]
    _ = ys := by rw [h, List.filterMap_map]; exact List.filterMap_some

/-- Whether a test that may fail holds. -/
def passes (g : α → Except ε Bool) (x : α) : Bool :=
  match g x with
  | .ok b => b
  | .error _ => false

theorem filterAuxM_eq_ok {g : α → Except ε Bool} {acc kept : List α}
    (h : xs.filterAuxM g acc = .ok kept) : kept = (xs.filter (passes g)).reverse ++ acc := by
  induction xs generalizing acc with
  | nil => simpa [List.filterAuxM, eq_comm] using h
  | cons x xs ih =>
    rw [List.filterAuxM, bind_eq_ok_iff] at h
    obtain ⟨b, hb, h⟩ := h
    cases b <;> simp [ih h, passes, hb]

/-- A test that fails at one entry lets nothing be kept. -/
theorem exists_of_filterM_eq_ok {g : α → Except ε Bool} {kept : List α} (h : xs.filterM g = .ok kept) :
    ∀ x ∈ xs, ∃ b, g x = .ok b := by
  have haux : ∀ acc kept, xs.filterAuxM g acc = .ok kept → ∀ x ∈ xs, ∃ b, g x = .ok b := by
    clear h
    induction xs with
    | nil => exact fun _ _ _ => nofun
    | cons x xs ih =>
      intro acc kept hcons
      rw [List.filterAuxM, bind_eq_ok_iff] at hcons
      obtain ⟨b, hb, hrest⟩ := hcons
      exact List.forall_mem_cons.2 ⟨⟨b, hb⟩, ih _ _ hrest⟩
  rw [List.filterM, bind_eq_ok_iff] at h
  obtain ⟨r, hr, -⟩ := h
  exact haux [] r hr

theorem filterM_eq_ok {g : α → Except ε Bool} {kept : List α} (h : xs.filterM g = .ok kept) :
    kept = xs.filter (passes g) := by
  rw [List.filterM, bind_eq_ok_iff] at h
  obtain ⟨r, hr, h⟩ := h
  rw [← Except.ok.inj h, filterAuxM_eq_ok hr]
  simp

theorem filterM_map_eq_ok {g : β → Except ε Bool} {m : α → β} {p : α → Bool}
    (h : ∀ x ∈ xs, g (m x) = .ok (p x)) : (xs.map m).filterM g = .ok ((xs.filter p).map m) := by
  have haux : ∀ acc, (xs.map m).filterAuxM g acc = .ok (((xs.filter p).map m).reverse ++ acc) := by
    induction xs with
    | nil => exact fun _ => rfl
    | cons x xs ih =>
      intro acc
      rw [List.map_cons, List.filterAuxM, h x List.mem_cons_self, bind_ok,
        ih fun y hy => h y (List.mem_cons_of_mem _ hy)]
      cases hx : p x <;> simp [hx]
  rw [List.filterM, haux, bind_ok]
  simp

/-- Keeping what passes a test on its reading is reading all and keeping what passes. -/
theorem filterM_eq_map_mapM {g : α → Except ε Bool} {q : β → Bool} {m : β → α}
    (hg : ∀ x ∈ xs, g x = (f x).map q) (hm : ∀ x ∈ xs, ∀ y, f x = .ok y → m y = x) :
    xs.filterM g = (xs.mapM f).map fun ys => (ys.filter q).map m := by
  have haux : ∀ acc, xs.filterAuxM g acc = (xs.mapM f).map fun ys => ((ys.filter q).map m).reverse ++ acc := by
    induction xs with
    | nil => exact fun _ => rfl
    | cons x xs ih =>
      intro acc
      have hrest := ih (fun y hy => hg y (List.mem_cons_of_mem _ hy)) (fun y hy => hm y (List.mem_cons_of_mem _ hy))
      rw [List.filterAuxM, hg x List.mem_cons_self, List.mapM_cons]
      cases hx : f x with
      | error e => rfl
      | ok y =>
        have hy := hm x List.mem_cons_self y hx
        rw [bind_ok]
        simp only [Except.map, bind_ok, hrest]
        cases xs.mapM f with
        | error e => rfl
        | ok ys => cases hq : q y <;> simp [hq, hy]
  rw [List.filterM, haux]
  cases xs.mapM f with
  | error e => rfl
  | ok ys => simp [Except.map]

theorem exists_getElem?_of_forall₂ {R : α → β → Prop} (h : List.Forall₂ R xs ys) {i : Nat} {x : α}
    (hx : xs[i]? = some x) : ∃ y, ys[i]? = some y ∧ R x y := by
  induction h generalizing i with
  | nil => simp at hx
  | cons hr _ ih =>
    cases i with
    | zero => exact ⟨_, rfl, by simpa [← Option.some.inj hx] using hr⟩
    | succ i => exact ih hx

theorem exists_of_mem_forall₂ {R : α → β → Prop} (h : List.Forall₂ R xs ys) {y : β} (hy : y ∈ ys) :
    ∃ x ∈ xs, R x y := by
  induction h with
  | nil => simp at hy
  | cons hr _ ih =>
    rcases List.mem_cons.1 hy with rfl | hy
    · exact ⟨_, List.mem_cons_self, hr⟩
    · obtain ⟨x, hx, hr⟩ := ih hy
      exact ⟨x, List.mem_cons_of_mem _ hx, hr⟩

/-- Each result of steps is that of one of them. -/
theorem exists_of_mem_mapM {y : β} (h : xs.mapM f = .ok ys) (hy : y ∈ ys) : ∃ x ∈ xs, f x = .ok y :=
  exists_of_mem_forall₂ (mapM_eq_ok_iff.1 h) hy

end DeckMerge.Sequence
