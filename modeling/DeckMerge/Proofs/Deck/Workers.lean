import DeckMerge.Deck.Rendering
import DeckMerge.Proofs.Association
import DeckMerge.Proofs.Sequence

/-!
Running jobs: in whatever order the workers get done, each job is run once, and the results are those of
the jobs, in the order of the jobs.
-/

namespace DeckMerge.Deck

variable {jobs : List Job} {done done' : Array (Option Rendered)} {rs : List Rendered}
  {results : List (Nat × Rendered)} {order : List Nat} {completion : Nat → List Nat} {workers n : Nat}

structure Collected (jobs : List Job) (done : Array (Option Rendered)) : Prop where
  size_eq : done.size = jobs.length
  run_eq : ∀ (i : Nat) r, done[i]? = some (some r) → ∃ j : Job, jobs[i]? = some j ∧ j.run = .ok r

namespace Collected

theorem start (jobs : List Job) : Collected jobs (Array.replicate jobs.length none) where
  size_eq := by simp
  run_eq := by simp [Array.getElem?_replicate]

theorem set (h : Collected jobs done) {i : Nat} {j : Job} {r : Rendered} (hj : jobs[i]? = some j)
    (hr : j.run = .ok r) : Collected jobs (done.setIfInBounds i (some r)) where
  size_eq := by simp [h.size_eq]
  run_eq := by
    intro k r' hk
    rw [Array.getElem?_setIfInBounds] at hk
    split at hk
    case isTrue hik =>
      subst hik
      split at hk
      case isTrue => exact ⟨j, hj, by simpa [← Option.some.inj (Option.some.inj hk)] using hr⟩
      case isFalse => simp at hk
    case isFalse => exact h.run_eq k r' hk

theorem collect (h : Collected jobs done)
    (hrun : collectResults jobs order done = .ok done') : Collected jobs done' := by
  induction order generalizing done with
  | nil =>
    obtain rfl : done = done' := by simpa [collectResults] using hrun
    exact h
  | cons i order ih =>
    rw [collectResults] at hrun
    split at hrun
    case h_1 j hj =>
      obtain ⟨r, hr, hrun⟩ := Sequence.bind_eq_ok_iff.1 hrun
      exact ih (h.set hj hr) hrun
    case h_2 => exact ih h hrun

theorem forall₂ (h : Collected jobs done) (hdone : done.toList = rs.map some) :
    List.Forall₂ (fun j r => j.run = .ok r) jobs rs := by
  have hlength : jobs.length = rs.length := by
    rw [← h.size_eq, ← Array.length_toList, hdone, List.length_map]
  refine List.forall₂_of_length_eq_of_get hlength ?_
  intro i hi hi'
  have hget : done[i]? = some (some rs[i]) := by
    rw [← Array.getElem?_toList, hdone, List.getElem?_map, List.getElem?_eq_getElem hi']
    rfl
  obtain ⟨j, hj, hr⟩ := h.run_eq i _ hget
  rw [List.getElem?_eq_getElem hi, Option.some.injEq] at hj
  simpa [hj] using hr

end Collected

theorem runInOrder_eq_ok (h : runInOrder order jobs = .ok rs) :
    List.Forall₂ (fun j r => j.run = .ok r) jobs rs := by
  rw [runInOrder, Sequence.bind_eq_ok_iff] at h
  obtain ⟨done, hcollect, h⟩ := h
  split at h
  case h_1 results hresults =>
    obtain rfl : results = rs := Except.ok.inj h
    exact ((Collected.start jobs).collect hcollect).forall₂ (Sequence.mapM_id_eq_some_iff.1 hresults)
  case h_2 => simp at h

theorem runJobs_eq_ok (h : runJobs workers completion jobs = .ok rs) :
    List.Forall₂ (fun j r => j.run = .ok r) jobs rs := by
  rw [runJobs] at h
  split at h
  case isTrue => exact Sequence.mapM_eq_ok_iff.1 h
  case isFalse => exact runInOrder_eq_ok h

/-! ### Orders of completion -/

/-- The jobs of some numbers. -/
def numbered (jobs : List Job) (order : List Nat) : List Job := order.filterMap (jobs[·]?)

/-- Results in the order of their numbers. -/
def byNumber (results : List (Nat × Rendered)) : List Rendered :=
  (List.range results.length).filterMap fun i => results.lookup i

theorem numbered_range (jobs : List Job) : numbered jobs (List.range jobs.length) = jobs := by
  apply Sequence.filterMap_eq_of_map_eq
  apply List.ext_getElem <;> simp

theorem perm_numbered (h : order.Perm (List.range jobs.length)) : (numbered jobs order).Perm jobs := by
  have hperm := h.filterMap (jobs[·]?)
  rwa [← numbered, ← numbered, numbered_range] at hperm

/-- Collecting results is running the jobs one after another, as they get done. -/
theorem collectResults_eq (h : ∀ i ∈ order, i < jobs.length) (done : Array (Option Rendered)) :
    collectResults jobs order done = (runAll (numbered jobs order)).map fun made =>
      (order.zip made).foldl (fun done result => done.setIfInBounds result.1 (some result.2)) done := by
  induction order generalizing done with
  | nil => rfl
  | cons i order ih =>
    obtain ⟨hi, horder⟩ := List.forall_mem_cons.1 h
    have hj := List.getElem?_eq_getElem hi
    rw [collectResults, numbered, List.filterMap_cons]
    simp only [hj]
    rw [runAll, List.mapM_cons]
    cases hrun : jobs[i].run with
    | error f => rfl
    | ok r =>
      simp only [Sequence.bind_ok, Sequence.pure_eq_ok]
      rw [ih horder, runAll, numbered]
      cases List.mapM Job.run (order.filterMap (jobs[·]?)) <;> rfl

theorem getElem?_foldl_set (h : (results.map (·.1)).Nodup) (done : Array (Option Rendered)) (i : Nat) :
    (results.foldl (fun done result => done.setIfInBounds result.1 (some result.2)) done)[i]? =
      done[i]?.map (results.lookup i).or := by
  induction results generalizing done with
  | nil => cases h : done[i]? <;> simp [h]
  | cons result results ih =>
    obtain ⟨k, r⟩ := result
    obtain ⟨hfresh, hrest⟩ := List.nodup_cons.1 h
    rw [List.foldl_cons, ih hrest, Association.lookup_cons_eq_ite, Array.getElem?_setIfInBounds]
    by_cases hik : i = k
    · subst hik
      rw [Association.lookup_eq_none_of_notMem hfresh, if_pos rfl, if_pos rfl]
      by_cases hi : i < done.size <;> simp [hi]
    · simp [hik, Ne.symm hik]

/-- Results that come in once for each number are all there in the end. -/
theorem toList_foldl_set (h : (results.map (·.1)).Perm (List.range n)) :
    (results.foldl (fun done result => done.setIfInBounds result.1 (some result.2))
      (Array.replicate n none)).toList = (byNumber results).map some := by
  have hnodup : (results.map (·.1)).Nodup := h.nodup_iff.2 List.nodup_range
  have hlength : results.length = n := by simpa using h.length_eq
  have hlist : (results.foldl (fun done result => done.setIfInBounds result.1 (some result.2))
      (Array.replicate n none)).toList = (List.range n).map fun i => results.lookup i := by
    apply List.ext_getElem?
    intro i
    rw [Array.getElem?_toList, getElem?_foldl_set hnodup, Array.getElem?_replicate, List.getElem?_map]
    by_cases hi : i < n <;> simp [hi]
  have hsome : ∀ o ∈ (List.range n).map fun i => results.lookup i, o.isSome := by
    intro o ho
    obtain ⟨i, hi, rfl⟩ := List.mem_map.1 ho
    obtain ⟨result, hresult, rfl⟩ := List.mem_map.1 (h.mem_iff.2 hi)
    exact List.lookup_isSome_iff.2 ⟨result, hresult, beq_self_eq_true _⟩
  obtain ⟨rs, hrs⟩ := Sequence.exists_eq_map_some hsome
  rw [hlist, hrs, byNumber, hlength, Sequence.filterMap_eq_of_map_eq hrs]

/-- Jobs that are done in an order of all their numbers are run once each, and the results are put back into
the order of the jobs. -/
theorem runInOrder_eq (h : order.Perm (List.range jobs.length)) :
    runInOrder order jobs = (runAll (numbered jobs order)).map fun made => byNumber (order.zip made) := by
  have hlt : ∀ i ∈ order, i < jobs.length := fun i hi => List.mem_range.1 (h.mem_iff.1 hi)
  rw [runInOrder, collectResults_eq hlt]
  cases hmade : runAll (numbered jobs order) with
  | error f => rfl
  | ok made =>
    have hlength : order.length = made.length := by
      have hruns := (Sequence.mapM_eq_ok_iff.1 hmade).length_eq
      rw [← hruns, (perm_numbered h).length_eq, h.length_eq, List.length_range]
    have hkeys : (order.zip made).map (·.1) = order := List.map_fst_zip (Nat.le_of_eq hlength)
    have hplaced := toList_foldl_set (hkeys.symm ▸ h)
    simp only [Except.map, Sequence.bind_ok, Sequence.mapM_id_eq_some_iff.2 hplaced]

theorem runInOrder_range (jobs : List Job) : runInOrder (List.range jobs.length) jobs = runAll jobs := by
  have hrun := runInOrder_eq (List.Perm.refl (List.range jobs.length))
  rw [numbered_range] at hrun
  cases hmade : runAll jobs with
  | error f => rw [hrun, hmade]; rfl
  | ok made =>
    rw [hmade] at hrun
    have hsame : runAll jobs = _ := Sequence.mapM_eq_ok_iff.2 (runInOrder_eq_ok hrun)
    exact hrun.trans (hsame.symm.trans hmade)

/-- The order that jobs are run in: their own where one worker runs them. -/
def orderOf (workers : Nat) (completion : Nat → List Nat) (n : Nat) : List Nat :=
  if workers ≤ 1 ∨ n ≤ 1 then List.range n else completion n

theorem perm_orderOf (workers : Nat) (h : ∀ n, (completion n).Perm (List.range n)) (n : Nat) :
    (orderOf workers completion n).Perm (List.range n) := by
  rw [orderOf]
  split
  exacts [List.Perm.refl _, h n]

theorem runJobs_eq (workers : Nat) (h : ∀ n, (completion n).Perm (List.range n)) (jobs : List Job) :
    runJobs workers completion jobs = (runAll (numbered jobs (orderOf workers completion jobs.length))).map
      fun made => byNumber ((orderOf workers completion jobs.length).zip made) := by
  rw [← runInOrder_eq (perm_orderOf workers h jobs.length), runJobs, orderOf]
  split
  exacts [(runInOrder_range jobs).symm, rfl]

theorem exists_runJobs (workers : Nat) (h : ∀ n, (completion n).Perm (List.range n))
    (hruns : ∀ j ∈ jobs, ∃ r, j.run = .ok r) : ∃ rendered, runJobs workers completion jobs = .ok rendered := by
  obtain ⟨made, hmade⟩ := Sequence.exists_mapM_eq_ok fun j hj =>
    hruns j ((perm_numbered (perm_orderOf workers h jobs.length)).mem_iff.1 hj)
  rw [runJobs_eq workers h, runAll, hmade]
  exact ⟨_, rfl⟩

/-- Workers that get done in whatever order give what one worker gives. -/
theorem runJobs_eq_ok_iff (workers : Nat) (h : ∀ n, (completion n).Perm (List.range n)) :
    runJobs workers completion jobs = .ok rs ↔ runJobs 1 List.range jobs = .ok rs := by
  refine ⟨fun hrun => Sequence.mapM_eq_ok_iff.2 (runJobs_eq_ok hrun), fun hrun => ?_⟩
  have hruns : ∀ j ∈ jobs, ∃ r, j.run = .ok r := by
    intro j hj
    obtain ⟨r, -, hr⟩ := Sequence.exists_of_mem_forall₂ (runJobs_eq_ok hrun).flip hj
    exact ⟨r, hr⟩
  obtain ⟨rs', hrun'⟩ := exists_runJobs workers h hruns
  have hsame : runAll jobs = .ok rs' := Sequence.mapM_eq_ok_iff.2 (runJobs_eq_ok hrun')
  obtain rfl := Except.ok.inj (hsame.symm.trans hrun)
  exact hrun'

end DeckMerge.Deck
