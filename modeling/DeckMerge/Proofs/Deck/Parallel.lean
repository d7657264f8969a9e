import DeckMerge.Proofs.Deck.Conversion

/-!
Rendering with several workers. Whatever order their jobs get done in, a rendering is that of one worker: it
ends at the same stage with the same result, and leaves the same package behind.
-/

namespace DeckMerge.Deck

open Candidate

variable {completion : Nat → List Nat}

/-- The settings with one worker. -/
def Config.oneWorker (c : Config) : Config := { c with workers := 1, workers_pos := Nat.one_pos }

def Template.oneWorker (t : Template) : Template := { t with config := t.config.oneWorker }

theorem Template.bind_oneWorker (t : Template) (rs : List Record) : t.oneWorker.bind rs = t.bind rs := rfl

theorem Template.plan_oneWorker (t : Template) (bs : List Placeholder.Binding) :
    t.oneWorker.plan bs = t.plan bs := rfl

theorem renderWith_oneWorker (h : ∀ n, (completion n).Perm (List.range n)) (t : Template) (rs : List Record) :
    t.renderWith completion rs = t.oneWorker.render rs := by
  unfold Template.render Template.renderWith
  rw [Template.bind_oneWorker]
  cases hbind : t.bind rs with
  | error r => rfl
  | ok bindings =>
    simp only [Template.plan_oneWorker]
    cases hplan : t.plan bindings with
    | error r => rfl
    | ok jobs =>
      obtain ⟨rendered, hrun⟩ := exists_runJobs t.config.workers h (Template.exists_run_of_plan hbind hplan)
      have hone : runJobs t.oneWorker.config.workers List.range jobs = .ok rendered :=
        (runJobs_eq_ok_iff t.config.workers h).1 hrun
      simp only [hrun, hone]
      rfl

/-- Jobs that workers get done in whatever order give the results that one worker gives, in the order of the
jobs; each job is run once, and nothing is run beside the jobs; and so a whole rendering is that of one
worker. -/
theorem renderWith_parallel (h : ∀ n, (completion n).Perm (List.range n)) :
    (∀ workers jobs rendered,
      runJobs workers completion jobs = .ok rendered ↔ runJobs 1 List.range jobs = .ok rendered) ∧
    (∀ workers jobs, ∃ order, (numbered jobs order).Perm jobs ∧
      runJobs workers completion jobs = (runAll (numbered jobs order)).map fun made => byNumber (order.zip made)) ∧
    ∀ (t : Template) (rs : List Record), t.renderWith completion rs = t.oneWorker.render rs := by
  refine ⟨fun workers jobs rendered => runJobs_eq_ok_iff workers h, fun workers jobs => ?_, renderWith_oneWorker h⟩
  exact ⟨_, perm_numbered (perm_orderOf workers h jobs.length), runJobs_eq workers h jobs⟩

/-! ### Two workers -/

/-- Jobs that get done the last one first. -/
def lastFirst (n : Nat) : List Nat := (List.range n).reverse

def twoWorkers : Template :=
  { oneSlideTemplate with config := { oneSlot with workers := 2, workers_pos := Nat.le_succ 1 } }

/-- Two workers fill a slide and a copy of it, the copy first, as one worker does in order. -/
theorem renderWith_parallel_lastFirst : (∀ n, (lastFirst n).Perm (List.range n)) ∧ ∃ r,
    (twoWorkers.renderWith lastFirst twoRecords).result = .ok r ∧
    (twoWorkers.oneWorker.render twoRecords).result = .ok r ∧
    twoWorkers.renderWith lastFirst twoRecords = twoWorkers.oneWorker.render twoRecords := by
  have hperm : ∀ n, (lastFirst n).Perm (List.range n) := fun n => List.reverse_perm (List.range n)
  have hsame := (renderWith_parallel hperm).2.2 twoWorkers twoRecords
  obtain ⟨r, hr⟩ := exists_rendered_twoRecords
  exact ⟨hperm, r, hsame ▸ hr, hr, hsame⟩

end DeckMerge.Deck
