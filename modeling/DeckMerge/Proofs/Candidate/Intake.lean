import DeckMerge.Candidate.Intake
import DeckMerge.Proofs.Candidate.Roles
import DeckMerge.Proofs.EventLog
import DeckMerge.Proofs.Sequence

/-!
What becomes of the documents of a bundle. Each of them is accounted for: by a record without the excluded
roles, or by a failure with its number, in the order of the documents; and the event of the run has these
counts. A fault ends the run without an event.
-/

namespace DeckMerge.Candidate

variable {role : Text} {index : Nat} {xs : List Extraction} {x : Extraction} {c : Collection}

/-! ### One document -/

/-- What a document gives: a record, or a reason why there is none. All else is a fault. -/
def Extraction.outcome : Extraction → Except Fault (Except Text Record)
  | .failed reason => .ok (.error reason)
  | .crashed => .error .crashed
  | .record r => .ok (.ok r)
  | .data v => (Record.ofValue v).map .ok

def Extraction.isFailed : Extraction → Bool
  | .failed _ => true
  | _ => false

theorem outcome_eq_error_iff {reason : Text} : x.outcome = .ok (.error reason) ↔ x = .failed reason := by
  cases x with
  | failed => simp [Extraction.outcome]
  | crashed => simp [Extraction.outcome]
  | record => simp [Extraction.outcome]
  | data v => cases hread : Record.ofValue v <;> simp [Extraction.outcome, hread, Except.map]

theorem isFailed_iff : x.isFailed ↔ ∃ reason, x = .failed reason := by
  cases x <;> simp [Extraction.isFailed]

/-- A record with those of its jobs whose title does not hold the role, whatever their case. No role excludes
nothing. -/
def Record.reduced (role : Text) (r : Record) : Record :=
  { r with jobs := r.jobs.filter fun j => role = [] ∨ ¬ Text.lower role <:+: Text.lower j.title }

theorem fst_retain (role : Text) (index : Nat) (r : Record) : (retain role index r).1 = r.reduced role := by
  have hfst : (retain role index r).1 = if role = [] then r else r.withoutRoles role := rfl
  rw [hfst, Record.reduced]
  split
  case isTrue h => simp only [h, true_or, decide_true, List.filter_true]
  case isFalse h =>
    simp only [h, false_or]
    exact congrArg (fun jobs => Record.mk r.name jobs r.studies) (Record.jobs_withoutRoles r role)

theorem reasonText_ne_nil (reason : Text) : reasonText reason ≠ [] := by
  rw [reasonText]
  split
  case isTrue => decide
  case isFalse h => exact h

/-! ### All documents -/

/-- The failure that an outcome with this number stands for. -/
def failure? : Except Text Record × Nat → Option Failed
  | (.error reason, n) => some ⟨n, reasonText reason⟩
  | (.ok _, _) => none

/-- The collection of outcomes of which the first has this number. -/
def Collection.ofOutcomes (role : Text) (index : Nat) (os : List (Except Text Record)) : Collection where
  records := os.filterMap fun o => o.toOption.map (Record.reduced role)
  failures := (os.zipIdx index).filterMap failure?

theorem Collection.ofOutcomes_error (role : Text) (index : Nat) (reason : Text) (os : List (Except Text Record)) :
    ofOutcomes role index (.error reason :: os) = ⟨(ofOutcomes role (index + 1) os).records,
      ⟨index, reasonText reason⟩ :: (ofOutcomes role (index + 1) os).failures⟩ := rfl

theorem Collection.ofOutcomes_ok (role : Text) (index : Nat) (r : Record) (os : List (Except Text Record)) :
    ofOutcomes role index (.ok r :: os) = ⟨r.reduced role :: (ofOutcomes role (index + 1) os).records,
      (ofOutcomes role (index + 1) os).failures⟩ := rfl

/-- Steps that go on alike from results with the same view end in results with the same view. -/
theorem map_bind_congr {ε α β γ δ δ' ζ : Type} {x : Except ε α} {y : Except ε β} {p : α → γ} {q : β → γ}
    {k : α → Except ε δ} {l : β → Except ε δ'} {r : δ → ζ} {s : δ' → ζ} (h : x.map p = y.map q)
    (hkl : ∀ a b, p a = q b → (k a).map r = (l b).map s) : (x >>= k).map r = (y >>= l).map s := by
  cases x with
  | error e =>
    cases y with
    | error e' => exact congrArg _ (Except.error.inj h)
    | ok b => cases h
  | ok a =>
    cases y with
    | error e' => cases h
    | ok b => exact hkl a b (Except.ok.inj h)

/-- Going through the documents is finding the outcome of each and collecting these. -/
theorem map_fst_collectFrom (role : Text) (index : Nat) (xs : List Extraction) :
    (collectFrom role index xs).map (·.1) =
      (xs.mapM Extraction.outcome).map (Collection.ofOutcomes role index) := by
  induction xs generalizing index with
  | nil => rfl
  | cons x xs ih =>
    -- A record is kept without the excluded roles, wherever it comes from.
    have hrecord : ∀ r : Record, (collectFrom role index (.record r :: xs)).map (·.1) =
        (do return Except.ok r :: (← xs.mapM Extraction.outcome)).map (Collection.ofOutcomes role index) := by
      intro r
      refine map_bind_congr (ih (index + 1)) ?_
      rintro ⟨c, notes⟩ os rfl
      exact congrArg (fun kept => Except.ok (Collection.mk (kept :: _) _)) (fst_retain role index r)
    rw [List.mapM_cons]
    cases x with
    | failed reason =>
      rw [collectFrom, Extraction.outcome, Sequence.bind_ok]
      refine map_bind_congr (ih (index + 1)) ?_
      rintro ⟨c, notes⟩ os rfl
      rfl
    | crashed => rfl
    | record r => exact hrecord r
    | data v =>
      rw [collectFrom, Extraction.outcome]
      cases Record.ofValue v with
      | error f => rfl
      | ok r => exact hrecord r

namespace Collection

variable {os : List (Except Text Record)} {f : Failed}

theorem index_eq_of_failure? {o : Except Text Record × Nat} (h : failure? o = some f) : f.index = o.2 := by
  obtain ⟨o, n⟩ := o
  cases o with
  | error reason => exact congrArg Failed.index (Option.some.inj h).symm
  | ok r => cases h

theorem mem_failures_ofOutcomes : f ∈ (ofOutcomes role index os).failures ↔
    ∃ n reason, os[n]? = some (.error reason) ∧ f = ⟨(index + n : Nat), reasonText reason⟩ := by
  simp only [ofOutcomes, List.mem_filterMap, Prod.exists, List.mk_mem_zipIdx_iff_le_and_getElem?_sub]
  constructor
  · rintro ⟨o, n, ⟨hle, ho⟩, hf⟩
    cases o with
    | ok r => cases hf
    | error reason =>
      refine ⟨n - index, reason, ho, ?_⟩
      rw [Nat.add_sub_cancel' hle, ← Option.some.inj hf]
  · rintro ⟨n, reason, ho, rfl⟩
    exact ⟨.error reason, index + n, ⟨Nat.le_add_right _ _, by rwa [Nat.add_sub_cancel_left]⟩, rfl⟩

theorem pairwise_failures_ofOutcomes (role : Text) (index : Nat) (os : List (Except Text Record)) :
    (ofOutcomes role index os).failures.Pairwise (·.index < ·.index) := by
  have hnumbers : (os.zipIdx index).Pairwise fun x y => x.2 < y.2 := by
    rw [← List.pairwise_map, List.zipIdx_map_snd]
    exact List.pairwise_lt_range'
  refine hnumbers.filterMap failure? fun x y hlt f hf g hg => ?_
  rw [index_eq_of_failure? hf, index_eq_of_failure? hg]
  exact Int.ofNat_lt.2 hlt

theorem total_ofOutcomes (role : Text) (index : Nat) (os : List (Except Text Record)) :
    (ofOutcomes role index os).total = os.length := by
  induction os generalizing index with
  | nil => rfl
  | cons o os ih =>
    have ih := ih (index + 1)
    cases o with
    | error reason =>
      rw [ofOutcomes_error, List.length_cons, ← ih]
      rfl
    | ok r =>
      rw [ofOutcomes_ok, List.length_cons, ← ih]
      exact Nat.succ_add _ _

theorem forall₂_records_ofOutcomes (role : Text) (index : Nat)
    (h : List.Forall₂ (fun x o => Extraction.outcome x = .ok o) xs os) :
    List.Forall₂ (fun x r => ∃ made, Extraction.outcome x = .ok (.ok made) ∧ r = made.reduced role)
      (xs.filter (!·.isFailed)) (ofOutcomes role index os).records := by
  induction h generalizing index with
  | nil => exact .nil
  | @cons x o xs os hx _ ih =>
    cases o with
    | error reason =>
      obtain rfl := outcome_eq_error_iff.1 hx
      exact ih (index + 1)
    | ok made =>
      have hmade : x.isFailed = false := by
        rw [Bool.eq_false_iff, ne_eq, isFailed_iff]
        rintro ⟨reason, rfl⟩
        cases hx
      rw [List.filter_cons_of_pos (by rw [hmade]; rfl), ofOutcomes_ok]
      exact .cons ⟨made, hx, rfl⟩ (ih (index + 1))

end Collection

theorem getElem?_eq_failed_iff {os : List (Except Text Record)} {n : Nat} {reason : Text}
    (h : List.Forall₂ (fun x o => Extraction.outcome x = .ok o) xs os) :
    xs[n]? = some (.failed reason) ↔ os[n]? = some (.error reason) := by
  constructor
  · intro hx
    obtain ⟨o, ho, hout⟩ := Sequence.exists_getElem?_of_forall₂ h hx
    rwa [← Except.ok.inj hout] at ho
  · intro ho
    obtain ⟨x, hx, hout⟩ := Sequence.exists_getElem?_of_forall₂ h.flip ho
    rwa [outcome_eq_error_iff.1 hout] at hx

/-- The collection accounts for each document. -/
structure Collection.Accounts (role : Text) (xs : List Extraction) (c : Collection) : Prop where
  /-- A document that failed is a failure with its number, from 1, and its reason. -/
  failure : ∀ f, f ∈ c.failures ↔ ∃ (n : Nat) (reason : Text), xs[n]? = some (.failed reason) ∧
    f = ⟨(n + 1 : Nat), reasonText reason⟩
  ordered : c.failures.Pairwise (·.index < ·.index)
  reason : ∀ f ∈ c.failures, f.reason ≠ []
  /-- The others are the records, without the excluded roles. -/
  records : List.Forall₂ (fun x r => ∃ made, Extraction.outcome x = .ok (.ok made) ∧ r = made.reduced role)
    (xs.filter (!·.isFailed)) c.records
  total_eq : c.total = xs.length
  allFailed_iff : c.allFailed ↔ xs ≠ [] ∧ ∀ x ∈ xs, x.isFailed

theorem Collection.accounts_ofOutcomes {os : List (Except Text Record)}
    (h : xs.mapM Extraction.outcome = .ok os) : (ofOutcomes role 1 os).Accounts role xs := by
  have hall := Sequence.mapM_eq_ok_iff.1 h
  have hlength : xs.length = os.length := hall.length_eq
  have hfailure : ∀ f, f ∈ (ofOutcomes role 1 os).failures ↔ ∃ (n : Nat) (reason : Text),
      xs[n]? = some (.failed reason) ∧ f = ⟨(n + 1 : Nat), reasonText reason⟩ := by
    intro f
    simp only [mem_failures_ofOutcomes, getElem?_eq_failed_iff hall, Nat.add_comm 1]
  have hrecords := forall₂_records_ofOutcomes role 1 hall
  refine ⟨hfailure, pairwise_failures_ofOutcomes role 1 os, ?_, hrecords, ?_, ?_⟩
  · intro f hf
    obtain ⟨n, reason, -, rfl⟩ := (hfailure f).1 hf
    exact reasonText_ne_nil reason
  · rw [total_ofOutcomes, hlength]
  · rw [allFailed, Bool.and_eq_true, decide_eq_true_eq, total_ofOutcomes, ← hlength, List.length_pos_iff]
    refine and_congr_right fun _ => ?_
    rw [List.isEmpty_iff_length_eq_zero, ← hrecords.length_eq, List.length_eq_zero_iff, List.filter_eq_nil_iff]
    simp only [Bool.not_eq_true', Bool.not_eq_false]

theorem map_fst_collect (role : Text) (xs : List Extraction) :
    (collect role xs).map (·.1) = (xs.mapM Extraction.outcome).map (Collection.ofOutcomes role 1) := by
  rw [← map_fst_collectFrom, collect]
  cases collectFrom role 1 xs <;> rfl

theorem exists_collect_eq_ok (role : Text) (h : ∀ x ∈ xs, ∃ o, x.outcome = .ok o) :
    ∃ c notes, collect role xs = .ok (c, notes) ∧ c.Accounts role xs := by
  obtain ⟨os, hos⟩ := Sequence.exists_mapM_eq_ok h
  have hmap := map_fst_collect role xs
  rw [hos] at hmap
  cases hcollect : collect role xs with
  | error f =>
    rw [hcollect] at hmap
    cases hmap
  | ok result =>
    obtain ⟨c, notes⟩ := result
    rw [hcollect] at hmap
    obtain rfl := Except.ok.inj hmap
    exact ⟨_, notes, rfl, Collection.accounts_ofOutcomes hos⟩

theorem collect_eq_error {f : Fault} (role : Text) (h : xs.mapM Extraction.outcome = .error f) :
    collect role xs = .error f := by
  have hmap := map_fst_collect role xs
  rw [h] at hmap
  cases hcollect : collect role xs with
  | error f' =>
    rw [hcollect] at hmap
    exact congrArg _ (Except.error.inj hmap)
  | ok result =>
    rw [hcollect] at hmap
    cases hmap

/-! ### The event -/

/-- The event tells whether all documents failed, how many there are, how many records, and which failed. -/
structure Collection.Announces (xs : List Extraction) (c : Collection) (e : Event) : Prop where
  type_eq : Fields.get? e.fields "event_type" =
    some (.text (if c.allFailed then "intake_failed".toList else "intake_completed".toList))
  total : Fields.get? e.fields "total" = some (.int xs.length)
  extracted : Fields.get? e.fields "extracted" = some (.int c.records.length)
  failed : Fields.get? e.fields "failed" = some (.list (c.failures.map fun f => .int f.index))
  sum : xs.length = c.records.length + c.failures.length

theorem Collection.announces_event (h : c.total = xs.length) (time bundle : Text) :
    c.Announces xs (c.event time bundle) := by
  rw [Collection.total] at h
  refine ⟨?_, by rw [← h]; rfl, rfl, rfl, h.symm⟩
  cases hfailed : c.allFailed <;> simp only [event, hfailed] <;> rfl

/-- The log of events after a bundle: a run that ends without a fault appends its event. -/
def logAfter (content time bundle : Text) (xs : List Extraction) : Text :=
  match intake time bundle xs with
  | .ok (_, _, e) => EventLog.append content e
  | .error _ => content

/-- Where no document is a fault, a collection accounts for all of them, and a run announces it by one event.
Otherwise the first fault ends the run, and the log is left as it is. -/
theorem intake_accounts (role time bundle content : Text) (xs : List Extraction) :
    ((∀ x ∈ xs, ∃ o, x.outcome = .ok o) →
      (∃ c notes, collect role xs = .ok (c, notes) ∧ c.Accounts role xs) ∧
      ∃ c notes e, intake time bundle xs = .ok (c, notes, e) ∧ c.Accounts excludedRole xs ∧ c.Announces xs e ∧
        logAfter content time bundle xs = EventLog.append content e) ∧
    ((¬ ∀ x ∈ xs, ∃ o, x.outcome = .ok o) → ∃ before x after f, xs = before ++ x :: after ∧
      (∀ y ∈ before, ∃ o, y.outcome = .ok o) ∧ x.outcome = .error f ∧ collect role xs = .error f ∧
        intake time bundle xs = .error f ∧ logAfter content time bundle xs = content) := by
  refine ⟨fun h => ⟨exists_collect_eq_ok role h, ?_⟩, fun h => ?_⟩
  · obtain ⟨c, notes, hcollect, haccounts⟩ := exists_collect_eq_ok excludedRole h
    have hintake : ∃ notes, intake time bundle xs = .ok (c, notes, c.event time bundle) :=
      ⟨_, by rw [intake, hcollect]; rfl⟩
    obtain ⟨notes, hintake⟩ := hintake
    exact ⟨c, notes, _, hintake, haccounts, Collection.announces_event haccounts.total_eq time bundle,
      by rw [logAfter, hintake]⟩
  · have hfails : ∃ f, xs.mapM Extraction.outcome = .error f := by
      cases hmap : xs.mapM Extraction.outcome with
      | error f => exact ⟨f, rfl⟩
      | ok os =>
        have hall := (Sequence.mapM_eq_ok_iff.1 hmap).flip
        exact absurd (fun x hx => (Sequence.exists_of_mem_forall₂ hall hx).imp fun _ ho => ho.2) h
    obtain ⟨f, hf⟩ := hfails
    obtain ⟨before, x, after, hxs, hbefore, hx⟩ := Sequence.mapM_eq_error_iff.1 hf
    have hintake : intake time bundle xs = .error f := by
      rw [intake, collect_eq_error excludedRole hf]
      rfl
    exact ⟨before, x, after, f, hxs, hbefore, hx, collect_eq_error role hf, hintake, by rw [logAfter, hintake]⟩

/-- A record with an excluded job, between two documents that fail. -/
def mixedBundle : List Extraction :=
  [.failed [], .record ⟨"Ada", [⟨"Board Member", "Acme", []⟩, ⟨"CFO", "Acme", []⟩], []⟩, .failed "no text"]

theorem intake_accounts_mixed :
    ((∀ x ∈ mixedBundle, ∃ o, x.outcome = .ok o) ∧
      ∃ c notes e, intake "noon" "talks" mixedBundle = .ok (c, notes, e) ∧ c.Accounts excludedRole mixedBundle ∧
        c.Announces mixedBundle e ∧ logAfter [] "noon" "talks" mixedBundle = EventLog.append [] e) ∧
    (¬ ∀ x ∈ mixedBundle ++ [.crashed], ∃ o, x.outcome = .ok o) ∧
      ∃ before x after f, mixedBundle ++ [.crashed] = before ++ x :: after ∧
        (∀ y ∈ before, ∃ o, y.outcome = .ok o) ∧ x.outcome = .error f ∧
        collect excludedRole (mixedBundle ++ [.crashed]) = .error f ∧
        intake "noon" "talks" (mixedBundle ++ [.crashed]) = .error f ∧
        logAfter [] "noon" "talks" (mixedBundle ++ [.crashed]) = [] := by
  have hhandled : ∀ x ∈ mixedBundle, ∃ o, x.outcome = .ok o := by
    intro x hx
    simp only [mixedBundle, List.mem_cons, List.not_mem_nil, or_false] at hx
    rcases hx with rfl | rfl | rfl <;> exact ⟨_, rfl⟩
  have hcrashed : ¬ ∀ x ∈ mixedBundle ++ [.crashed], ∃ o, x.outcome = .ok o := by
    intro h
    obtain ⟨o, ho⟩ := h .crashed (List.mem_append_right _ (List.mem_singleton_self _))
    cases ho
  exact ⟨⟨hhandled, ((intake_accounts excludedRole "noon" "talks" [] mixedBundle).1 hhandled).2⟩, hcrashed,
    (intake_accounts excludedRole "noon" "talks" [] (mixedBundle ++ [.crashed])).2 hcrashed⟩

end DeckMerge.Candidate
