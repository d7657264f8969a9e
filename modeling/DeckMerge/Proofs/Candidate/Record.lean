import DeckMerge.Candidate.Record
import DeckMerge.Proofs.Sequence

/-!
Records as values. A record is read back from the value it is written as, so that writing what was read
and reading it again changes nothing.
-/

namespace DeckMerge.Candidate

variable {α : Type} {make : List (Key × Value) → α}

/-! ### Entries -/

theorem Job.ofFields_toFields (j : Job) : ofFields j.toFields = j := rfl

theorem Study.ofFields_toFields (s : Study) : ofFields s.toFields = s := rfl

/-- What is made of the fields of each entry of a sequence. -/
def madeOf (make : List (Key × Value) → α) (v : Value) : Except Fault (List α) := do
  return (← (← entries v).mapM entryFields).map make

theorem madeOf_mappings {toFields : α → List (Key × Value)} (h : ∀ x, make (toFields x) = x) (xs : List α) :
    madeOf make (.list (xs.map (.mapping <| toFields ·))) = .ok xs := by
  have hkept : (xs.map (Value.mapping <| toFields ·)).filter (!·.isNull) = xs.map (.mapping <| toFields ·) := by
    rw [List.filter_eq_self]
    intro v hv
    obtain ⟨x, -, rfl⟩ := List.mem_map.1 hv
    rfl
  have hfields : (xs.map (Value.mapping <| toFields ·)).mapM entryFields = .ok (xs.map toFields) := by
    rw [List.mapM_map]
    exact Sequence.mapM_eq_ok_map fun _ _ => rfl
  rw [madeOf, entries, hkept, Sequence.bind_ok, hfields, Sequence.bind_ok, List.map_map]
  simp only [Function.comp_def, h, List.map_id', Sequence.pure_eq_ok]

namespace Record

/-- The value under a name, or null. -/
def valueAt (fields : List (Key × Value)) (name : Text) : Value := (Fields.get? fields name).getD .null

theorem ofFields_eq_ok_iff {fields : List (Key × Value)} {r : Record} : ofFields fields = .ok r ↔
    madeOf Job.ofFields (jobsOf fields) = .ok r.jobs ∧
      madeOf Study.ofFields (valueAt fields "education") = .ok r.studies ∧
      r.name = textField fields ["name"] := by
  have hread : ofFields fields = do
      let jobs ← madeOf Job.ofFields (jobsOf fields)
      let studies ← madeOf Study.ofFields (valueAt fields "education")
      return ⟨textField fields ["name"], jobs, studies⟩ := by
    simp only [ofFields, madeOf, valueAt, bind_assoc, pure_bind]
  rw [hread]
  simp only [Sequence.bind_eq_ok_iff, Sequence.pure_eq_ok, Except.ok.injEq]
  constructor
  · rintro ⟨jobs, hjobs, studies, hstudies, rfl⟩
    exact ⟨hjobs, hstudies, rfl⟩
  · rintro ⟨hjobs, hstudies, hname⟩
    exact ⟨_, hjobs, _, hstudies, by rw [← hname]⟩

theorem ofValue_toValue (r : Record) : ofValue r.toValue = .ok r := by
  have hread : ofValue r.toValue = ofFields [("name", .text r.name),
    ("workHistory", .list (r.jobs.map (.mapping ·.toFields))),
    ("education", .list (r.studies.map (.mapping ·.toFields)))] := rfl
  rw [hread, ofFields_eq_ok_iff]
  exact ⟨madeOf_mappings Job.ofFields_toFields r.jobs, madeOf_mappings Study.ofFields_toFields r.studies, rfl⟩

/-- The value in the form that records are written in, if it is one of a record. -/
def normalized (v : Value) : Except Fault Value := (ofValue v).map toValue

/-- What a record is written as is read back as that record, so that a value that has been brought into this
form, if that is possible, stands for the same record and is no longer changed. -/
theorem ofValue_normalized (r : Record) (v : Value) :
    ofValue r.toValue = .ok r ∧ (normalized v >>= ofValue) = ofValue v ∧
      (normalized v >>= normalized) = normalized v := by
  refine ⟨ofValue_toValue r, ?_⟩
  cases hread : ofValue v with
  | error f => simp [normalized, hread, Except.map, bind, Except.bind]
  | ok s => simp [normalized, hread, Except.map, ofValue_toValue]

end Record

end DeckMerge.Candidate
