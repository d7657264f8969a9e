import DeckMerge.Proofs.Candidate.Record
import DeckMerge.Proofs.Fields

/-!
Fields that are null. A text field reads a null as if the field were missing, and so do the studies and
what is in an entry. Of the two names for the jobs a null under the first one hides what is under the
second.
-/

namespace DeckMerge

/-- In each mapping of a value the names are distinct. -/
inductive Value.Keyed : Value → Prop
  | null : Keyed .null
  | bool (b : Bool) : Keyed (.bool b)
  | int (n : Int) : Keyed (.int n)
  | real (x : Binary64) : Keyed (.real x)
  | text (s : Text) : Keyed (.text s)
  | list {items : List Value} : (∀ v ∈ items, Keyed v) → Keyed (.list items)
  | mapping {fields : List (Key × Value)} : (fields.map (·.1)).Nodup → (∀ f ∈ fields, Keyed f.2) →
    Keyed (.mapping fields)

namespace Candidate

variable {fields : List (Key × Value)} {v : Value}

/-- An entry of a sequence without its fields that are null. -/
def entryWithoutNulls : Value → Value
  | .mapping fields => .mapping (Fields.withoutNulls fields)
  | v => v

def sequenceWithoutNulls : Value → Value
  | .list items => .list (items.map entryWithoutNulls)
  | v => v

/-- The names under which a record has its jobs and studies. -/
def sequenceNames : List Key := ["workHistory", "work_history", "education"]

/-- The fields of a record that are not null, and of these jobs and studies the fields that are not null. -/
def withoutNulls (fields : List (Key × Value)) : List (Key × Value) :=
  (Fields.withoutNulls fields).map fun f =>
    (f.1, if f.1 ∈ sequenceNames then sequenceWithoutNulls f.2 else f.2)

theorem textField_withoutNulls (h : (fields.map (·.1)).Nodup) (names : List Text) :
    textField (Fields.withoutNulls fields) names = textField fields names := by
  simp only [textField, Fields.get?_withoutNulls h, Option.filter_filter, Bool.and_self]

theorem isNull_entryWithoutNulls (v : Value) : (entryWithoutNulls v).isNull = v.isNull := by
  cases v <;> rfl

theorem entryFields_entryWithoutNulls (v : Value) :
    entryFields (entryWithoutNulls v) = (entryFields v).map Fields.withoutNulls := by
  cases v <;> rfl

theorem entries_sequenceWithoutNulls (v : Value) :
    entries (sequenceWithoutNulls v) = (entries v).map (List.map entryWithoutNulls) := by
  cases v with
  | list items =>
    simp only [sequenceWithoutNulls, entries, List.filter_map, Function.comp_def, isNull_entryWithoutNulls]
    rfl
  | mapping fields =>
    simp only [sequenceWithoutNulls, entries, Except.map, List.map_map]
    rfl
  | text s =>
    simp only [sequenceWithoutNulls, entries, Except.map, List.map_map]
    rfl
  | null | bool | int | real =>
    simp only [sequenceWithoutNulls, entries]
    split <;> rfl

theorem mapM_entryFields_map (vs : List Value) :
    (vs.map entryWithoutNulls).mapM entryFields = (vs.mapM entryFields).map (List.map Fields.withoutNulls) := by
  induction vs with
  | nil => rfl
  | cons v vs ih =>
    rw [List.map_cons, List.mapM_cons, List.mapM_cons, entryFields_entryWithoutNulls, ih]
    cases entryFields v with
    | error f => rfl
    | ok fields => cases vs.mapM entryFields <;> rfl

/-- Only a list has mappings as entries. -/
theorem exists_list_of_mem_entries {vs : List Value} (h : entries v = .ok vs) (hmem : .mapping fields ∈ vs) :
    ∃ items, v = .list items ∧ .mapping fields ∈ items := by
  rw [entries.eq_def] at h
  split at h
  case h_1 items =>
    obtain rfl := Except.ok.inj h
    exact ⟨items, rfl, List.mem_of_mem_filter hmem⟩
  case h_2 =>
    obtain rfl := Except.ok.inj h
    simp at hmem
  case h_3 =>
    obtain rfl := Except.ok.inj h
    simp at hmem
  case h_4 =>
    split at h
    · obtain rfl := Except.ok.inj h
      simp at hmem
    · cases h

theorem nodup_of_mapM_entryFields {vs : List Value} {fss : List (List (Key × Value))} (hv : v.Keyed)
    (hentries : entries v = .ok vs) (h : vs.mapM entryFields = .ok fss) :
    ∀ fs ∈ fss, (fs.map (·.1)).Nodup := by
  intro fs hfs
  obtain ⟨w, hw, hfields⟩ := Sequence.exists_of_mem_mapM h hfs
  cases w with
  | mapping fields =>
    obtain rfl := Except.ok.inj hfields
    obtain ⟨items, rfl, hmem⟩ := exists_list_of_mem_entries hentries hw
    cases hv with
    | list hitems =>
      cases hitems _ hmem with
      | mapping hnodup _ => exact hnodup
  | _ => cases hfields

/-- What does not depend on nulls in the fields of an entry does not depend on nulls in those of a sequence. -/
theorem madeOf_sequenceWithoutNulls {α : Type} {make : List (Key × Value) → α}
    (hmake : ∀ fs, (fs.map (·.1)).Nodup → make (Fields.withoutNulls fs) = make fs) (hv : v.Keyed) :
    madeOf make (sequenceWithoutNulls v) = madeOf make v := by
  rw [madeOf, madeOf, entries_sequenceWithoutNulls]
  cases hentries : entries v with
  | error f => rfl
  | ok vs =>
    simp only [Except.map, Sequence.bind_ok, mapM_entryFields_map]
    cases hfields : vs.mapM entryFields with
    | error f => rfl
    | ok fss =>
      have hsame : (fss.map Fields.withoutNulls).map make = fss.map make := by
        rw [List.map_map]
        exact List.map_congr_left fun fs hfs => hmake fs (nodup_of_mapM_entryFields hv hentries hfields fs hfs)
      simp only [Sequence.bind_ok, hsame]

theorem Job.ofFields_withoutNulls (fs : List (Key × Value)) (h : (fs.map (·.1)).Nodup) :
    ofFields (Fields.withoutNulls fs) = ofFields fs := by
  simp only [ofFields, textField_withoutNulls h]

theorem Study.ofFields_withoutNulls (fs : List (Key × Value)) (h : (fs.map (·.1)).Nodup) :
    ofFields (Fields.withoutNulls fs) = ofFields fs := by
  simp only [ofFields, textField_withoutNulls h]

/-! ### Records -/

theorem get?_withoutNulls (h : (fields.map (·.1)).Nodup) (name : Text) :
    Fields.get? (withoutNulls fields) name = ((Fields.get? fields name).filter (!·.isNull)).map fun v =>
      if (.text name : Key) ∈ sequenceNames then sequenceWithoutNulls v else v := by
  rw [← Fields.get?_withoutNulls h]
  exact Association.lookup_map (fun k v => if k ∈ sequenceNames then sequenceWithoutNulls v else v) _ _

theorem get?_withoutNulls_of_mem (h : (fields.map (·.1)).Nodup) {name : Text}
    (hname : (.text name : Key) ∈ sequenceNames) : Fields.get? (withoutNulls fields) name =
      ((Fields.get? fields name).filter (!·.isNull)).map sequenceWithoutNulls := by
  simp only [get?_withoutNulls h, if_pos hname]

theorem textField_withoutNulls_name (h : (fields.map (·.1)).Nodup) :
    textField (withoutNulls fields) ["name"] = textField fields ["name"] := by
  have hname : ("name" : Key) ∉ sequenceNames := by decide
  have hget : Fields.get? (withoutNulls fields) "name" = (Fields.get? fields "name").filter (!·.isNull) := by
    rw [get?_withoutNulls h]
    simp only [if_neg hname, Option.map_id']
  simp only [textField, List.findSome?_cons, List.findSome?_nil, hget, Option.filter_filter, Bool.and_self]

theorem sequenceWithoutNulls_getD (o : Option Value) :
    (o.map sequenceWithoutNulls).getD .null = sequenceWithoutNulls (o.getD .null) := by
  cases o <;> rfl

/-- A null that is there counts as a sequence like one that is missing. -/
theorem getD_filter_isNull (o : Option Value) : (o.filter (!·.isNull)).getD .null = o.getD .null := by
  cases o with
  | none => rfl
  | some v => cases v <;> rfl

namespace Record

theorem keyed_valueAt (h : (Value.mapping fields).Keyed) (name : Text) : (valueAt fields name).Keyed := by
  rw [valueAt]
  cases hget : Fields.get? fields name with
  | none => exact .null
  | some v =>
    cases h with
    | mapping _ hvalues => exact hvalues _ (Association.mem_of_lookup_eq_some hget)

theorem valueAt_withoutNulls (h : (fields.map (·.1)).Nodup) {name : Text}
    (hname : (.text name : Key) ∈ sequenceNames) :
    valueAt (withoutNulls fields) name = sequenceWithoutNulls (valueAt fields name) := by
  rw [valueAt, get?_withoutNulls_of_mem h hname, sequenceWithoutNulls_getD, getD_filter_isNull, valueAt]

/-- The jobs of a record's fields, where the second name counts if there is a null under the first. -/
def givenJobs (fields : List (Key × Value)) : Value :=
  (((Fields.get? fields "workHistory").filter (!·.isNull)).orElse fun _ =>
    Fields.get? fields "work_history").getD .null

/-- There is a null under the first name for the jobs, and jobs, or what is no sequence, under the second. -/
def HidesJobs (fields : List (Key × Value)) : Prop :=
  Fields.get? fields "workHistory" = some .null ∧ entries (valueAt fields "work_history") ≠ .ok []

theorem givenJobs_of_null (h : Fields.get? fields "workHistory" = some .null) :
    givenJobs fields = valueAt fields "work_history" := by
  rw [givenJobs, h]
  rfl

theorem givenJobs_of_ne (h : Fields.get? fields "workHistory" ≠ some .null) : givenJobs fields = jobsOf fields := by
  rw [givenJobs, jobsOf]
  cases hfirst : Fields.get? fields "workHistory" with
  | none => rfl
  | some v =>
    cases v with
    | null => exact absurd hfirst h
    | _ => rfl

theorem keyed_givenJobs (h : (Value.mapping fields).Keyed) : (givenJobs fields).Keyed := by
  rw [givenJobs]
  cases hfirst : (Fields.get? fields "workHistory").filter (!·.isNull) with
  | none => exact keyed_valueAt h "work_history"
  | some v =>
    have hkeyed := keyed_valueAt h "workHistory"
    rwa [valueAt, (Option.filter_eq_some_iff.1 hfirst).1] at hkeyed

theorem jobsOf_withoutNulls (h : (fields.map (·.1)).Nodup) :
    jobsOf (withoutNulls fields) = sequenceWithoutNulls (givenJobs fields) := by
  rw [jobsOf, givenJobs, get?_withoutNulls_of_mem h (by decide), get?_withoutNulls_of_mem h (by decide)]
  cases (Fields.get? fields "workHistory").filter (!·.isNull) with
  | some v => rfl
  | none => simp only [Option.map_none, Option.orElse_none, sequenceWithoutNulls_getD, getD_filter_isNull]

/-- Without nulls a record has the same name and studies, and the jobs that are given. -/
theorem ofFields_withoutNulls_eq_ok_iff (h : (Value.mapping fields).Keyed) {r : Record} :
    ofFields (withoutNulls fields) = .ok r ↔ madeOf Job.ofFields (givenJobs fields) = .ok r.jobs ∧
      madeOf Study.ofFields (valueAt fields "education") = .ok r.studies ∧
      r.name = textField fields ["name"] := by
  have hnodup : (fields.map (·.1)).Nodup := by
    cases h with
    | mapping hnodup _ => exact hnodup
  rw [ofFields_eq_ok_iff, jobsOf_withoutNulls hnodup, valueAt_withoutNulls hnodup (by decide),
    textField_withoutNulls_name hnodup,
    madeOf_sequenceWithoutNulls Job.ofFields_withoutNulls (keyed_givenJobs h),
    madeOf_sequenceWithoutNulls Study.ofFields_withoutNulls (keyed_valueAt h "education")]

theorem madeOf_eq_nil_iff {α : Type} {make : List (Key × Value) → α} :
    madeOf make v = .ok [] ↔ entries v = .ok [] := by
  constructor
  · intro h
    obtain ⟨vs, hvs, h⟩ := Sequence.bind_eq_ok_iff.1 h
    obtain ⟨fss, hfss, h⟩ := Sequence.bind_eq_ok_iff.1 h
    obtain rfl := List.map_eq_nil_iff.1 (Except.ok.inj h)
    rwa [List.forall₂_nil_right_iff.1 (Sequence.mapM_eq_ok_iff.1 hfss)] at hvs
  · intro h
    rw [madeOf, h]
    rfl

/-- Nulls change neither the name nor the studies of a record. They change its jobs exactly if jobs are hidden,
and then it has none. -/
theorem ofFields_withoutNulls_iff (fields : List (Key × Value)) (r : Record)
    (hkeyed : (Value.mapping fields).Keyed) (h : ofFields fields = .ok r) :
    (ofFields (withoutNulls fields) = .ok r ↔ ¬ HidesJobs fields) ∧ (HidesJobs fields → r.jobs = []) ∧
      ∀ s, ofFields (withoutNulls fields) = .ok s → s.name = r.name ∧ s.studies = r.studies := by
  obtain ⟨hjobs, hstudies, hname⟩ := ofFields_eq_ok_iff.1 h
  have hnone : Fields.get? fields "workHistory" = some .null → r.jobs = [] := by
    intro hnull
    rw [jobsOf, hnull] at hjobs
    exact (Except.ok.inj hjobs).symm
  refine ⟨?_, fun hhides => hnone hhides.1, fun s hs => ?_⟩
  · rw [ofFields_withoutNulls_eq_ok_iff hkeyed, and_iff_left ⟨hstudies, hname⟩]
    by_cases hnull : Fields.get? fields "workHistory" = some .null
    · rw [givenJobs_of_null hnull, hnone hnull, madeOf_eq_nil_iff, HidesJobs, not_and_not_right,
        forall_prop_of_true hnull]
    · rw [givenJobs_of_ne hnull]
      exact iff_of_true hjobs fun hhides => hnull hhides.1
  · obtain ⟨-, hstudies', hname'⟩ := (ofFields_withoutNulls_eq_ok_iff hkeyed).1 hs
    exact ⟨hname'.trans hname.symm, Except.ok.inj (hstudies'.symm.trans hstudies)⟩

/-- A job under the first name, with its title under the second one; the first has a null there. -/
def respelledFields : List (Key × Value) :=
  [("name", .text "Ada"),
    ("workHistory", .list [.mapping [("jobTitle", .null), ("job_title", .text "CFO")], .null]),
    ("work_history", .null)]

theorem ofFields_withoutNulls_iff_respelled :
    (Value.mapping respelledFields).Keyed ∧ ofFields respelledFields = .ok ⟨"Ada", [⟨"CFO", [], []⟩], []⟩ ∧
      ¬ HidesJobs respelledFields ∧
      ofFields (withoutNulls respelledFields) = .ok ⟨"Ada", [⟨"CFO", [], []⟩], []⟩ := by
  have hjob : (Value.mapping [("jobTitle", .null), ("job_title", .text "CFO")]).Keyed :=
    .mapping (by decide) (List.forall_mem_cons.2 ⟨.null, List.forall_mem_singleton.2 (.text _)⟩)
  have hkeyed : (Value.mapping respelledFields).Keyed := by
    refine .mapping (by decide) ?_
    simp only [respelledFields, List.forall_mem_cons]
    exact ⟨.text _, .list (List.forall_mem_cons.2 ⟨hjob, List.forall_mem_singleton.2 .null⟩), .null, nofun⟩
  have hread : ofFields respelledFields = .ok ⟨"Ada", [⟨"CFO", [], []⟩], []⟩ := rfl
  have hshown : ¬ HidesJobs respelledFields := fun hhides => nomatch hhides.1
  exact ⟨hkeyed, hread, hshown, (ofFields_withoutNulls_iff _ _ hkeyed hread).1.2 hshown⟩

/-- A job under the second name, and a null under the first. -/
def hidingFields : List (Key × Value) :=
  [("name", .text "Ada"), ("workHistory", .null),
    ("work_history", .list [.mapping [("jobTitle", .text "CFO"), ("company", .text "Acme")]])]

/-- The job is lost, though it is read where the null is missing. -/
theorem ofFields_hiding : ofFields hidingFields = .ok ⟨"Ada", [], []⟩ ∧
    ofFields (withoutNulls hidingFields) = .ok ⟨"Ada", [⟨"CFO", "Acme", []⟩], []⟩ :=
  ⟨rfl, rfl⟩

end Record

end Candidate

end DeckMerge
