import DeckMerge.Proofs.Deck.Paging

/-!
What a page binds. Each of its slots has five keys, which no other slot has; what they stand for depends on
the slot's own record alone, and the items of a loop and the lines of its text are made of the same jobs and
studies, so that one is empty only where the other is.
-/

namespace DeckMerge.Deck

open Candidate Placeholder

variable {c : Config} {rs : List Record} {b more : Binding} {r : Option Record} {i : Nat}

/-! ### Keys -/

/-- Keys that are set one after another keep their places if they are distinct. -/
theorem bind_of_nodup (h : ((b ++ more).map (·.1)).Nodup) : bind b more = b ++ more := by
  induction more generalizing b with
  | nil => rw [bind, List.append_nil]
  | cons kv more ih =>
    obtain ⟨k, v⟩ := kv
    have hfresh : ¬ b.any (·.1 = k) := by
      rw [List.any_eq_true]
      rintro ⟨kv, hkv, hk⟩
      rw [List.map_append, List.nodup_append] at h
      exact h.2.2 kv.1 (List.mem_map_of_mem hkv) k (by simp) (by simpa using hk)
    rw [bind, if_neg hfresh, ih (by simpa using h)]
    simp

theorem nodup_slotKeys (slot : Nat) : (slotKeys slot).Nodup := by
  refine List.Nodup.map (fun f g hkey => (SlotField.key_eq_iff.1 hkey).1) ?_
  decide

theorem disjoint_slotKeys {i j : Nat} (h : i ≠ j) : (slotKeys i).Disjoint (slotKeys j) := by
  intro key hi hj
  obtain ⟨f, -, rfl⟩ := List.mem_map.1 hi
  obtain ⟨g, -, hkey⟩ := List.mem_map.1 hj
  exact h (SlotField.key_eq_iff.1 hkey).2.symm

theorem map_fst_pageBinding (c : Config) (rs : List Record) (page : Nat) :
    (pageBinding c rs page).map (·.1) = (List.range c.capacity).flatMap fun i : Nat => slotKeys ↑(i + 1) := by
  rw [pageBinding, List.map_flatMap]
  simp only [map_fst_slotBinding]

theorem nodup_keys_pageBinding (c : Config) (rs : List Record) (page : Nat) :
    ((pageBinding c rs page).map (·.1)).Nodup := by
  rw [map_fst_pageBinding, List.nodup_flatMap]
  refine ⟨fun i _ => nodup_slotKeys (i + 1), List.pairwise_lt_range.imp fun hlt => ?_⟩
  exact disjoint_slotKeys (by omega)

theorem length_pageBinding (c : Config) (rs : List Record) (page : Nat) :
    (pageBinding c rs page).length = 5 * c.capacity := by
  have hfive : ∀ i ∈ List.range c.capacity, (slotKeys ↑(i + 1)).length = 5 := fun _ _ => rfl
  have hlength : (pageBinding c rs page).length = ((pageBinding c rs page).map (·.1)).length :=
    List.length_map _ |>.symm
  rw [hlength, map_fst_pageBinding, List.length_flatMap, List.map_congr_left hfive, List.map_const',
    List.length_range, List.sum_replicate_nat, Nat.mul_comm]

/-! ### Items and lines -/

/-- The jobs that are shown of the record in a slot, if there is one. -/
def shownJobs (c : Config) (r : Option Record) : List Candidate.Job := (r.elim [] Record.jobs).take c.jobCap

/-- The studies that are shown of the record in a slot, if there is one. -/
def shownStudies (c : Config) (r : Option Record) : List Study :=
  match c.studyCap with
  | none => r.elim [] Record.studies
  | some cap => (r.elim [] Record.studies).take cap

theorem capped_studies (c : Config) (r : Record) :
    capped r.studies (c.studyCap.map Int.ofNat) = shownStudies c (some r) := by
  rw [shownStudies]
  cases c.studyCap <;> rfl

theorem shownJobs_none (c : Config) : shownJobs c none = [] := List.take_nil

theorem shownStudies_none (c : Config) : shownStudies c none = [] := by
  rw [shownStudies]
  cases c.studyCap with
  | none => rfl
  | some cap => exact List.take_nil

theorem joinWith_eq_nil_iff {mark : Text} (hmark : mark ≠ []) {pieces : List Text} :
    Text.joinWith mark pieces = [] ↔ pieces = [] ∨ pieces = [[]] := by
  match pieces with
  | [] => simp [Text.joinWith]
  | [piece] => simp [Text.joinWith]
  | piece :: piece' :: pieces => simp [Text.joinWith, hmark]

theorem lineBreak_ne_nil : ("\n" : Text) ≠ [] := by decide

theorem Job.line_ne_nil (j : Candidate.Job) : j.line ≠ [] := by
  simp [Candidate.Job.line]

/-- A list of jobs and its lines are empty together. -/
theorem joinWith_lines_eq_nil_iff (js : List Candidate.Job) :
    Text.joinWith "\n" (js.map Candidate.Job.line) = [] ↔ js = [] := by
  rw [joinWith_eq_nil_iff lineBreak_ne_nil, List.map_eq_nil_iff]
  refine or_iff_left_of_imp fun h => ?_
  obtain ⟨j, rfl, hj⟩ := List.map_eq_singleton_iff.1 h
  exact absurd hj (Job.line_ne_nil j)

theorem length_flatMap_lines (ss : List Study) : (ss.flatMap Study.lines).length = 2 * ss.length := by
  induction ss with
  | nil => rfl
  | cons s ss ih =>
    have htwo : s.lines.length = 2 := rfl
    rw [List.flatMap_cons, List.length_append, ih, htwo, List.length_cons]
    omega

/-- A study has two lines, so that there is a line break even where both are empty. -/
theorem joinWith_studyLines_eq_nil_iff (ss : List Study) :
    Text.joinWith "\n" (ss.flatMap Study.lines) = [] ↔ ss = [] := by
  rw [joinWith_eq_nil_iff lineBreak_ne_nil]
  cases ss with
  | nil => simp
  | cons s ss => simp [Study.lines]

/-- A list and a text count as set alike where they are empty together. -/
theorem exists_isSet {items : List Value} {t : Text} (h : items = [] ↔ t = []) :
    ∃ set, isSet (some (.list items)) = .ok set ∧ isSet (some (.text t)) = .ok set := by
  refine ⟨!items.isEmpty, rfl, ?_⟩
  rw [isSet, Bool.eq_iff_iff.2 (List.isEmpty_iff.trans (h.trans List.isEmpty_iff.symm))]

/-! ### Slots -/

/-- What the keys of a slot stand for: the name, the jobs and the studies of its record, or nothing. -/
structure Slotted (c : Config) (b : Binding) (slot : Nat) (r : Option Record) : Prop where
  value : ∀ f : SlotField, b.lookup (f.key slot) = some (r.elim f.emptyValue (f.value c))
  name : b.lookup (SlotField.name.key slot) = some (.text (r.elim [] fun r => Text.upper r.name))
  jobs : b.lookup (SlotField.jobs.key slot) = some (.list ((shownJobs c r).map jobItem))
  length_jobs : (shownJobs c r).length = min (r.elim [] Record.jobs).length c.jobCap
  jobLines : b.lookup (SlotField.jobLines.key slot) =
    some (.text (Text.joinWith "\n" ((shownJobs c r).map Candidate.Job.line)))
  studies : b.lookup (SlotField.studies.key slot) = some (.list ((shownStudies c r).map studyItem))
  length_studies : (shownStudies c r).length = c.studyCap.elim (r.elim [] Record.studies).length
    (min (r.elim [] Record.studies).length)
  studyLines : b.lookup (SlotField.studyLines.key slot) =
    some (.text (Text.joinWith "\n" ((shownStudies c r).flatMap Study.lines)))
  length_studyLines : ((shownStudies c r).flatMap Study.lines).length = 2 * (shownStudies c r).length
  isSet_jobs : ∃ set, isSet (b.lookup (SlotField.jobs.key slot)) = .ok set ∧
    isSet (b.lookup (SlotField.jobLines.key slot)) = .ok set
  isSet_studies : ∃ set, isSet (b.lookup (SlotField.studies.key slot)) = .ok set ∧
    isSet (b.lookup (SlotField.studyLines.key slot)) = .ok set

theorem slotted_of_lookup {slot : Nat}
    (h : ∀ f : SlotField, b.lookup (f.key slot) = some (r.elim f.emptyValue (f.value c))) :
    Slotted c b slot r := by
  have hjobs : b.lookup (SlotField.jobs.key slot) = some (.list ((shownJobs c r).map jobItem)) := by
    rw [h]
    cases r with
    | none => rw [shownJobs_none]; rfl
    | some r => rfl
  have hjobLines : b.lookup (SlotField.jobLines.key slot) =
      some (.text (Text.joinWith "\n" ((shownJobs c r).map Candidate.Job.line))) := by
    rw [h]
    cases r with
    | none => rw [shownJobs_none]; rfl
    | some r => rfl
  have hstudies : b.lookup (SlotField.studies.key slot) =
      some (.list ((shownStudies c r).map studyItem)) := by
    rw [h]
    cases r with
    | none => rw [shownStudies_none]; rfl
    | some r => rw [← capped_studies]; rfl
  have hstudyLines : b.lookup (SlotField.studyLines.key slot) =
      some (.text (Text.joinWith "\n" ((shownStudies c r).flatMap Study.lines))) := by
    rw [h]
    cases r with
    | none => rw [shownStudies_none]; rfl
    | some r => rw [← capped_studies]; rfl
  refine ⟨h, ?_, hjobs, ?_, hjobLines, hstudies, ?_, hstudyLines, length_flatMap_lines _, ?_, ?_⟩
  · rw [h]
    cases r <;> rfl
  · rw [shownJobs, List.length_take, Nat.min_comm]
  · rw [shownStudies]
    cases c.studyCap with
    | none => rfl
    | some cap => rw [Option.elim_some, List.length_take, Nat.min_comm]
  · rw [hjobs, hjobLines]
    exact exists_isSet (List.map_eq_nil_iff.trans (joinWith_lines_eq_nil_iff _).symm)
  · rw [hstudies, hstudyLines]
    exact exists_isSet (List.map_eq_nil_iff.trans (joinWith_studyLines_eq_nil_iff _).symm)

/-- Records that fit on a page are bound to it: the page has five keys for each of its slots, all of them
different, and each slot has what its own record gives it. -/
theorem bindPage_slotted (c : Config) (rs : List Record) (h : rs.length ≤ c.capacity) :
    ∃ b, bindPage c rs = .ok b ∧ b.length = 5 * c.capacity ∧ (b.map (·.1)).Nodup ∧ bind [] b = b ∧
      ∀ i < c.capacity, Slotted c b (i + 1) rs[i]? := by
  have hpage := bindPage_eq c rs 0
  rw [Nat.zero_mul, List.drop_zero, List.take_of_length_le h] at hpage
  refine ⟨_, hpage, length_pageBinding c rs 0, nodup_keys_pageBinding c rs 0,
    bind_of_nodup (nodup_keys_pageBinding c rs 0), fun i hi => slotted_of_lookup fun f => ?_⟩
  have hlookup := lookup_pageBinding c rs 0 hi f
  rwa [Nat.zero_mul, Nat.zero_add] at hlookup

/-- A record of two jobs and a study, and another of none. -/
def briefRecords : List Record :=
  [⟨"Ada", [⟨"Analyst", "Acme", "2011"⟩, ⟨"Clerk", "Bell", ""⟩], [⟨"Oxford", "BSc", ""⟩]⟩, ⟨"Bo", [], []⟩]

/-- On a page of four slots, two have a record. -/
theorem bindPage_slotted_brief : briefRecords.length ≤ Config.default.capacity ∧
    ∃ b, bindPage Config.default briefRecords = .ok b ∧ b.length = 5 * Config.default.capacity ∧
      (b.map (·.1)).Nodup ∧ bind [] b = b ∧
      ∀ i < Config.default.capacity, Slotted Config.default b (i + 1) briefRecords[i]? :=
  ⟨by decide, bindPage_slotted Config.default briefRecords (by decide)⟩

end DeckMerge.Deck
