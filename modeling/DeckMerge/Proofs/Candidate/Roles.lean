import DeckMerge.Candidate.Record
import DeckMerge.Proofs.Text.Case
import Mathlib.Data.List.Infix

/-!
Jobs left out by a keyword. Keyword and title are compared in lower case, each by itself, so what is left out need
not be all that holds the keyword: for which keywords it is, depends on their letters alone.
-/

namespace DeckMerge.Candidate.Record

variable {keyword needle : Text} {r : Record} {j : Job}

theorem jobs_withoutRoles (r : Record) (keyword : Text) : (r.withoutRoles keyword).jobs =
    r.jobs.filter fun j => ¬ Text.lower keyword <:+: Text.lower j.title := by
  refine List.filter_congr fun j _ => ?_
  rw [Bool.eq_iff_iff, Bool.not_eq_true', ← Bool.not_eq_true, Text.holds_iff, decide_eq_true_eq]

theorem mem_jobs_withoutRoles : j ∈ (r.withoutRoles keyword).jobs ↔
    j ∈ r.jobs ∧ ¬ Text.lower keyword <:+: Text.lower j.title := by
  rw [jobs_withoutRoles, List.mem_filter, decide_eq_true_eq]

theorem withoutRoles_withoutRoles (r : Record) (keyword : Text) :
    (r.withoutRoles keyword).withoutRoles keyword = r.withoutRoles keyword := by
  have hjobs : ((r.withoutRoles keyword).withoutRoles keyword).jobs = (r.withoutRoles keyword).jobs := by
    rw [jobs_withoutRoles]
    exact List.filter_eq_self.2 fun j hj => decide_eq_true (mem_jobs_withoutRoles.1 hj).2
  exact congrArg (fun jobs => Record.mk r.name jobs r.studies) hjobs

/-- No job that is left has a title with this needle, whatever the record. -/
def Excludes (keyword needle : Text) : Prop :=
  ∀ r : Record, ∀ j ∈ (r.withoutRoles keyword).jobs, ¬ needle <:+: j.title

/-- A record of one job. -/
def ofTitle (title : Text) : Record := ⟨"Ada", [⟨title, [], []⟩], []⟩

theorem excludes_iff : Excludes keyword needle ↔ ∀ t, needle <:+: t → Text.lower keyword <:+: Text.lower t := by
  constructor
  · intro h t ht
    by_contra hlower
    exact h (ofTitle t) ⟨t, [], []⟩ (mem_jobs_withoutRoles.2 ⟨List.mem_singleton_self _, hlower⟩) ht
  · intro h r j hj hneedle
    exact (mem_jobs_withoutRoles.1 hj).2 (h j.title hneedle)

/-- A keyword takes out the jobs whose title holds it when both are in lower case, at once; all else stays as it is.
Then no title holds the lower case of the keyword. None holds the keyword itself exactly if its sigmas are
settled, and none its upper case exactly if that has the same lower case, and settled sigmas. -/
theorem withoutRoles_excludes_iff (keyword : Text) :
    (∀ r : Record, (r.withoutRoles keyword).name = r.name ∧ (r.withoutRoles keyword).studies = r.studies ∧
      ((r.withoutRoles keyword).jobs = r.jobs.filter fun j => ¬ Text.lower keyword <:+: Text.lower j.title) ∧
      (r.withoutRoles keyword).withoutRoles keyword = r.withoutRoles keyword) ∧
    Excludes keyword (Text.lower keyword) ∧
    (Excludes keyword keyword ↔ Text.isSteady keyword) ∧
    (Excludes keyword (Text.upper keyword) ↔
      Text.lower (Text.upper keyword) = Text.lower keyword ∧ Text.isSteady (Text.upper keyword)) := by
  refine ⟨fun r => ⟨rfl, rfl, jobs_withoutRoles r keyword, withoutRoles_withoutRoles r keyword⟩, ?_, ?_, ?_⟩
  · exact excludes_iff.2 fun t => Text.lower_isInfix_lower_of_lower
  · rw [excludes_iff, Text.forall_lower_isInfix_lower_iff]
  · rw [excludes_iff, Text.forall_lower_isInfix_lower_upper_iff]

/-- The final sigma of a keyword is not the one within a longer word, and the two capitals of a sharp s are not its
lower case. -/
theorem withoutRoles_keeps :
    ((ofTitle "ΠΡΟΕΔΡΟΣΑ").withoutRoles "ΠΡΟΕΔΡΟΣ" = ofTitle "ΠΡΟΕΔΡΟΣΑ" ∧
      "ΠΡΟΕΔΡΟΣ".toList <:+: "ΠΡΟΕΔΡΟΣΑ".toList) ∧
    (ofTitle "AUSSENDIENST").withoutRoles "Außendienst" = ofTitle "AUSSENDIENST" ∧
      Text.upper "Außendienst" = "AUSSENDIENST".toList := by
  decide +kernel

/-- A keyword of the first characters leaves out what holds it, whatever the case. -/
theorem excludes_of_ascii (h : ∀ c ∈ keyword, c.toNat < 0x80) :
    Excludes keyword keyword ∧ Excludes keyword (Text.upper keyword) := by
  obtain ⟨hlower, hupper, hkeyword⟩ := Text.lower_upper_of_ascii h
  rw [excludes_iff, Text.forall_lower_isInfix_lower_iff, excludes_iff, Text.forall_lower_isInfix_lower_upper_iff]
  exact ⟨Text.isSteady_of_notMem hkeyword, hlower, Text.isSteady_of_notMem hupper⟩

end DeckMerge.Candidate.Record
