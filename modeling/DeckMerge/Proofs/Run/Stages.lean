import DeckMerge.Proofs.Markup.Line
import DeckMerge.Proofs.Run.Site
import DeckMerge.Run.Injection

/-!
A value is written stage by stage. Each stage writes over the leftmost occurrence of the token behind
the last one; what is searched next is the text that followed this occurrence from the beginning. So
every occurrence is written over once, and none that a value brings with it.
-/

namespace DeckMerge.Run

variable {token value s rest tail final : Text} {found : List (Text × Text)} {resume : Nat}

/-! ### One stage -/

/-- A text while a value is written into it, and the place where the search goes on. `site` is the run
that was written anew, if there was one around the occurrence. -/
structure Stage where
  text : Text
  resume : Nat
  site : Option Site

def Stage.pending (g : Stage) : Text := g.text.drop g.resume

/-- The run of an occurrence is written again once for each line. The search goes on where the end of
the last one, which followed the occurrence, begins. -/
def Site.stage (r : Site) (value : Text) : Stage where
  text := r.preceding ++ r.lineRuns (Markup.lines value) ++ r.following
  resume := r.start + (r.lineRuns (Markup.lines value)).length - r.rest.length
  site := some r

def plainStage (before value after : Text) : Stage where
  text := before ++ Markup.escape value ++ after
  resume := (before ++ Markup.escape value).length
  site := none

/-- The leftmost occurrence from a place on is written over: with the runs of lines where a dialect has
a run around it, with the value as it is where none has. -/
inductive Advance (token value : Text) (s : Text) (resume : Nat) : Stage → Prop
  | run {before after : Text} {r : Site} : Text.First token (s.drop resume) before after →
    siteAt (s.take resume ++ before) after Dialect.all = .ok r →
      Advance token value s resume (r.stage value)
  | plain {before after : Text} : Text.First token (s.drop resume) before after →
    (∀ d, ∃ o, Site.locate d (s.take resume ++ before) after = .error o) →
      Advance token value s resume (plainStage (s.take resume ++ before) value after)

/-- All stages from a text and a place on, up to the text in which no occurrence is left. -/
inductive Stages (token value : Text) : Text → Nat → List Stage → Text → Prop
  | done {s : Text} {resume : Nat} : ¬ token <:+: s.drop resume → Stages token value s resume [] s
  | more {s : Text} {resume : Nat} {g : Stage} {gs : List Stage} {final : Text} :
    Advance token value s resume g → Stages token value g.text g.resume gs final →
      Stages token value s resume (g :: gs) final

theorem siteAt_eq_error_iff {before after : Text} {ds : List Dialect} :
    (∃ os, siteAt before after ds = .error os) ↔ ∀ d ∈ ds, ∃ o, Site.locate d before after = .error o := by
  induction ds with
  | nil => simp [siteAt]
  | cons d ds ih =>
    rw [List.forall_mem_cons, ← ih, siteAt]
    cases Site.locate d before after with
    | ok r => simp
    | error o => cases siteAt before after ds <;> simp

theorem exists_locate_of_siteAt {before after : Text} {ds : List Dialect} {r : Site}
    (h : siteAt before after ds = .ok r) : ∃ d, Site.locate d before after = .ok r := by
  induction ds with
  | nil => simp [siteAt] at h
  | cons d ds ih =>
    rw [siteAt] at h
    cases hl : Site.locate d before after with
    | ok r' =>
      rw [hl] at h
      obtain rfl := Except.ok.inj h
      exact ⟨d, hl⟩
    | error o =>
      rw [hl] at h
      cases hs : siteAt before after ds with
      | ok r' =>
        rw [hs] at h
        obtain rfl := Except.ok.inj h
        exact ih hs
      | error os => simp [hs] at h

theorem Site.stage_eq {before after : Text} {r : Site} (h : siteAt before after Dialect.all = .ok r)
    (value : Text) : r.stage value = ⟨r.preceding ++ r.fill (Markup.lines value) ++ after,
      (r.preceding ++ r.fill (Markup.lines value)).length, some r⟩ := by
  obtain ⟨d, hd⟩ := exists_locate_of_siteAt h
  obtain ⟨body, inside, head, hl⟩ := Site.locate_eq_ok_iff.1 hd
  have hruns : r.lineRuns (Markup.lines value) = r.fill (Markup.lines value) ++ r.rest := by
    rw [Site.lineRuns, if_neg (Markup.lines_ne_nil value)]
  simp [Site.stage, hruns, hl.after_eq, Site.start, Nat.add_sub_assoc]

/-- What is searched next is what followed the occurrence before it was written over. -/
theorem Advance.pending {g : Stage} (h : Advance token value s resume g) :
    ∃ before, Text.First token (s.drop resume) before g.pending := by
  cases h with
  | @run before after r hfirst hsite =>
    exact ⟨before, by simpa [Stage.pending, Site.stage_eq hsite value] using hfirst⟩
  | @plain before after hfirst _ =>
    have hpending : (plainStage (s.take resume ++ before) value after).pending = after :=
      List.drop_left
    exact ⟨before, by rwa [hpending]⟩

/-- The searches of all stages are of texts that followed the occurrences from the beginning. -/
theorem Stages.map_pending {gs : List Stage} (h : Stages token value s resume gs final)
    (ho : Text.Occurrences token (s.drop resume) found tail) :
    gs.map Stage.pending = found.map (·.2) := by
  induction h generalizing found with
  | done hnone =>
    cases ho with
    | none => rfl
    | more hfirst _ => exact absurd hfirst.isInfix hnone
  | @more s resume g gs final hadvance _ ih =>
    obtain ⟨before, hpending⟩ := hadvance.pending
    cases ho with
    | none hnone => exact absurd hpending.isInfix hnone
    | more hfirst hrest =>
      obtain ⟨-, rfl⟩ := hpending.unique hfirst
      rw [List.map_cons, List.map_cons, ih hrest]

/-! ### What is counted -/

namespace Outcome

/-- One more occurrence is written over, as runs with so many breaks or in its place. -/
def record (breaks : Nat) (o : Outcome) : Option Site → Outcome
  | some r =>
    { o with
      mode := if o.mode = .fallback then .fallback else .runs
      occurrences := o.occurrences + 1
      breaks := o.breaks + breaks
      dialect := some r.dialect }
  | none => { o with mode := .fallback, occurrences := o.occurrences + 1 }

def recordAll (breaks : Nat) (o : Outcome) (sites : List (Option Site)) : Outcome :=
  sites.foldl (record breaks) o

variable {breaks : Nat} {o : Outcome} {sites : List (Option Site)}

theorem occurrences_recordAll :
    (o.recordAll breaks sites).occurrences = o.occurrences + sites.length := by
  induction sites generalizing o with
  | nil => rfl
  | cons site sites ih =>
    rw [recordAll, List.foldl_cons, ← recordAll, ih, List.length_cons]
    cases site <;> simp only [record] <;> omega

theorem lineCount_recordAll : (o.recordAll breaks sites).lineCount = o.lineCount := by
  induction sites generalizing o with
  | nil => rfl
  | cons site sites ih =>
    rw [recordAll, List.foldl_cons, ← recordAll, ih]
    cases site <;> rfl

theorem breaks_recordAll :
    (o.recordAll breaks sites).breaks = o.breaks + breaks * sites.countP Option.isSome := by
  induction sites generalizing o with
  | nil => rfl
  | cons site sites ih =>
    rw [recordAll, List.foldl_cons, ← recordAll, ih]
    cases site with
    | none => simp [record]
    | some r =>
      simp only [record, List.countP_cons, Option.isSome_some, if_true, Nat.mul_add, Nat.mul_one]
      omega

/-- A value that once went in place of an occurrence without a run stays reported as such. -/
theorem mode_recordAll : (o.recordAll breaks sites).mode =
    if sites = [] then o.mode else if o.mode = .fallback ∨ none ∈ sites then .fallback else .runs := by
  induction sites generalizing o with
  | nil => rfl
  | cons site sites ih =>
    rw [recordAll, List.foldl_cons, ← recordAll, ih]
    cases site with
    | none => simp [record]
    | some r => by_cases hm : o.mode = .fallback <;> by_cases hs : sites = [] <;> simp [record, hm, hs]

end Outcome

theorem first_behind {before after : Text} (ht : token ≠ []) (done : Text)
    (h : Text.breakOn? token rest = some (before, after)) :
    Text.First token ((done ++ rest).drop done.length) before after := by
  rw [List.drop_left]
  exact Text.first_of_breakOn? ht h

/-- The loop goes through the stages and counts them. -/
theorem writeLines_stages {t : Task} (ht : t.token ≠ []) (done rest : Text) (o : Outcome)
    (notes : List Note) : ∃ gs, Stages t.token t.value (done ++ rest) done.length gs
        (t.writeLines (Markup.lines t.value) done rest o notes).1 ∧
      (t.writeLines (Markup.lines t.value) done rest o notes).2.1 =
        o.recordAll ((Markup.lines t.value).length - 1) (gs.map Stage.site) := by
  -- at every stage the text is what is finished and what is still searched, in this order
  fun_induction Task.writeLines t (Markup.lines t.value) done rest o notes with
  | case1 done rest o notes hnone =>
    refine ⟨[], .done ?_, rfl⟩
    rwa [List.drop_left, ← Text.breakOn?_eq_none_iff ht]
  | case2 done rest o notes before after hbreak _ r hsite ih =>
    obtain ⟨gs, hgs, ho⟩ := ih
    have hfirst := first_behind ht done hbreak
    have hsite' : siteAt ((done ++ rest).take done.length ++ before) after Dialect.all = .ok r := by
      rwa [List.take_left]
    refine ⟨r.stage t.value :: gs, .more (.run hfirst hsite') ?_, ho⟩
    rwa [Site.stage_eq hsite]
  | case3 done rest o notes before after hbreak _ os hsite ih =>
    obtain ⟨gs, hgs, ho⟩ := ih
    have hfirst := first_behind ht done hbreak
    have hnone : ∀ d, ∃ o,
        Site.locate d ((done ++ rest).take done.length ++ before) after = .error o := by
      rw [List.take_left]
      exact fun d => siteAt_eq_error_iff.1 ⟨os, hsite⟩ d (by cases d <;> decide)
    refine ⟨_ :: gs, .more (.plain hfirst hnone) ?_, ho⟩
    rwa [List.take_left]
  | case4 done rest o notes before after hbreak hlt =>
    exact absurd ((Text.first_of_breakOn? ht hbreak).length_lt ht) hlt

/-! ### The whole value -/

/-- A value of one line, written in the place of each occurrence. -/
structure InPlace (found : List (Text × Text)) (tail value : Text) (s : Text) (o : Outcome) : Prop where
  text : s = found.flatMap (fun f => f.1 ++ Markup.escape value) ++ tail
  missing : o.mode = .missing ↔ found = []
  plain : o.mode = .plain ↔ found ≠ []

/-- A value of several lines, written over each occurrence in a stage of its own. -/
structure ByLines (token value : Text) (s : Text) (found : List (Text × Text)) (gs : List Stage)
    (final : Text) (o : Outcome) : Prop where
  stages : Stages token value s 0 gs final
  pending : gs.map Stage.pending = found.map (·.2)
  missing : o.mode = .missing ↔ found = []
  fallback : o.mode = .fallback ↔ ∃ g ∈ gs, g.site = none
  runs : o.mode = .runs ↔ found ≠ [] ∧ ∀ g ∈ gs, g.site ≠ none
  lineCount : o.lineCount = (Markup.lines value).length
  breaks : o.breaks = (o.lineCount - 1) * gs.countP fun g => g.site.isSome

theorem substitute_eq (ho : Text.Occurrences token s found tail) (ht : token ≠ []) (value : Text) :
    substitute token value s = (found.flatMap (fun f => f.1 ++ value) ++ tail, found.length) := by
  rw [substitute, if_neg ht, ho.splitOn_eq ht]
  simp [Text.joinWith_append_singleton, List.flatMap_map]

theorem run_inPlace {t : Task} (ht : t.token ≠ []) (hv : ¬ Markup.hasBreak t.value)
    (ho : Text.Occurrences t.token s found tail) :
    InPlace found tail t.value (t.run s).1 (t.run s).2.1 ∧ (t.run s).2.1.occurrences = found.length := by
  have hrun : t.run s = (found.flatMap (fun f => f.1 ++ Markup.escape t.value) ++ tail,
      ⟨t.label, if found.length = 0 then .missing else .plain, found.length, 1, 0, none⟩, []) := by
    simp only [Task.run, hv, Bool.false_eq_true, if_false, substitute_eq ho ht]
  rw [hrun]
  exact ⟨⟨rfl, by simp, by simp⟩, rfl⟩

theorem run_byLines {t : Task} (ht : t.token ≠ []) (hv : Markup.hasBreak t.value)
    (ho : Text.Occurrences t.token s found tail) :
    (∃ gs, ByLines t.token t.value s found gs (t.run s).1 (t.run s).2.1) ∧
      (t.run s).2.1.occurrences = found.length := by
  -- of the outcome at the start only the mode and the counts matter
  obtain ⟨o, hstart⟩ : ∃ o : Outcome,
    o = ⟨t.label, .missing, 0, (Markup.lines t.value).length, 0, none⟩ := ⟨_, rfl⟩
  obtain ⟨gs, hgs, hrecord⟩ := writeLines_stages ht [] s o []
  have hpending := hgs.map_pending ho
  have hlen : gs.length = found.length := by simpa using congrArg List.length hpending
  have hnil : gs = [] ↔ found = [] := by
    rw [← List.length_eq_zero_iff, hlen, List.length_eq_zero_iff]
  simp only [Task.run, hv, if_true, ← hstart, hrecord]
  have hmode : (o.recordAll ((Markup.lines t.value).length - 1) (gs.map Stage.site)).mode =
      if found = [] then .missing else if none ∈ gs.map Stage.site then .fallback else .runs := by
    rw [Outcome.mode_recordAll]
    simp [hstart, hnil]
  refine ⟨⟨gs, hgs, hpending, ?missing, ?fallback, ?runs, ?lineCount, ?breaks⟩, ?occurrences⟩
  case missing =>
    rw [hmode]
    split_ifs <;> simp_all
  case fallback =>
    rw [hmode]
    split_ifs <;> simp_all
  case runs =>
    rw [hmode]
    split_ifs <;> simp_all
  case lineCount => rw [Outcome.lineCount_recordAll, hstart]
  case breaks =>
    rw [Outcome.breaks_recordAll, Outcome.lineCount_recordAll, List.countP_map, hstart]
    simp [Function.comp_def]
  case occurrences => simp [Outcome.occurrences_recordAll, hlen, hstart]

/-- Writing a value over a token comes to an end, and counts the occurrences that do not overlap of the
token in the text as it was given. -/
theorem inject_occurrences (ht : token ≠ []) (s value : Text) (part label : Option Text) :
    ∃ found tail, Text.Occurrences token s found tail ∧
      (inject s token value part label).2.1.occurrences = found.length ∧
      (¬ Markup.hasBreak value → InPlace found tail value (inject s token value part label).1
        (inject s token value part label).2.1) ∧
      (Markup.hasBreak value → ∃ gs, ByLines token value s found gs
        (inject s token value part label).1 (inject s token value part label).2.1) := by
  obtain ⟨found, tail, ho⟩ := Text.exists_occurrences ht s
  refine ⟨found, tail, ho, ?_⟩
  obtain ⟨t, ht', hvalue, hinject⟩ : ∃ t : Task, t.token = token ∧ t.value = value ∧
      inject s token value part label = t.run s := ⟨⟨token, value, _, part⟩, rfl, rfl, rfl⟩
  subst ht' hvalue
  rw [hinject]
  by_cases hv : Markup.hasBreak t.value
  · obtain ⟨hlines, hcount⟩ := run_byLines ht hv ho
    exact ⟨hcount, fun h => absurd hv h, fun _ => hlines⟩
  · obtain ⟨hplace, hcount⟩ := run_inPlace ht hv ho
    exact ⟨hcount, fun _ => hplace, fun h => absurd h hv⟩

def quotedToken : Text := "\x7b\x7bA\x7d\x7d"

/-- The token in a run, and once more where no run is. -/
def quotedText : Text := "<a:r><a:t>\x7b\x7bA\x7d\x7d</a:t></a:r>\x7b\x7bA\x7d\x7d"

/-- A value of two lines that holds the token itself. -/
def quotingValue : Text := "\x7b\x7bA\x7d\x7d\nz"

theorem inject_occurrences_quoting : quotedToken ≠ [] ∧ Markup.hasBreak quotingValue ∧
    ∃ found tail gs, Text.Occurrences quotedToken quotedText found tail ∧ found.length = 2 ∧
      ByLines quotedToken quotingValue quotedText found gs
        (inject quotedText quotedToken quotingValue none none).1
        (inject quotedText quotedToken quotingValue none none).2.1 ∧
      (inject quotedText quotedToken quotingValue none none).2.1 =
        ⟨quotedToken, .fallback, 2, 2, 1, some .drawing⟩ := by
  have ht : quotedToken ≠ [] := by decide
  have hv : Markup.hasBreak quotingValue := by decide
  obtain ⟨found, tail, ho, hcount, -, hlines⟩ :=
    inject_occurrences ht quotedText quotingValue none none
  obtain ⟨gs, hgs⟩ := hlines hv
  have hrun : (inject quotedText quotedToken quotingValue none none).2.1 =
      ⟨quotedToken, .fallback, 2, 2, 1, some .drawing⟩ := by decide +kernel
  rw [hrun] at hcount
  exact ⟨ht, hv, found, tail, gs, ho, hcount.symm, hgs, hrun⟩

end DeckMerge.Run
