import DeckMerge.CommandLine.Run
import DeckMerge.Proofs.Deck.Rendering
import DeckMerge.Proofs.Placeholder.Spans

/-!
Inspecting a template. The slides that are shown with placeholders are the ones that a rendering without
settings would fill, since all that looks for placeholders in a text goes by the tokens of its scan.
-/

namespace DeckMerge.CommandLine

open Deck (Template)
open Placeholder (Span scan markers)

variable {p : Package} {slides : List (Text × List Text)} {files : FileTree} {path : Path} {template : Text}
  {e : Failure}

/-! ### Templated slides -/

/-- The names of the slides that have keys. -/
def withKeys (slides : List (Text × List Text)) : List Text := (slides.filter (·.2 ≠ [])).map (·.1)

theorem withKeys_eq_nil_iff : withKeys slides = [] ↔ slides.countP (·.2 ≠ []) = 0 := by
  rw [withKeys, List.map_eq_nil_iff, List.countP_eq_length_filter, List.length_eq_zero_iff]

/-- The slides with keys are the templated ones. -/
theorem templatedSlides_eq (p : Package) : Template.templatedSlides p = (slideKeys p).map withKeys := by
  refine Sequence.filterM_eq_map_mapM (fun name _ => ?_) fun name _ y hy => ?_
  · cases p.readText name with
    | error r => rfl
    | ok s =>
      have hkeys : Part.isTemplated s = decide (Placeholder.keys (Run.joinRuns s).1 ≠ []) := by
        rw [Part.isTemplated, Bool.eq_iff_iff, decide_eq_true_iff, ne_eq, Placeholder.keys_eq_nil_iff, not_not]
      exact congrArg Except.ok hkeys
  · obtain ⟨s, -, hy⟩ := Sequence.bind_eq_ok_iff.1 hy
    obtain rfl := Except.ok.inj hy
    rfl

theorem exists_readText (h : slideKeys p = .ok slides) : ∀ y ∈ slides, ∃ s, p.readText y.1 = .ok s := by
  intro y hy
  obtain ⟨name, -, hread⟩ := Sequence.exists_of_mem_mapM h hy
  obtain ⟨s, hs, hread⟩ := Sequence.bind_eq_ok_iff.1 hread
  obtain rfl := Except.ok.inj hread
  exact ⟨s, hs⟩

theorem findParts_default (p : Package) : Template.findParts .default p = (do
    let slides ← slideKeys p
    if withKeys slides = [] then
      .error (.plain .templateLoad ("No slide in " ++ p.source ++ " contains placeholders"))
    else .ok (withKeys slides)) := by
  have hparts : ¬ Deck.Config.default.parts ≠ [] := not_not.2 rfl
  rw [Template.findParts, if_neg hparts, templatedSlides_eq]
  cases slideKeys p with
  | error r => rfl
  | ok slides =>
    simp only [Except.map, Sequence.bind_ok]
    split <;> rfl

/-- The template in a file, loaded to be rendered without settings. -/
def loadDefault (files : FileTree) (path : Path) : Except Failure Template := do
  (Template.load .default (← Package.openFile files path)).mapError .report

/-- The slides of the template in a file, with their keys. -/
def readSlides (files : FileTree) (path : Path) : Except Failure (List (Text × List Text)) := do
  (slideKeys (← Package.openFile files path)).mapError .report

/-- A template is loaded without settings exactly if it has slides with keys, and then for those. -/
theorem load_default_iff (p : Package) (names : List Text) :
    (∃ t, Template.load .default p = .ok t ∧ t.names = names) ↔
      names ≠ [] ∧ ∃ slides, slideKeys p = .ok slides ∧ names = withKeys slides := by
  constructor
  · rintro ⟨t, hload, rfl⟩
    obtain ⟨names, hnames, hload⟩ := Sequence.bind_eq_ok_iff.1 hload
    obtain ⟨parts, hparts, hload⟩ := Sequence.bind_eq_ok_iff.1 hload
    obtain rfl := Except.ok.inj hload
    rw [findParts_default] at hnames
    obtain ⟨slides, hslides, hnames⟩ := Sequence.bind_eq_ok_iff.1 hnames
    split at hnames
    case isTrue => cases hnames
    case isFalse hne =>
      have heq := Except.ok.inj hnames
      rw [Template.names, (Template.read_eq_ok hparts).1, ← heq]
      exact ⟨hne, slides, hslides, rfl⟩
  · rintro ⟨hne, slides, hslides, rfl⟩
    have hread : ∀ name ∈ withKeys slides, ∃ part,
        (do return (name, ← p.readText name) : Except Report (Text × Text)) = .ok part := by
      rintro name hname
      obtain ⟨y, hy, rfl⟩ := List.mem_map.1 hname
      obtain ⟨s, hs⟩ := exists_readText hslides y (List.mem_filter.1 hy).1
      exact ⟨(y.1, s), by rw [hs]; rfl⟩
    obtain ⟨parts, hparts⟩ := Sequence.exists_mapM_eq_ok hread
    refine ⟨⟨.default, p, parts⟩, ?_, (Template.read_eq_ok hparts).1⟩
    rw [Template.load, findParts_default, hslides, Sequence.bind_ok, if_neg hne, Sequence.bind_ok, hparts]
    rfl

theorem loadDefault_iff (names : List Text) :
    (∃ t, loadDefault files path = .ok t ∧ t.names = names) ↔
      names ≠ [] ∧ ∃ slides, readSlides files path = .ok slides ∧ names = withKeys slides := by
  rw [loadDefault, readSlides]
  cases Package.openFile files path with
  | error e =>
    constructor
    · rintro ⟨t, hload, -⟩
      cases hload
    · rintro ⟨-, slides, hread, -⟩
      cases hread
  | ok p => simpa only [Sequence.bind_ok, Sequence.mapError_eq_ok_iff] using load_default_iff p names

/-! ### What is shown -/

/-- The slide that a line shows as templated. -/
def Line.templated? (l : Line) : Option Text := ("  ✓ " : Text).isPrefixOf? l.text

def Session.templated (s : Session) : List Text := s.lines.filterMap Line.templated?

theorem templated_failed (files : FileTree) (e : Failure) :
    (Session.failed files e).templated = [] ∧ (Session.failed files e).ending ≠ .exit 0 := by
  rw [Session.failed]
  split
  · exact ⟨rfl, by simp⟩
  · exact ⟨rfl, by simp⟩

theorem filterMap_slideLines (slide : Text × List Text) :
    (slideLines slide).filterMap Line.templated? = if slide.2 ≠ [] then [slide.1] else [] := by
  obtain ⟨name, keys⟩ := slide
  cases keys with
  | nil => rfl
  | cons key keys =>
    have hname : (out ("  ✓ " ++ name)).templated? = some name := Text.isPrefixOf?_append _ _
    have hkeys : (out ("      " ++ Text.joinWith ", " (key :: keys))).templated? = none := rfl
    have hlines : slideLines (name, key :: keys) =
        [out ("  ✓ " ++ name), out ("      " ++ Text.joinWith ", " (key :: keys))] := rfl
    rw [hlines, List.filterMap_cons_some hname, List.filterMap_cons_none hkeys, List.filterMap_nil,
      if_pos (List.cons_ne_nil _ _)]

theorem filterMap_flatMap_slideLines (slides : List (Text × List Text)) :
    (slides.flatMap slideLines).filterMap Line.templated? = withKeys slides := by
  induction slides with
  | nil => rfl
  | cons slide slides ih =>
    rw [List.flatMap_cons, List.filterMap_append, ih, filterMap_slideLines, withKeys, withKeys, List.filter_cons]
    by_cases hkeys : slide.2 ≠ [] <;> simp [hkeys]

theorem inspect_of_error (h : readSlides files (.ofText template) = .error e) :
    inspect files template = .failed files e := by
  rw [readSlides] at h
  simp only [inspect, h]

/-- An inspection shows the slides with keys, and succeeds if there are some. -/
theorem inspect_of_ok (h : readSlides files (.ofText template) = .ok slides) :
    (inspect files template).templated = withKeys slides ∧
      ((inspect files template).ending = .exit 0 ↔ withKeys slides ≠ []) := by
  rw [readSlides] at h
  simp only [inspect, h, Session.templated]
  constructor
  · rw [List.cons_append, List.filterMap_cons_none rfl, List.filterMap_append, filterMap_flatMap_slideLines]
    exact List.append_nil _
  · rw [ne_eq, withKeys_eq_nil_iff]
    by_cases hnone : slides.countP (·.2 ≠ []) = 0
    · rw [if_pos hnone]
      exact iff_of_false (by simp) (not_not.2 hnone)
    · rw [if_neg hnone]
      exact iff_of_true rfl hnone

/-- The slides that are shown as templated are those that a template loaded without settings fills. -/
theorem inspect_agrees :
    (∀ s, Placeholder.strip s = (((scan s).filter (!·.isToken)).flatMap Span.text, (markers s).length) ∧
      Placeholder.keys s = ((markers s).map (·.token.key)).eraseDups ∧
      (Placeholder.hasTokens s ↔ ∃ p ∈ scan s, p.isToken)) ∧
    ∀ files template,
      (inspect files template).templated =
        ((loadDefault files (.ofText template)).toOption.map Template.names).getD [] ∧
      ((inspect files template).ending = .exit 0 ↔ ∃ t, loadDefault files (.ofText template) = .ok t) := by
  constructor
  · intro s
    refine ⟨Placeholder.strip_eq_spans s, Placeholder.keys_eq_eraseDups s, ?_⟩
    rw [Placeholder.hasTokens_eq_any, List.any_eq_true]
  -- a template without slides with keys is refused, and nothing is shown of slides that cannot be read
  · intro files template
    cases hload : loadDefault files (.ofText template) with
    | ok t =>
      obtain ⟨hne, slides, hread, hnames⟩ := (loadDefault_iff t.names).1 ⟨t, hload, rfl⟩
      obtain ⟨hshown, hending⟩ := inspect_of_ok hread
      exact ⟨hshown.trans hnames.symm, iff_of_true (hending.2 (hnames ▸ hne)) ⟨t, rfl⟩⟩
    | error e =>
      have hfails : ¬ ∃ t, (Except.error e : Except Failure Template) = .ok t := by simp
      cases hread : readSlides files (.ofText template) with
      | error e' =>
        rw [inspect_of_error hread]
        obtain ⟨hshown, hending⟩ := templated_failed files e'
        exact ⟨hshown, iff_of_false hending hfails⟩
      | ok slides =>
        obtain ⟨hshown, hending⟩ := inspect_of_ok hread
        have hnone : withKeys slides = [] := by
          by_contra hne
          obtain ⟨t, hload', -⟩ := (loadDefault_iff _).2 ⟨hne, slides, hread, rfl⟩
          exact hfails ⟨t, hload.symm.trans hload'⟩
        exact ⟨hshown.trans hnone, iff_of_false (fun hexit => hending.1 hexit hnone) hfails⟩

end DeckMerge.CommandLine
