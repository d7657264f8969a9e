import DeckMerge.Proofs.Markup.Escape
import DeckMerge.Proofs.Run.Plain
import DeckMerge.Proofs.Run.Stages
import Mathlib.Algebra.GroupWithZero.Nat

/-!
A value in a plain run. Writing it over a token that stands once puts its lines into the text of the
run, with the end of a run, a break and the start of a run between two: one plain run for each line.
-/

namespace DeckMerge.Run

variable {d : Dialect} {pre post props c c' token value l : Text} {ls ms : List Text}

/-! ### Texts in lines -/

/-- The lines of two texts, one behind the other: the last of the first and the first of the second are
one line. -/
def joinLines : List Text → List Text → List Text
  | [], ms => ms
  | [l], [] => [l]
  | [l], m :: ms => (l ++ m) :: ms
  | l :: l' :: ls, ms => l :: joinLines (l' :: ls) ms

theorem joinLines_ne_nil (hls : ls ≠ []) : joinLines ls ms ≠ [] := by
  fun_cases joinLines ls ms <;> simp_all

theorem length_joinLines (hls : ls ≠ []) (hms : ms ≠ []) :
    (joinLines ls ms).length + 1 = ls.length + ms.length := by
  fun_induction joinLines ls ms with
  | case1 => exact absurd rfl hls
  | case2 => exact absurd rfl hms
  | case3 l m ms => simp [Nat.add_comm]
  | case4 l l' ls ms ih =>
    have := ih (by simp) hms
    simp only [List.length_cons] at this ⊢
    omega

theorem joinWith_joinLines (hls : ls ≠ []) (hms : ms ≠ []) (mark : Text) :
    Text.joinWith mark (joinLines ls ms) = Text.joinWith mark ls ++ Text.joinWith mark ms := by
  fun_induction joinLines ls ms with
  | case1 => exact absurd rfl hls
  | case2 => exact absurd rfl hms
  | case3 l m ms =>
    cases ms with
    | nil => rfl
    | cons m' ms => simp [Text.joinWith]
  | case4 l l' ls ms ih =>
    have hls' : l' :: ls ≠ [] := by simp
    rw [Text.joinWith_cons_of_ne_nil (joinLines_ne_nil hls'), ih hls' hms,
      Text.joinWith_cons_of_ne_nil hls']
    simp only [List.append_assoc]

/-- The lines of a text that starts with `first` and goes on with values, each in its lines, and the
texts behind them. -/
def weaveLines (first : Text) : List (List Text × Text) → List Text
  | [] => [first]
  | (ls, l) :: more => joinLines (joinLines [first] ls) (weaveLines l more)

theorem weaveLines_ne_nil (first : Text) (more : List (List Text × Text)) :
    weaveLines first more ≠ [] := by
  fun_cases weaveLines first more
  · simp
  · exact joinLines_ne_nil (joinLines_ne_nil (by simp))

theorem length_weaveLines (first : Text) {more : List (List Text × Text)} (h : ∀ p ∈ more, p.1 ≠ []) :
    (weaveLines first more).length = 1 + (more.map fun p => p.1.length - 1).sum := by
  induction more generalizing first with
  | nil => rfl
  | cons p more ih =>
    obtain ⟨ls, l⟩ := p
    obtain ⟨hls, hmore⟩ := List.forall_mem_cons.1 h
    have hne : joinLines [first] ls ≠ [] := joinLines_ne_nil (by simp)
    have hfirst : (joinLines [first] ls).length + 1 = 1 + ls.length := length_joinLines (by simp) hls
    have hjoin := length_joinLines hne (weaveLines_ne_nil l more)
    have hpos : 0 < ls.length := List.length_pos_iff.2 hls
    rw [ih l hmore] at hjoin
    rw [weaveLines, List.map_cons, List.sum_cons]
    dsimp only at hpos ⊢
    omega

theorem joinWith_weaveLines (mark first : Text) {more : List (List Text × Text)}
    (h : ∀ p ∈ more, p.1 ≠ []) : Text.joinWith mark (weaveLines first more) =
      first ++ more.flatMap fun p => Text.joinWith mark p.1 ++ p.2 := by
  induction more generalizing first with
  | nil => simp [weaveLines, Text.joinWith]
  | cons p more ih =>
    obtain ⟨ls, l⟩ := p
    obtain ⟨hls, hmore⟩ := List.forall_mem_cons.1 h
    rw [weaveLines, joinWith_joinLines (joinLines_ne_nil (by simp)) (weaveLines_ne_nil l more),
      joinWith_joinLines (by simp) hls, ih l hmore]
    simp [Text.joinWith]

def writtenLines (value : Text) : List Text := (Markup.lines value).map Markup.escape

theorem writtenLines_ne_nil (value : Text) : writtenLines value ≠ [] := by
  simp [writtenLines, Markup.lines_ne_nil]

theorem length_writtenLines (value : Text) :
    (writtenLines value).length = (Markup.lines value).length := by simp [writtenLines]

theorem notMem_of_mem_writtenLines (h : l ∈ writtenLines value) : '<' ∉ l ∧ '\x00' ∉ l := by
  obtain ⟨l, -, rfl⟩ := List.mem_map.1 h
  exact ⟨Markup.lt_notMem_escape l, Markup.nul_notMem_escape l⟩

/-! ### What stands between lines -/

section Between

variable {mark mark' : Text}

theorem exists_joinWith (h : 1 < ls.length) :
    ∃ l more, ∀ mark, Text.joinWith mark ls = l ++ mark ++ Text.joinWith mark more := by
  match ls with
  | l :: l' :: ls => exact ⟨l, l' :: ls, fun mark => Text.joinWith_cons_of_ne_nil (by simp)⟩

theorem length_joinWith (mark : Text) (ls : List Text) :
    (Text.joinWith mark ls).length = (ls.map List.length).sum + (ls.length - 1) * mark.length := by
  induction ls with
  | nil => simp [Text.joinWith]
  | cons l ls ih =>
    cases ls with
    | nil => simp [Text.joinWith]
    | cons l' ls =>
      rw [Text.joinWith_cons_of_ne_nil (by simp), List.length_append, List.length_append, ih]
      simp only [List.map_cons, List.sum_cons, List.length_cons, Nat.add_sub_cancel, Nat.add_mul]
      omega

/-- Two lines or more tell what stands between them. -/
theorem joinWith_inj (hls : 1 < ls.length)
    (h : Text.joinWith mark ls = Text.joinWith mark' ls) : mark = mark' := by
  have hlen := congrArg List.length h
  rw [length_joinWith, length_joinWith, Nat.add_left_cancel_iff] at hlen
  have hmark := Nat.eq_of_mul_eq_mul_left (Nat.sub_pos_of_lt hls) hlen
  obtain ⟨l, more, hjoin⟩ := exists_joinWith hls
  rw [hjoin, hjoin, List.append_assoc, List.append_assoc] at h
  exact (List.append_inj (List.append_cancel_left h) hmark).1

end Between

/-! ### Runs of lines -/

/-- What stands between two lines: the end of a run, a break and the start of a run. -/
def Dialect.nextLine (d : Dialect) (props : Text) : Text :=
  d.runEnd ++ d.lineBreak props ++ d.runStart props

/-- Plain runs with breaks between them are one run with all of this between its lines. -/
theorem joinWith_map_run (hls : ls ≠ []) :
    Text.joinWith (d.lineBreak props) (ls.map (d.run props)) =
      d.runStart props ++ Text.joinWith (d.nextLine props) ls ++ d.runEnd := by
  induction ls with
  | nil => exact absurd rfl hls
  | cons l ls ih =>
    cases ls with
    | nil => simp [Text.joinWith, Dialect.run]
    | cons l' ls =>
      have hls' : l' :: ls ≠ [] := by simp
      rw [List.map_cons, Text.joinWith_cons_of_ne_nil (by simp), ih hls',
        Text.joinWith_cons_of_ne_nil hls']
      simp only [Dialect.run, Dialect.nextLine, List.append_assoc]

theorem joinWith_map_weaveLines (props first : Text) {more : List (List Text × Text)}
    (h : ∀ p ∈ more, p.1 ≠ []) :
    Text.joinWith (d.lineBreak props) ((weaveLines first more).map (d.run props)) = d.runStart props ++
      (first ++ more.flatMap fun p => Text.joinWith (d.nextLine props) p.1 ++ p.2) ++ d.runEnd := by
  rw [joinWith_map_run (weaveLines_ne_nil first more), joinWith_weaveLines _ _ h]

/-! ### Writing over a token that stands once -/

section Once

variable {s before after : Text}

theorem occurrences_once (hfirst : Text.First token s before after) (honce : ¬ token <:+: after) :
    Text.Occurrences token s [(before, after)] after := .more hfirst (.none honce)

theorem writeLines_of_eq_none {t : Task} (h : Text.breakOn? t.token after = none) (lines : List Text)
    (done : Text) (o : Outcome) (notes : List Note) :
    t.writeLines lines done after o notes = (done ++ after, o, notes) := by
  rw [Task.writeLines, h]

theorem inject_of_hasBreak (ht : token ≠ []) (hv : Markup.hasBreak value)
    (hfirst : Text.First token s before after) (honce : ¬ token <:+: after)
    (part label : Option Text) : (inject s token value part label).1 =
      match siteAt before after Dialect.all with
      | .ok r => r.preceding ++ r.fill (Markup.lines value) ++ after
      | .error _ => before ++ Markup.escape value ++ after := by
  have hnone := (Text.breakOn?_eq_none_iff ht).2 honce
  have hfound := (Text.breakOn?_eq_some_iff ht).2 hfirst
  have hlt := hfirst.length_lt ht
  simp only [inject, Task.run, hv, if_true]
  rw [Task.writeLines]
  simp only [hfound, hlt, if_true, List.nil_append]
  cases siteAt before after Dialect.all with
  | ok r => exact congrArg Prod.fst (writeLines_of_eq_none hnone _ _ _ _)
  | error os => exact congrArg Prod.fst (writeLines_of_eq_none hnone _ _ _ _)

/-- A value over the only occurrence of a token in the text of a plain run. -/
theorem inject_plain (ht : token ≠ []) (hpre : Closed pre) (hprops : Closed props)
    (hread : ReadsAsProps .drawing props) (hc : '<' ∉ c) (hc' : '<' ∉ c')
    (hfirst : Text.First token s (pre ++ (Dialect.drawing.runStart props ++ c))
      (c' ++ (Dialect.drawing.runEnd ++ post)))
    (honce : ¬ token <:+: c' ++ (Dialect.drawing.runEnd ++ post)) (value : Text)
    (part label : Option Text) :
    (inject s token value part label).1 = pre ++ (Dialect.drawing.runStart props ++ c) ++
      Text.joinWith (Dialect.drawing.nextLine props) (writtenLines value) ++
        (c' ++ (Dialect.drawing.runEnd ++ post)) := by
  by_cases hv : Markup.hasBreak value
  · have hsite := Site.locate_plain hpre hprops hread hc hc' post
    rw [inject_of_hasBreak ht hv hfirst honce, Dialect.all, siteAt, hsite]
    simp [Site.fill, Site.head, Site.nextLine, Dialect.nextLine, Dialect.runStart, Dialect.runEnd,
      writtenLines]
  · have hlines : writtenLines value = [Markup.escape value] := by
      simp [writtenLines, Markup.lines_of_not_hasBreak hv]
    simp only [inject, Task.run, hv, Bool.false_eq_true, if_false,
      substitute_eq (occurrences_once hfirst honce) ht, hlines]
    simp [Text.joinWith]

end Once

end DeckMerge.Run
