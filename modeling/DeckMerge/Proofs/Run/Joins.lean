import DeckMerge.Proofs.Run.Ranges
import DeckMerge.Proofs.Run.TextRun

/-!
What joining makes of runs. A cut between two runs is removed exactly if a token of adjacent runs goes
over it: the runs of a block without other cuts become its first run with the text of all.
-/

namespace DeckMerge.Run

-- The zero of the core library, whatever else is in scope.
attribute [local instance (high)] Zero.ofOfNat0

open Placeholder (SplitsToken)

variable {linked linked' : Nat → Prop} {index k : Nat} {ranges : List (Nat × Nat)}
  {runs rs rs' rest rest' x' y' a b g : Runs}

def textOf (rs : Runs) : Text := rs.flatMap (·.2.text)

@[simp] theorem textOf_append (rs rest : Runs) : textOf (rs ++ rest) = textOf rs ++ textOf rest := by
  simp [textOf]

theorem flatten_map_text (rs : Runs) : (rs.map (·.2.text)).flatten = textOf rs := by
  rw [textOf, List.flatMap_def]

/-- A run with the texts of others behind its own. -/
def TextRun.absorb (r : TextRun) (followers : Runs) : TextRun :=
  { r with text := r.text ++ textOf followers }

/-- Runs become blocks. A cut is numbered by the runs before it, and the runs on both sides of it are in
one block exactly if it is a linked one; the first run of a block takes the texts of all. -/
inductive Joins (linked : Nat → Prop) : Nat → Runs → Runs → Prop
  | nil {index : Nat} : Joins linked index [] []
  | block {index : Nat} {gap : Text} {run : TextRun} {followers rest rest' : Runs} :
    (∀ f ∈ followers, Blank f.1) →
    (∀ k, index < k → k ≤ index + followers.length → linked k) →
    (rest ≠ [] → ¬ linked (index + followers.length + 1)) →
    Joins linked (index + followers.length + 1) rest rest' →
    Joins linked index ((gap, run) :: followers ++ rest) ((gap, run.absorb followers) :: rest')

namespace Joins

theorem eq_nil_iff (h : Joins linked index rs rs') : rs = [] ↔ rs' = [] := by
  cases h <;> simp

theorem cons {gap : Text} {run : TextRun} (hcut : rest ≠ [] → ¬ linked (index + 1))
    (h : Joins linked (index + 1) rest rest') : Joins linked index ((gap, run) :: rest) ((gap, run) :: rest') := by
  have hblock : Joins linked index ((gap, run) :: [] ++ rest) ((gap, run.absorb []) :: rest') :=
    .block (by simp) (fun k hlt hle => absurd hlt (Nat.not_lt.2 hle)) hcut h
  simpa [TextRun.absorb, textOf] using hblock

theorem refl (h : ∀ k, index < k → k < index + rs.length → ¬ linked k) : Joins linked index rs rs := by
  induction rs generalizing index with
  | nil => exact .nil
  | cons r rs ih =>
    refine cons (fun hne => h _ (by omega) ?_) (ih fun k hlt hle => h k (by omega) ?_)
    · have := List.length_pos_iff.2 hne
      rw [List.length_cons]
      omega
    · rw [List.length_cons]
      omega

theorem shift (h : Joins linked index rs rs') (n : Nat)
    (hk : ∀ k, index < k → k < index + rs.length → (linked k ↔ linked' (k + n))) :
    Joins linked' (index + n) rs rs' := by
  induction h with
  | nil => exact .nil
  | @block index gap run followers rest rest' hblank hlinked hcut _ ih =>
    have hlen : index + n + followers.length + 1 = index + followers.length + 1 + n := by omega
    simp only [List.length_append, List.length_cons] at hk
    refine .block hblank (fun k hlt hle => ?_) (fun hne => ?_) ?_
    · have hn := (hk (k - n) (by omega) (by omega)).1 (hlinked (k - n) (by omega) (by omega))
      rwa [Nat.sub_add_cancel (by omega)] at hn
    · have := List.length_pos_iff.2 hne
      rw [hlen, ← hk _ (by omega) (by omega)]
      exact hcut hne
    · rw [hlen]
      exact ih fun k hlt hle => hk k (by omega) (by omega)

theorem append (h : Joins linked index rs rs') (hcut : rs ≠ [] → rest ≠ [] → ¬ linked (index + rs.length))
    (hrest : Joins linked (index + rs.length) rest rest') :
    Joins linked index (rs ++ rest) (rs' ++ rest') := by
  induction h with
  | nil => simpa using hrest
  | @block index gap run followers rs rs' hblank hlinked hcut' _ ih =>
    have hlen : index + ((gap, run) :: followers ++ rs).length = index + followers.length + 1 + rs.length := by
      simp only [List.length_append, List.length_cons]
      omega
    rw [hlen] at hcut hrest
    rw [List.append_assoc]
    refine .block hblank hlinked (fun hne => ?_) (ih (fun _ => hcut (by simp)) hrest)
    by_cases hrs : rs = []
    · simpa [hrs] using hcut (by simp) (by simpa [hrs] using hne)
    · exact hcut' hrs

theorem split (h : Joins linked index rs (x' ++ y')) : ∃ x y, rs = x ++ y ∧ Joins linked index x x' ∧
    Joins linked (index + x.length) y y' ∧ (x' ≠ [] → y' ≠ [] → ¬ linked (index + x.length)) := by
  generalize hs : x' ++ y' = s at h
  induction h generalizing x' with
  | nil =>
    obtain ⟨rfl, rfl⟩ := List.append_eq_nil_iff.1 hs
    exact ⟨[], [], rfl, .nil, .nil, by simp⟩
  | @block index gap run followers rest rest' hblank hlinked hcut hrest ih =>
    cases x' with
    | nil =>
      obtain rfl : y' = _ := hs
      exact ⟨[], _, rfl, .nil, .block hblank hlinked hcut hrest, by simp⟩
    | cons r x' =>
      obtain ⟨rfl, hrest'⟩ := List.cons.inj hs
      obtain ⟨x, y, rfl, hx, hy, hcut'⟩ := ih hrest'
      have hlen : index + ((gap, run) :: followers ++ x).length = index + followers.length + 1 + x.length := by
        simp only [List.length_append, List.length_cons]
        omega
      refine ⟨(gap, run) :: followers ++ x, y, by simp, ?_, by rwa [hlen], fun _ hne => ?_⟩
      · exact .block hblank hlinked (fun hx => hcut (by simp [hx])) hx
      · rw [hlen]
        by_cases hnil : x' = []
        · obtain rfl := hx.eq_nil_iff.2 hnil
          exact hcut (by simpa [hy.eq_nil_iff] using hne)
        · exact hcut' hnil hne

theorem textOf_eq (h : Joins linked index rs rs') : textOf rs' = textOf rs := by
  induction h with
  | nil => rfl
  | block _ _ _ _ ih => simp_all [textOf, TextRun.absorb]

theorem blank (h : Joins linked index rs rs') (hrs' : ∀ r ∈ rs', Blank r.1) : ∀ r ∈ rs, Blank r.1 := by
  induction h with
  | nil => simp
  | block hblank _ _ _ ih =>
    obtain ⟨hgap, hrest'⟩ := List.forall_mem_cons.1 hrs'
    intro r hr
    rcases List.mem_append.1 hr with hr | hr
    · rcases List.mem_cons.1 hr with rfl | hr
      · exact hgap
      · exact hblank r hr
    · exact ih hrest' r hr

theorem eq_of_not_linked (h : Joins linked index rs rs') (hk : ∀ k, ¬ linked k) : rs' = rs := by
  induction h with
  | nil => rfl
  | @block index gap run followers rest rest' _ hlinked _ _ ih =>
    cases followers with
    | nil => simp [TextRun.absorb, textOf, ih]
    | cons f followers => exact absurd (hlinked (index + 1) (by omega) (by simp)) (hk _)

end Joins

/-! ### Joining the ranges of a group -/

/-- Nothing but blanks stands between two of the runs. -/
def Adjacent (g : Runs) : Prop := ∀ r ∈ g.tail, Blank r.1

theorem Joins.adjacent (h : Joins linked index rs rs') (hrs' : Adjacent rs') : Adjacent rs := by
  cases h with
  | nil => exact hrs'
  | block hblank _ _ hrest =>
    intro r hr
    rcases List.mem_append.1 hr with hr | hr
    · exact hblank r hr
    · exact hrest.blank hrs' r hr

/-- Ranges of numbers from one on, below another. -/
structure Within (ranges : List (Nat × Nat)) (first stop : Nat) : Prop where
  apart : ranges.Pairwise fun r q => r.2 < q.1
  mem : ∀ r ∈ ranges, first ≤ r.1 ∧ r.1 < r.2 ∧ r.2 < stop

namespace Within

variable {first stop : Nat} {q : Nat × Nat}

theorem not_covers (h : Within ranges first stop) (hk : k ≤ first) : ¬ Covers ranges k := by
  rintro ⟨r, hr, hlt, -⟩
  have := (h.mem r hr).1
  omega

theorem eq_nil (h : Within ranges first first) : ranges = [] := by
  refine List.eq_nil_iff_forall_not_mem.2 fun r hr => ?_
  have := h.mem r hr
  omega

/-- The ranges behind the first one begin where that one has ended. -/
theorem tail (h : Within (q :: ranges) first stop) : Within ranges (q.2 + 1) stop := by
  obtain ⟨hapart, hpairwise⟩ := List.pairwise_cons.1 h.apart
  exact ⟨hpairwise, fun r hr => ⟨hapart r hr, (h.mem r (List.mem_cons_of_mem _ hr)).2⟩⟩

theorem skip (h : Within (q :: ranges) first stop) (hq : q.1 ≠ first) :
    Within (q :: ranges) (first + 1) stop := by
  obtain ⟨hfirst, hlt, hstop⟩ := h.mem q List.mem_cons_self
  refine ⟨h.apart, List.forall_mem_cons.2 ⟨⟨by omega, hlt, hstop⟩, fun r hr => ?_⟩⟩
  have := h.tail.mem r hr
  omega

end Within

theorem joins_joinRanges (hr : Within ranges index (index + rs.length)) (hblank : Adjacent rs)
    (hlinked : ∀ k, index < k → k < index + rs.length → (linked k ↔ Covers ranges k)) :
    Joins linked index rs (joinRanges ranges index rs) ∧
      (joinRanges ranges index rs).length + (ranges.map fun r => r.2 - r.1).sum = rs.length := by
  induction ranges, index, rs using joinRanges.induct with
  | case1 ranges index =>
    rw [joinRanges, hr.eq_nil]
    exact ⟨.nil, rfl⟩
  | case2 gap run rs index last more ih =>
    obtain ⟨-, hlt, hstop⟩ := hr.mem _ List.mem_cons_self
    simp only [List.length_cons] at hlt hstop hlinked
    have htake : (rs.take (last - index)).length = last - index := List.length_take_of_le (by omega)
    have hdrop : (rs.drop (last - index)).length = index + rs.length - last := by
      rw [List.length_drop]
      omega
    have hnext : index + (rs.take (last - index)).length + 1 = last + 1 := by omega
    have hend : last + 1 + (rs.drop (last - index)).length = index + (rs.length + 1) := by omega
    have hmore : Within more (last + 1) (last + 1 + (rs.drop (last - index)).length) := hend ▸ hr.tail
    -- behind the range the cuts are those of the ranges behind it
    have hcut : ∀ k, last < k → k < index + (rs.length + 1) → (linked k ↔ Covers more k) := by
      intro k hlt' hle
      rw [hlinked k (by omega) hle, covers_cons_iff]
      exact or_iff_right (by simp only; omega)
    obtain ⟨hjoins, hcount⟩ := ih hmore
      (fun r hr' => hblank r (List.mem_of_mem_drop (List.mem_of_mem_tail hr')))
      (fun k hlt' hle => hcut k (by omega) (by omega))
    rw [joinRanges, if_pos rfl]
    constructor
    · have hblock : Joins linked index ((gap, run) :: rs.take (last - index) ++ rs.drop (last - index))
          ((gap, run.absorb (rs.take (last - index))) :: joinRanges more (last + 1) (rs.drop (last - index))) := .block
        (fun r hr' => hblank r (List.mem_of_mem_take hr'))
        (fun k hlt' hle => (hlinked k hlt' (by omega)).2 (covers_cons_iff.2 (.inl ⟨hlt', by simp only; omega⟩)))
        (fun hne => ?_) (by rwa [hnext])
      · rwa [List.cons_append, List.take_append_drop] at hblock
      · have hpos := List.length_pos_iff.2 hne
        rw [hnext, hcut (last + 1) (by omega) (by omega)]
        exact hmore.not_covers le_rfl
    · simp only [List.length_cons, List.map_cons, List.sum_cons, hdrop] at hcount ⊢
      omega
  | case3 index gap run rs first last more hne ih =>
    have hlen : index + 1 + rs.length = index + ((gap, run) :: rs).length := by
      rw [List.length_cons]
      omega
    have hrest : Within ((first, last) :: more) (index + 1) (index + 1 + rs.length) := hlen ▸ hr.skip hne
    obtain ⟨hjoins, hcount⟩ := ih hrest (fun r hr' => hblank r (List.mem_of_mem_tail hr'))
      (fun k hlt' hle => hlinked k (by omega) (hlen ▸ hle))
    rw [joinRanges, if_neg hne]
    refine ⟨.cons (fun hrs => ?_) hjoins, ?_⟩
    · have := List.length_pos_iff.2 hrs
      rw [hlinked _ (by omega) (by rw [List.length_cons]; omega)]
      exact hrest.not_covers le_rfl
    · rw [List.length_cons, List.length_cons]
      omega
  | case4 index gap run rs =>
    rw [joinRanges]
    refine ⟨.refl fun k hlt hle => ?_, by simp⟩
    rw [hlinked k hlt hle]
    exact not_covers_nil

end DeckMerge.Run
