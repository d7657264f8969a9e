import DeckMerge.Proofs.Placeholder.Unrolling
import DeckMerge.Proofs.Text.Numeral

/-!
The text of an expansion is literal text around the marks of slots. Cleanup never touches a mark, and
the slots are numbered from 0 in the order in which the unrolling meets their values.
-/

namespace DeckMerge.Placeholder

/-- Literal texts with fillers between them. -/
def weave (first : Text) (fillers rest : List Text) : Text :=
  first ++ (List.zipWith (· ++ ·) fillers rest).flatten

@[simp] theorem weave_nil (first : Text) (rest : List Text) : weave first [] rest = first := by
  simp [weave]

@[simp] theorem weave_cons (first filler l : Text) (fillers rest : List Text) :
    weave first (filler :: fillers) (l :: rest) = first ++ filler ++ weave l fillers rest := by
  simp [weave]

theorem append_weave (s first : Text) (fillers rest : List Text) :
    s ++ weave first fillers rest = weave (s ++ first) fillers rest := by
  simp [weave]

theorem notMem_weave {c : Char} {first : Text} {fillers rest : List Text} (hfirst : c ∉ first)
    (hfillers : ∀ s ∈ fillers, c ∉ s) (hrest : ∀ l ∈ rest, c ∉ l) : c ∉ weave first fillers rest := by
  induction fillers generalizing first rest with
  | nil => simpa using hfirst
  | cons filler fillers ih =>
    cases rest with
    | nil => simpa [weave] using hfirst
    | cons l rest =>
      simp only [List.forall_mem_cons] at hfillers hrest
      simp [hfirst, hfillers.1, ih hrest.1 hfillers.2 hrest.2]

def marks (index count : Nat) : List Text := (List.range' index count).map slotText

@[simp] theorem marks_zero (index : Nat) : marks index 0 = [] := rfl

@[simp] theorem marks_succ (index count : Nat) :
    marks index (count + 1) = slotText index :: marks (index + 1) count := by
  simp [marks, List.range'_succ]

/-- A text is literals without NUL around the marks of some slots. -/
structure Marked (index count : Nat) (s first : Text) (rest : List Text) : Prop where
  eq_weave : s = weave first (marks index count) rest
  length_eq : rest.length = count
  notMem_first : '\x00' ∉ first
  notMem_rest : ∀ l ∈ rest, '\x00' ∉ l

namespace Marked

variable {index count : Nat} {s first : Text} {rest : List Text}

theorem nil (index : Nat) : Marked index 0 [] [] [] := ⟨by simp, rfl, by simp, by simp⟩

theorem text {t : Text} (ht : '\x00' ∉ t) (h : Marked index count s first rest) :
    Marked index count (t ++ s) (t ++ first) rest where
  eq_weave := by rw [h.eq_weave, append_weave]
  length_eq := h.length_eq
  notMem_first := by simp [ht, h.notMem_first]
  notMem_rest := h.notMem_rest

theorem slot (h : Marked (index + 1) count s first rest) :
    Marked index (count + 1) (slotText index ++ s) [] (first :: rest) where
  eq_weave := by simp [h.eq_weave]
  length_eq := by simp [h.length_eq]
  notMem_first := by simp
  notMem_rest := List.forall_mem_cons.2 ⟨h.notMem_first, h.notMem_rest⟩

end Marked

theorem slotted_marked (ps : List Piece) (index : Nat) (h : ∀ t, Piece.text t ∈ ps → '\x00' ∉ t) :
    ∃ first rest, Marked index (ps.filterMap Piece.slot?).length (slotted index ps) first rest := by
  induction ps generalizing index with
  | nil => exact ⟨[], [], .nil index⟩
  | cons p ps ih =>
    cases p with
    | text t =>
      obtain ⟨first, rest, hm⟩ := ih index fun t ht => h t (List.mem_cons_of_mem _ ht)
      exact ⟨t ++ first, rest, hm.text (h t (by simp))⟩
    | value key v =>
      obtain ⟨first, rest, hm⟩ := ih (index + 1) fun t ht => h t (List.mem_cons_of_mem _ ht)
      exact ⟨[], first :: rest, hm.slot⟩

/-! ### Cleanup keeps the marks -/

theorem not_isTokenChar_nul : ¬ isTokenChar '\x00' := by decide

theorem strip_append_slotText (s s' : Text) (index : Nat) :
    (strip (s ++ (slotText index ++ s'))).1 = (strip s).1 ++ (slotText index ++ (strip s').1) := by
  have h : s ++ (slotText index ++ s') = s ++ '\x00' :: (Text.ofNat index ++ '\x00' :: s') := by
    simp [slotText]
  rw [h, strip_append_cons not_isTokenChar_nul, strip_append_cons not_isTokenChar_nul,
    strip_of_notMem (Text.notMem_ofNat (by decide) index)]
  simp [slotText]

theorem strip_weave (first : Text) (index : Nat) (rest : List Text) :
    (strip (weave first (marks index rest.length) rest)).1 =
      weave (strip first).1 (marks index rest.length) (rest.map fun l => (strip l).1) := by
  induction rest generalizing first index with
  | nil => simp
  | cons l rest ih => simp [strip_append_slotText, ih]

theorem mem_of_mem_strip {c : Char} {s : Text} (h : c ∈ (strip s).1) : c ∈ s := by
  induction s using Token.frontInduction with
  | nil => simp at h
  | token t s hv ih =>
    rw [strip_token hv] at h
    exact List.mem_append_right _ (ih h)
  | char d s hr ih =>
    rw [strip_cons hr] at h
    rcases List.mem_cons.1 h with rfl | h
    · exact List.mem_cons_self
    · exact List.mem_cons_of_mem d (ih h)

theorem Marked.strip {index count : Nat} {s first : Text} {rest : List Text}
    (h : Marked index count s first rest) :
    Marked index count (strip s).1 (strip first).1 (rest.map fun l => (strip l).1) where
  eq_weave := by
    obtain ⟨rfl, rfl, -, -⟩ := h
    exact strip_weave first index rest
  length_eq := by simp [h.length_eq]
  notMem_first hc := h.notMem_first (mem_of_mem_strip hc)
  notMem_rest := by
    intro l hl hc
    obtain ⟨l', hl', rfl⟩ := List.mem_map.1 hl
    exact h.notMem_rest l' hl' (mem_of_mem_strip hc)

/-! ### Pieces hold nothing but the text of their nodes -/

namespace Node

mutual

theorem mem_text_of_mem_pieces {env : Env} {t : Text} {c : Char} (hc : c ∈ t) :
    (n : Node) → Piece.text t ∈ n.pieces env → c ∈ n.text
  | .literal s, h => by
    obtain rfl : t = s := by simpa [pieces] using h
    exact hc
  | .stray m, h => by
    obtain rfl : t = m.token.text := by simpa [pieces] using h
    exact hc
  | .scalar key, h => by
    rw [pieces] at h
    split at h
    · simp at h
    · obtain rfl : t = scalarText key := by simpa using h
      exact hc
  | .block opener children closer, h => by
    rw [pieces] at h
    obtain ⟨env', -, h⟩ := List.mem_flatMap.1 h
    simp [mem_textAll_of_mem_pieces hc children h]

theorem mem_textAll_of_mem_pieces {env : Env} {t : Text} {c : Char} (hc : c ∈ t) :
    (ns : List Node) → Piece.text t ∈ piecesAll env ns → c ∈ textAll ns
  | [], h => by simp [piecesAll] at h
  | n :: ns, h => by
    rw [textAll_cons, List.mem_append]
    rcases List.mem_append.1 h with h | h
    · exact .inl (mem_text_of_mem_pieces hc n h)
    · exact .inr (mem_textAll_of_mem_pieces hc ns h)

end

end Node

theorem expansion_marked (p : Page) {s : Text} (hs : '\x00' ∉ s) : ∃ first rest,
    Marked 0 (p.expansion s).slots.length (p.expansion s).text first rest := by
  have hp : ∀ t, Piece.text t ∈ Node.piecesAll p.env (parse s) → '\x00' ∉ t := by
    intro t ht hc
    have hmem := Node.mem_textAll_of_mem_pieces hc (parse s) ht
    rw [textAll_parse_eq] at hmem
    exact hs hmem
  obtain ⟨first, rest, hm⟩ := slotted_marked _ 0 hp
  exact ⟨_, _, hm.strip⟩

end DeckMerge.Placeholder
