import DeckMerge.Proofs.EventLog
import Mathlib

/-!
What is read back from any log. The last events that match are given as long as the lines that hold JSON
hold objects, no numeral in them is too long, and at least one event is asked for: a line with another
value comes back as if it were an event, or is an error where events are asked for by a field, and asking
for no event gives all of them.
-/

namespace DeckMerge

/-! ### The last entries -/

namespace Sequence

variable {α : Type} {p : α → Bool} {xs : List α} {n : Nat}

/-- The last entries are those that pass a test exactly if they all pass it. -/
theorem rtake_eq_rtake_filter_iff : xs.rtake n = (xs.filter p).rtake n ↔ ∀ x ∈ xs.rtake n, p x := by
  constructor
  · intro h x hx
    rw [h, List.rtake_eq_reverse_take_reverse, List.mem_reverse] at hx
    exact (List.mem_filter.1 (List.mem_reverse.1 (List.mem_of_mem_take hx))).2
  · intro h
    have hkept : (xs.rtake n).filter p = xs.rtake n := List.filter_eq_self.2 h
    rcases Nat.lt_or_ge xs.length n with hlt | hle
    · have hall : xs.rtake n = xs := by rw [List.rtake, Nat.sub_eq_zero_of_le hlt.le, List.drop_zero]
      rw [hall] at hkept
      rw [hkept]
    · have hsplit : xs.filter p = (xs.rdrop n).filter p ++ xs.rtake n := by
        rw [← hkept, ← List.filter_append, List.rdrop, List.rtake, List.take_append_drop]
      have hlength : (xs.rtake n).length = n := by
        rw [List.rtake, List.length_drop]
        omega
      rw [hsplit]
      conv_rhs => rw [List.rtake, List.length_append, hlength, Nat.add_sub_cancel, List.drop_left]

end Sequence

namespace EventLog

variable {content : Text} {deck type wanted : Option Text} {name : Text} {n : Nat} {v : Value} {vs : List Value}

theorem lastOf_zero {α : Type} (xs : List α) : lastOf xs 0 = xs := if_pos (.inr rfl)

theorem lastOf_eq_rtake {α : Type} (xs : List α) (hn : 0 < n) : lastOf xs n = xs.rtake n := by
  rw [lastOf, List.rtake]
  split
  case isTrue h =>
    have hle : xs.length ≤ n := by omega
    rw [Nat.sub_eq_zero_of_le hle, List.drop_zero]
  case isFalse h =>
    rw [if_neg (by omega), Int.toNat_natCast]

theorem lastOf_eq_rtake_iff {α : Type} {xs : List α} : lastOf xs n = xs.rtake n ↔ (n = 0 → xs = []) := by
  rcases n.eq_zero_or_pos with rfl | hn
  · simp [lastOf_zero, List.rtake]
  · exact iff_of_true (lastOf_eq_rtake xs hn) fun h => absurd h hn.ne'

/-! ### What lines hold -/

/-- The values that the lines of a log hold; the other lines hold none. -/
def held (content : Text) : List Value :=
  (Markup.lines content).filterMap fun line => (Json.read (Text.trim line)).toOption

/-- No line has a numeral that is too long to convert. -/
def Convertible (content : Text) : Prop :=
  ∀ line ∈ Markup.lines content, Json.read (Text.trim line) ≠ .error .tooManyDigits

theorem readLines_eq_ok {lines : List Text}
    (h : ∀ line ∈ lines, Json.read (Text.trim line) ≠ .error .tooManyDigits) :
    readLines lines = .ok (lines.filterMap fun line => (Json.read (Text.trim line)).toOption) := by
  induction lines with
  | nil => rfl
  | cons line lines ih =>
    obtain ⟨hline, hlines⟩ := List.forall_mem_cons.1 h
    rw [readLines, ih hlines, List.filterMap_cons]
    cases hread : Json.read (Text.trim line) with
    | ok v => rfl
    | error f =>
      cases f with
      | malformed => rfl
      | tooManyDigits => exact absurd hread hline

theorem readLines_eq_error {lines : List Text}
    (h : ∃ line ∈ lines, Json.read (Text.trim line) = .error .tooManyDigits) :
    readLines lines = .error .badValue := by
  induction lines with
  | nil => simp at h
  | cons line lines ih =>
    rw [readLines]
    cases hread : Json.read (Text.trim line) with
    | error f =>
      cases f with
      | malformed =>
        refine ih (h.imp fun l hl => ⟨(List.mem_cons.1 hl.1).resolve_left ?_, hl.2⟩)
        rintro rfl
        cases hread.symm.trans hl.2
      | tooManyDigits => rfl
    | ok v =>
      have hrest := ih (h.imp fun l hl => ⟨(List.mem_cons.1 hl.1).resolve_left (by
        rintro rfl
        cases hread.symm.trans hl.2), hl.2⟩)
      simp only [hrest]
      rfl

/-! ### Events that match -/

def isObject : Value → Bool
  | .mapping _ => true
  | _ => false

/-- The text of a field. -/
def textAt? (fields : List (Key × Value)) (name : Text) : Option Text :=
  match Fields.get? fields name with
  | some (.text s) => some s
  | _ => none

/-- Whether events are asked for by a field; an empty text asks for none. -/
def asks (wanted : Option Text) : Bool := wanted.any (· ≠ [])

/-- An object whose field is the text asked for. -/
def isAt (name : Text) (wanted : Option Text) : Value → Bool
  | .mapping fields => wanted.all fun w => w = [] || textAt? fields name = some w
  | _ => false

/-- An object of the deck and of the type asked for. -/
def isEvent (deck type : Option Text) (v : Value) : Bool := isAt "deck_name" deck v && isAt "event_type" type v

/-- The events asked for that the lines of a log hold, in their order. -/
def events (content : Text) (deck type : Option Text) : List Value := (held content).filter (isEvent deck type)

theorem passes_of_not_asks (h : asks wanted = false) : passes name wanted v = .ok true := by
  match wanted with
  | none | some [] => rfl
  | some (c :: w) => simp [asks] at h

theorem passes_of_isObject (h : isObject v) : passes name wanted v = .ok (isAt name wanted v) := by
  cases v with
  | mapping fields =>
    match wanted with
    | none | some [] => rfl
    | some (c :: w) =>
      unfold passes isAt textAt?
      cases hget : Fields.get? fields name with
      | none => simp [hget]
      | some u => cases u <;> simp [hget]
  | _ => cases h

theorem passes_of_asks (h : asks wanted) (hv : isObject v = false) : passes name wanted v = .error .notMapping := by
  match wanted with
  | none | some [] => cases h
  | some (c :: w) =>
    cases v with
    | mapping fields => cases hv
    | _ => rfl

theorem isAt_of_not_asks (h : asks wanted = false) : isAt name wanted v = isObject v := by
  cases v with
  | mapping fields =>
    match wanted with
    | none | some [] => rfl
    | some (c :: w) => simp [asks] at h
  | _ => rfl

theorem filterM_passes_of_isObject (h : ∀ v ∈ vs, isObject v) :
    vs.filterM (passes name wanted) = .ok (vs.filter (isAt name wanted)) := by
  have hall : ∀ v ∈ vs, passes name wanted (id v) = .ok (isAt name wanted v) := fun v hv =>
    passes_of_isObject (h v hv)
  simpa using Sequence.filterM_map_eq_ok hall

theorem filterM_passes_of_not_asks (h : asks wanted = false) : vs.filterM (passes name wanted) = .ok vs := by
  have hall : ∀ v ∈ vs, passes name wanted (id v) = .ok true := fun v _ => passes_of_not_asks h
  simpa using Sequence.filterM_map_eq_ok hall

theorem filterM_passes_of_asks (h : asks wanted) (hv : v ∈ vs) (hobject : isObject v = false) :
    ∃ f, vs.filterM (passes name wanted) = .error f := by
  cases hfilter : vs.filterM (passes name wanted) with
  | error f => exact ⟨f, rfl⟩
  | ok kept =>
    obtain ⟨b, hb⟩ := Sequence.exists_of_filterM_eq_ok hfilter v hv
    cases (passes_of_asks h hobject).symm.trans hb

/-! ### What comes back -/

theorem recent_of_not_convertible (h : ¬ Convertible content) :
    recent content n deck type = .error .badValue := by
  simp only [Convertible, not_forall, not_not] at h
  obtain ⟨line, hline, hread⟩ := h
  rw [recent, readLines_eq_error ⟨line, hline, hread⟩]
  rfl

theorem recent_of_objects (h : Convertible content) (hobjects : ∀ v ∈ held content, isObject v) :
    recent content n deck type = .ok (lastOf (events content deck type) n) := by
  have hkept : ∀ v ∈ (held content).filter (isAt "deck_name" deck), isObject v := fun v hv =>
    hobjects v (List.mem_of_mem_filter hv)
  have hevents : ((held content).filter (isAt "deck_name" deck)).filter (isAt "event_type" type) =
      events content deck type := by
    rw [List.filter_filter]
    simp only [Bool.and_comm]
    rfl
  rw [recent, readLines_eq_ok h, Sequence.bind_ok, ← held, filterM_passes_of_isObject hobjects,
    Sequence.bind_ok, filterM_passes_of_isObject hkept, Sequence.bind_ok, hevents]
  rfl

theorem recent_of_not_asks (h : Convertible content) (hdeck : asks deck = false) (htype : asks type = false) :
    recent content n deck type = .ok (lastOf (held content) n) := by
  rw [recent, readLines_eq_ok h, Sequence.bind_ok, ← held, filterM_passes_of_not_asks hdeck,
    Sequence.bind_ok, filterM_passes_of_not_asks htype]
  rfl

theorem recent_of_asks (h : Convertible content) (hasks : asks deck || asks type) (hv : v ∈ held content)
    (hobject : isObject v = false) : ∃ f, recent content n deck type = .error f := by
  rw [recent, readLines_eq_ok h, Sequence.bind_ok, ← held]
  cases hdeck : asks deck with
  | true =>
    have hfirst : ∃ f, (held content).filterM (passes "deck_name" deck) = .error f :=
      filterM_passes_of_asks hdeck hv hobject
    obtain ⟨f, hf⟩ := hfirst
    exact ⟨f, by rw [hf]; rfl⟩
  | false =>
    have htype : asks type := by simpa [hdeck] using hasks
    have hthen : ∃ f, (held content).filterM (passes "event_type" type) = .error f :=
      filterM_passes_of_asks htype hv hobject
    obtain ⟨f, hf⟩ := hthen
    exact ⟨f, by rw [filterM_passes_of_not_asks hdeck, Sequence.bind_ok, hf]; rfl⟩

theorem events_of_not_asks (hdeck : asks deck = false) (htype : asks type = false) :
    events content deck type = (held content).filter isObject := by
  rw [events]
  congr 1
  funext v
  rw [isEvent, isAt_of_not_asks hdeck, isAt_of_not_asks htype, Bool.and_self]

/-- A log is read if its numerals can be converted and, where events are asked for by a field, all values in
it are objects. The last of the events asked for come back if, besides, they are not asked for by a number
of zero, and no other value is among the last ones of a log that is read as a whole. -/
theorem recent_eq_rtake_iff (content : Text) (n : Nat) (deck type : Option Text) :
    ((∃ vs, recent content n deck type = .ok vs) ↔
      Convertible content ∧ (asks deck || asks type → ∀ v ∈ held content, isObject v)) ∧
    (recent content n deck type = .ok ((events content deck type).rtake n) ↔ Convertible content ∧
      if asks deck || asks type then
        (∀ v ∈ held content, isObject v) ∧ (n = 0 → events content deck type = [])
      else (∀ v ∈ (held content).rtake n, isObject v) ∧ (n = 0 → held content = [])) := by
  by_cases h : Convertible content
  swap
  · simp [recent_of_not_convertible h, h]
  cases hasks : asks deck || asks type with
  | true =>
    rw [if_pos rfl]
    by_cases hobjects : ∀ v ∈ held content, isObject v
    · rw [recent_of_objects h hobjects, Except.ok.injEq, lastOf_eq_rtake_iff]
      exact ⟨iff_of_true ⟨_, rfl⟩ ⟨h, fun _ => hobjects⟩, fun hn => ⟨h, hobjects, hn⟩, fun hall => hall.2.2⟩
    · have hother : ∃ v ∈ held content, isObject v = false := by simpa using hobjects
      obtain ⟨v, hv, hobject⟩ := hother
      obtain ⟨f, hf⟩ := recent_of_asks h hasks hv hobject
      rw [hf]
      exact ⟨iff_of_false nofun fun hall => hobjects (hall.2 rfl),
        iff_of_false nofun fun hall => hobjects hall.2.1⟩
  | false =>
    obtain ⟨hdeck, htype⟩ := Bool.or_eq_false_iff.1 hasks
    rw [recent_of_not_asks h hdeck htype, Except.ok.injEq, events_of_not_asks hdeck htype]
    refine ⟨iff_of_true ⟨_, rfl⟩ ⟨h, nofun⟩, ?_⟩
    rcases n.eq_zero_or_pos with rfl | hn
    · simp [lastOf_zero, h]
    · rw [lastOf_eq_rtake _ hn, Sequence.rtake_eq_rtake_filter_iff]
      simp [h, hn.ne']

/-- A log of an event and of a number. -/
def mixed : Text := "\x7b\"deck_name\": \"d\"\x7d\n5\n"

/-- All of the log comes back where none of it is asked for, the number comes back as the last event, and it is
an error where the events of a deck are asked for. -/
theorem recent_mixed :
    recent mixed 0 none none = .ok [.mapping [("deck_name", .text "d")], .int 5] ∧
    (events mixed none none).rtake 0 = [] ∧
    recent mixed 1 none none = .ok [.int 5] ∧
    (events mixed none none).rtake 1 = [.mapping [("deck_name", .text "d")]] ∧
    recent mixed 1 (some "d") none = .error .notMapping ∧
    (events mixed (some "d") none).rtake 1 = [.mapping [("deck_name", .text "d")]] := by
  refine ⟨?_, List.rtake_zero _, ?_, ?_, ?_, ?_⟩ <;> cbv

end EventLog

end DeckMerge
