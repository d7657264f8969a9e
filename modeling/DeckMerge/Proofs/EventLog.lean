import DeckMerge.EventLog
import DeckMerge.Proofs.Json.RoundTrip
import DeckMerge.Proofs.Markup.Line
import DeckMerge.Proofs.Association
import Mathlib.Data.List.Nodup

/-!
The log of events reads back what was logged: an event is one line, and the events that match what is
asked for come back in their order.
-/

namespace DeckMerge

/-! ### Fields -/

namespace Fields

variable {fields : List (Key × Value)} {k k' : Key} {v : Value}

theorem lookup_put (fields : List (Key × Value)) (k k' : Key) (v : Value) :
    (put fields k v).lookup k' = if k' = k then some v else fields.lookup k' := by
  induction fields with
  | nil => rw [put, Association.lookup_cons_eq_ite]
  | cons f fields ih =>
    obtain ⟨x, w⟩ := f
    rw [put]
    split
    case isTrue hx =>
      subst hx
      simp only [Association.lookup_cons_eq_ite]
      split <;> rfl
    case isFalse hx =>
      simp only [Association.lookup_cons_eq_ite, ih]
      by_cases hk : k' = k
      · subst hk
        simp [Ne.symm hx]
      · simp [hk]

theorem mem_put {f : Key × Value} (h : f ∈ put fields k v) : f ∈ fields ∨ f = (k, v) := by
  induction fields with
  | nil => exact .inr (List.mem_singleton.1 h)
  | cons g fields ih =>
    obtain ⟨x, w⟩ := g
    rw [put] at h
    split at h
    case isTrue hx =>
      rcases List.mem_cons.1 h with rfl | h
      · exact .inr (by rw [hx])
      · exact .inl (List.mem_cons_of_mem _ h)
    case isFalse hx =>
      rcases List.mem_cons.1 h with rfl | h
      · exact .inl List.mem_cons_self
      · exact (ih h).imp_left (List.mem_cons_of_mem _)

theorem nodup_put (h : (fields.map (·.1)).Nodup) : ((put fields k v).map (·.1)).Nodup := by
  induction fields with
  | nil => simp [put]
  | cons g fields ih =>
    obtain ⟨x, w⟩ := g
    rw [put]
    split
    case isTrue hx => exact h
    case isFalse hx =>
      obtain ⟨hfresh, hrest⟩ := List.nodup_cons.1 h
      refine List.nodup_cons.2 ⟨fun hmem => ?_, ih hrest⟩
      obtain ⟨f, hf, heq⟩ := List.mem_map.1 hmem
      rcases mem_put hf with hf | rfl
      · exact hfresh (List.mem_map.2 ⟨f, hf, heq⟩)
      · exact hx heq.symm

end Fields

namespace Event

variable {e : Event}

/-- An event as a call makes it: the further fields have distinct names that are texts, none of them the
name of an argument, and values that can be written. -/
structure Recordable (e : Event) : Prop where
  named : ∀ f ∈ e.extra, ∃ s, f.1 = .text s
  distinct : (e.extra.map (·.1)).Nodup
  free : ∀ f ∈ e.extra, f.1 ≠ "event_type" ∧ f.1 ≠ "deck_name" ∧ f.1 ≠ "source"
  portable : ∀ f ∈ e.extra, Json.Portable f.2

/-- The fields that every event has. -/
def base (e : Event) : List (Key × Value) :=
  [("timestamp", .text e.time), ("event_type", .text e.type), ("deck_name", .text e.deck),
    ("source", .text e.source)]

theorem fields_eq (e : Event) : e.fields = e.extra.foldl (fun fs f => Fields.put fs f.1 f.2) e.base := rfl

theorem lookup_foldl_put (extra fields : List (Key × Value)) (hdistinct : (extra.map (·.1)).Nodup) (k : Key) :
    (extra.foldl (fun fs f => Fields.put fs f.1 f.2) fields).lookup k = (extra.lookup k).or (fields.lookup k) := by
  induction extra generalizing fields with
  | nil => rfl
  | cons f extra ih =>
    obtain ⟨x, v⟩ := f
    obtain ⟨hfresh, hdistinct⟩ := List.nodup_cons.1 hdistinct
    rw [List.foldl_cons, ih _ hdistinct, Fields.lookup_put, Association.lookup_cons_eq_ite]
    by_cases hk : k = x
    · subst hk
      simp [Association.lookup_eq_none_of_notMem hfresh]
    · simp [hk]

theorem mem_foldl_put {extra fields : List (Key × Value)} {f : Key × Value}
    (h : f ∈ extra.foldl (fun fs f => Fields.put fs f.1 f.2) fields) : f ∈ fields ∨ f ∈ extra := by
  induction extra generalizing fields with
  | nil => exact .inl h
  | cons g extra ih =>
    rcases ih h with h | h
    · rcases Fields.mem_put h with h | rfl
      · exact .inl h
      · exact .inr List.mem_cons_self
    · exact .inr (List.mem_cons_of_mem _ h)

theorem nodup_foldl_put {extra fields : List (Key × Value)} (h : (fields.map (·.1)).Nodup) :
    ((extra.foldl (fun fs f => Fields.put fs f.1 f.2) fields).map (·.1)).Nodup := by
  induction extra generalizing fields with
  | nil => exact h
  | cons g extra ih => exact ih (Fields.nodup_put h)

theorem Recordable.portable_fields (h : e.Recordable) : Json.Portable (.mapping e.fields) := by
  have hbase : ∀ f ∈ e.base, (∃ s, f.1 = .text s) ∧ Json.Portable f.2 := by
    intro f hf
    simp only [base, List.mem_cons, List.not_mem_nil, or_false] at hf
    rcases hf with rfl | rfl | rfl | rfl <;> exact ⟨⟨_, rfl⟩, .text _⟩
  have hfields : ∀ f ∈ e.fields, (∃ s, f.1 = .text s) ∧ Json.Portable f.2 := by
    intro f hf
    rw [fields_eq] at hf
    rcases mem_foldl_put hf with hf | hf
    · exact hbase f hf
    · exact ⟨h.named f hf, h.portable f hf⟩
  have hnodup : (e.base.map (·.1)).Nodup := by
    simp only [base, List.map_cons, List.map_nil]
    decide
  exact .mapping (nodup_foldl_put hnodup) (fun f hf => (hfields f hf).1) fun f hf => (hfields f hf).2

theorem Recordable.lookup_fields (h : e.Recordable) (k : Key) :
    e.fields.lookup k = (e.extra.lookup k).or (e.base.lookup k) := by
  rw [fields_eq, lookup_foldl_put _ _ h.distinct]

theorem Recordable.lookup_of_free (h : e.Recordable) {k : Key}
    (hk : k = "event_type" ∨ k = "deck_name" ∨ k = "source") : e.fields.lookup k = e.base.lookup k := by
  have hfresh : k ∉ e.extra.map (·.1) := by
    intro hmem
    obtain ⟨f, hf, rfl⟩ := List.mem_map.1 hmem
    obtain ⟨htype, hdeck, hsource⟩ := h.free f hf
    exact hk.elim htype (Or.elim · hdeck hsource)
  rw [h.lookup_fields, Association.lookup_eq_none_of_notMem hfresh, Option.none_or]

theorem Recordable.lookup_extra (h : e.Recordable) {f : Key × Value} (hf : f ∈ e.extra) :
    e.fields.lookup f.1 = some f.2 := by
  rw [h.lookup_fields, Association.lookup_eq_some_of_nodup h.distinct hf, Option.some_or]

/-! ### Lines -/

theorem line_eq (e : Event) : e.line = '\x7b' :: (Json.writeFields e.fields ++ ['\x7d']) :=
  Json.write_mapping _

theorem trim_line (e : Event) : Text.trim e.line = e.line := by
  refine Text.trim_of_ends ?_ ?_
  · rw [line_eq, List.head?_cons]
    decide
  · rw [line_eq, ← List.cons_append, List.getLast?_concat]
    decide

theorem Recordable.not_hasBreak (h : e.Recordable) : ∀ c ∈ e.line, c ≠ '\n' ∧ c ≠ '\r' := by
  intro c hc
  have hvisible := List.all_eq_true.1 h.portable_fields.all_isVisible c hc
  constructor <;> (rintro rfl; exact absurd hvisible (by decide))

theorem Recordable.read_line (h : e.Recordable) : Json.read (Text.trim e.line) = .ok (.mapping e.fields) := by
  rw [trim_line, line, Json.read_write h.portable_fields]

/-- Whether a text is the one asked for; none or an empty one asks for nothing. -/
def isAsked (wanted : Option Text) (t : Text) : Bool := wanted.all fun w => w = [] || t = w

/-- Whether an event is of this deck and of this type, where these are asked for. -/
def isOf (deck type : Option Text) (e : Event) : Bool := isAsked deck e.deck && isAsked type e.type

end Event

namespace EventLog

variable {es : List Event}

/-- The log after events in this order. -/
def content (es : List Event) : Text := es.foldl append []

theorem content_eq (es : List Event) : content es = es.flatMap fun e => e.line ++ ['\n'] := by
  have hfold : ∀ s, es.foldl append s = s ++ es.flatMap fun e => e.line ++ ['\n'] := by
    induction es with
    | nil => simp
    | cons e es ih => simp [append, ih]
  rw [content, hfold, List.nil_append]

theorem content_cons (e : Event) (es : List Event) : content (e :: es) = e.line ++ '\n' :: content es := by
  simp [content_eq]

/-- The lines of the log are those of its events, and nothing stands after the last line end. -/
theorem lines_content (h : ∀ e ∈ es, e.Recordable) : Markup.lines (content es) = es.map Event.line ++ [[]] := by
  have hreturn : '\r' ∉ content es := by
    intro hmem
    rw [content_eq, List.mem_flatMap] at hmem
    obtain ⟨e, he, hmem⟩ := hmem
    rcases List.mem_append.1 hmem with hmem | hmem
    · exact ((h e he).not_hasBreak _ hmem).2 rfl
    · exact absurd hmem (by decide)
  rw [Markup.lines, Markup.normalizeBreaks_of_notMem hreturn]
  clear hreturn
  induction es with
  | nil => rfl
  | cons e es ih =>
    obtain ⟨he, hes⟩ := List.forall_mem_cons.1 h
    have hmem : '\n' ∉ e.line := fun hmem => (he.not_hasBreak _ hmem).1 rfl
    rw [content_cons, Text.splitAt_append hmem, ih hes]
    rfl

theorem readLines_lines (h : ∀ e ∈ es, e.Recordable) :
    readLines (es.map Event.line ++ [[]]) = .ok (es.map fun e => .mapping e.fields) := by
  induction es with
  | nil => rfl
  | cons e es ih =>
    obtain ⟨he, hes⟩ := List.forall_mem_cons.1 h
    rw [List.map_cons, List.cons_append, readLines, he.read_line]
    simp only [ih hes, Sequence.bind_ok]
    rfl

theorem passes_mapping {name : Text} {fields : List (Key × Value)} {t : Text}
    (h : Fields.get? fields name = some (.text t)) (wanted : Option Text) :
    passes name wanted (.mapping fields) = .ok (Event.isAsked wanted t) := by
  match wanted with
  | none => rfl
  | some [] => rfl
  | some (c :: w) => simp [passes, Event.isAsked, h]

theorem lastOf_of_length_le {α : Type} {xs : List α} {n : Int} (h : xs.length ≤ n) : lastOf xs n = xs :=
  if_pos (.inl h)

/-- The log holds a line for each event, and of it come back the events asked for, in their order and with
all their fields. -/
theorem recent_content (es : List Event) (n : Int) (deck type : Option Text)
    (hes : ∀ e ∈ es, e.Recordable) (hn : es.length ≤ n) :
    Markup.lines (content es) = es.map Event.line ++ [[]] ∧
      recent (content es) n deck type =
        .ok ((es.filter (Event.isOf deck type)).map fun e => .mapping e.fields) ∧
      ∀ e ∈ es, Fields.get? e.fields "event_type" = some (.text e.type) ∧
        Fields.get? e.fields "deck_name" = some (.text e.deck) ∧
        Fields.get? e.fields "source" = some (.text e.source) ∧
        ∀ f ∈ e.extra, e.fields.lookup f.1 = some f.2 := by
  have htype : ∀ e ∈ es, Fields.get? e.fields "event_type" = some (.text e.type) := fun e he =>
    (hes e he).lookup_of_free (.inl rfl)
  have hdeck : ∀ e ∈ es, Fields.get? e.fields "deck_name" = some (.text e.deck) := fun e he =>
    (hes e he).lookup_of_free (.inr (.inl rfl))
  have hsource : ∀ e ∈ es, Fields.get? e.fields "source" = some (.text e.source) := fun e he =>
    (hes e he).lookup_of_free (.inr (.inr rfl))
  refine ⟨lines_content hes, ?_, fun e he =>
    ⟨htype e he, hdeck e he, hsource e he, fun f hf => (hes e he).lookup_extra hf⟩⟩
  have hfirst := Sequence.filterM_map_eq_ok (m := fun e : Event => Value.mapping e.fields)
    fun e he => passes_mapping (hdeck e he) deck
  have hthen := Sequence.filterM_map_eq_ok (m := fun e : Event => Value.mapping e.fields)
    fun e (he : e ∈ es.filter fun e => Event.isAsked deck e.deck) =>
      passes_mapping (htype e (List.mem_of_mem_filter he)) type
  have hlength : ∀ p, (((es.filter p).map fun e => Value.mapping e.fields).length : Int) ≤ n := by
    intro p
    have hle := List.length_filter_le p es
    rw [List.length_map]
    omega
  rw [recent, lines_content hes, readLines_lines hes, Sequence.bind_ok, hfirst, Sequence.bind_ok, hthen,
    Sequence.bind_ok, List.filter_filter, lastOf_of_length_le (hlength _)]
  simp only [Bool.and_comm]
  rfl

/-- Two events of one deck, whose name has a line break; one of them with further fields. -/
theorem recent_content_two :
    let first : Event := ⟨"now", "done", "a\nb", "cli",
      [("pages", .int 2), ("why", .list [.mapping [("x", .null)]])]⟩
    let second : Event := ⟨"now", "failed", "a\nb", "cli", []⟩
    recent (content [first, second]) 2 (some "a\nb") (some "failed") = .ok [.mapping second.fields] := by
  intro first second
  have hfirst : first.Recordable := by
    have hnested : Json.Portable (.list [.mapping [("x", .null)]]) := by
      refine .list (List.forall_mem_singleton.2 (.mapping (by decide) ?_ ?_))
      · exact List.forall_mem_singleton.2 ⟨"x", rfl⟩
      · exact List.forall_mem_singleton.2 .null
    refine ⟨?_, by simp only [first, List.map_cons, List.map_nil]; decide, ?_, ?_⟩
    · simp only [first, List.forall_mem_cons]
      exact ⟨⟨"pages", rfl⟩, ⟨"why", rfl⟩, nofun⟩
    · simp only [first, List.forall_mem_cons]
      exact ⟨by decide, by decide, nofun⟩
    · simp only [first, List.forall_mem_cons]
      exact ⟨.int (by decide), hnested, nofun⟩
  have hsecond : second.Recordable := ⟨nofun, List.nodup_nil, nofun, nofun⟩
  have hrecordable : ∀ e ∈ [first, second], e.Recordable := by
    simp only [List.forall_mem_cons]
    exact ⟨hfirst, hsecond, nofun⟩
  have hasked : [first, second].filter (Event.isOf (some "a\nb") (some "failed")) = [second] := by
    simp only [List.filter_cons, List.filter_nil]
    rfl
  rw [(recent_content [first, second] 2 (some "a\nb") (some "failed") hrecordable (by decide)).2.1, hasked]
  rfl

end EventLog

end DeckMerge
