import DeckMerge.Proofs.Package.Growth

/-!
Calls on a package one after another. What a package holds after them is told by the parts that were
written, in their order; a call that fails leaves no trace.
-/

namespace DeckMerge

/-- The text of code points, unless halves of pairs are among them. -/
def Text.ofCodePoints? (ns : List Nat) : Option Text :=
  ns.mapM fun n => if n.isValidChar then some (Char.ofNat n) else none

namespace Package

/-- A call on a package. A text to be written is given by code points, as it may hold halves of pairs,
for which there are no octets. -/
inductive Call
  | read (name : Text)
  | readText (name : Text)
  | write (name : Text) (bs : Bytes)
  | writeText (name : Text) (ns : List Nat)

inductive Answer
  | bytes (bs : Bytes)
  | text (s : Text)
  | done

namespace Call

def run (p : Package) : Call → Except Failure Answer × Package
  | .read name => (((p.read name).mapError .report).map .bytes, p)
  | .readText name => (((p.readText name).mapError .report).map .text, p)
  | .write name bs => (.ok .done, p.write name bs)
  | .writeText name ns =>
    match Text.ofCodePoints? ns with
    | some s => (.ok .done, p.writeText name s)
    | none => (.error (.fault .badValue), p)

/-- The part that a call writes, with its content. -/
def written? : Call → Option (Text × Bytes)
  | .read _ | .readText _ => none
  | .write name bs => some (name, bs)
  | .writeText name ns => (Text.ofCodePoints? ns).map fun s => (name, Text.utf8 s)

end Call

/-- The package after calls, whether they fail or not. -/
def after (p : Package) (cs : List Call) : Package := cs.foldl (fun p c => (c.run p).2) p

def writeAll (p : Package) (ws : List (Text × Bytes)) : Package := ws.foldl (fun p w => p.write w.1 w.2) p

variable {p q : Package} {ws : List (Text × Bytes)} {name : Text} {bs : Bytes} {known : List Text}

/-! ### Calls and what they write -/

theorem run_of_written? {c : Call} {w : Text × Bytes} (h : c.written? = some w) :
    (c.run p).2 = p.write w.1 w.2 := by
  cases c with
  | read | readText => cases h
  | write =>
    obtain rfl := Option.some.inj h
    rfl
  | writeText name ns =>
    obtain ⟨s, hs, rfl⟩ := Option.map_eq_some_iff.1 h
    rw [Call.run, hs]
    rfl

theorem run_of_written?_eq_none {c : Call} (h : c.written? = none) : (c.run p).2 = p := by
  cases c with
  | read | readText => rfl
  | write => cases h
  | writeText name ns => rw [Call.run, Option.map_eq_none_iff.1 h]

theorem written?_eq_none_of_run {c : Call} {f : Failure} (h : (c.run p).1 = .error f) :
    c.written? = none := by
  cases c with
  | read | readText => rfl
  | write => cases h
  | writeText name ns =>
    rw [Call.run] at h
    rw [Call.written?]
    split at h
    case h_1 => cases h
    case h_2 hnone => rw [hnone]; rfl

theorem after_eq_writeAll (p : Package) (cs : List Call) :
    p.after cs = p.writeAll (cs.filterMap Call.written?) := by
  induction cs generalizing p with
  | nil => rfl
  | cons c cs ih =>
    rw [after, List.foldl_cons, ← after, ih]
    cases h : c.written? with
    | none => rw [List.filterMap_cons_none h, run_of_written?_eq_none h]
    | some w => rw [List.filterMap_cons_some h, run_of_written? h]; rfl

/-! ### Names that come up for the first time -/

/-- The names that are not known yet, in the order in which they come first. -/
def newcomers (known names : List Text) : List Text := (names.filter (!known.contains ·)).eraseDups

theorem mem_newcomers {names : List Text} :
    name ∈ newcomers known names ↔ name ∈ names ∧ name ∉ known := by
  simp [newcomers]

theorem nodup_newcomers (known names : List Text) : (newcomers known names).Nodup := by
  rw [newcomers]
  generalize names.filter (!known.contains ·) = names
  induction hn : names.length using Nat.strongRecOn generalizing names with
  | ind n ih =>
    cases names with
    | nil => exact .nil
    | cons name names =>
      rw [List.eraseDups_cons, List.nodup_cons]
      have hlt : (names.filter fun other => !other == name).length < n := by
        rw [← hn, List.length_cons]
        exact Nat.lt_succ_of_le (List.length_filter_le _ _)
      exact ⟨by simp, ih _ hlt _ rfl⟩

theorem newcomers_singleton (known : List Text) (name : Text) :
    newcomers known [name] = if name ∈ known then [] else [name] := by
  by_cases h : name ∈ known
  · simp [newcomers, h]
  · simp [newcomers, h, List.eraseDups_cons]

/-- A name that comes up once is known from then on. -/
theorem newcomers_cons (known : List Text) (name : Text) (names : List Text) :
    newcomers known (name :: names) =
      newcomers known [name] ++ newcomers (known ++ newcomers known [name]) names := by
  rw [newcomers_singleton]
  by_cases h : name ∈ known
  · simp [newcomers, h]
  · have hfilter : (names.filter (!known.contains ·)).filter (fun other => !other == name) =
        names.filter (!(known ++ [name]).contains ·) := by
      rw [List.filter_filter]
      congr 1
      funext other
      by_cases hname : other = name <;> simp [hname]
    rw [newcomers, List.filter_cons_of_pos (by simpa using h), List.eraseDups_cons, hfilter, if_neg h]
    rfl

/-! ### What is written -/

theorem names_write (p : Package) (name : Text) (bs : Bytes) :
    (p.write name bs).names = p.names ++ newcomers p.names [name] := by
  rw [newcomers_singleton, ← (Grown.of_write p name bs).names_eq]

theorem modified_write (p : Package) (name : Text) (bs : Bytes) :
    (p.write name bs).modified = p.modified ++ newcomers p.modified [name] := by
  rw [newcomers_singleton, write]
  by_cases h : name ∈ p.modified <;> simp [h]

/-- The content that was written last under a name. -/
def lastWritten? (ws : List (Text × Bytes)) (name : Text) : Option Bytes := ws.reverse.lookup name

/-- What a package is after parts have been written to it. -/
structure Rewritten (p : Package) (ws : List (Text × Bytes)) (q : Package) : Prop where
  source_eq : q.source = p.source
  names_eq : q.names = p.names ++ newcomers p.names (ws.map (·.1))
  modified_eq : q.modified = p.modified ++ newcomers p.modified (ws.map (·.1))
  content_eq : ∀ name, q.content? name = (lastWritten? ws name).or (p.content? name)
  headers_eq : q.headers = p.headers ++ (newcomers p.names (ws.map (·.1))).map p.newHeader

theorem Rewritten.refl (p : Package) : Rewritten p [] p := by
  constructor <;> simp [newcomers, lastWritten?]

theorem Rewritten.cons {w : Text × Bytes} (h : Rewritten (p.write w.1 w.2) ws q) :
    Rewritten p (w :: ws) q where
  source_eq := h.source_eq
  names_eq := by
    rw [h.names_eq, names_write, List.map_cons, newcomers_cons _ _ (ws.map _), List.append_assoc]
  modified_eq := by
    rw [h.modified_eq, modified_write, List.map_cons, newcomers_cons _ _ (ws.map _), List.append_assoc]
  content_eq := by
    intro name
    obtain ⟨written, bs⟩ := w
    rw [h.content_eq, content?_write, lastWritten?, lastWritten?, List.reverse_cons, List.lookup_append,
      Option.or_assoc]
    congr 1
    by_cases hname : written = name
    · simp [hname]
    · have hne : (name == written) = false := by simpa using Ne.symm hname
      simp [hname, List.lookup_cons, hne]
  headers_eq := by
    have hgrown := Grown.of_write p w.1 w.2
    have hheader : (p.write w.1 w.2).newHeader = p.newHeader := by
      funext name
      rw [newHeader, newHeader, hgrown.moment_eq]
    rw [h.headers_eq, hgrown.headers_eq, ← newcomers_singleton, names_write, hheader, List.map_cons,
      newcomers_cons _ _ (ws.map _), List.map_append, List.append_assoc]

theorem rewritten_writeAll (p : Package) (ws : List (Text × Bytes)) : Rewritten p ws (p.writeAll ws) := by
  induction ws generalizing p with
  | nil => exact .refl p
  | cons w ws ih => exact .cons (ih (p.write w.1 w.2))

theorem Rewritten.nodup_modified (h : Rewritten p ws q) (hp : p.modified.Nodup) : q.modified.Nodup := by
  rw [h.modified_eq, List.nodup_append]
  refine ⟨hp, nodup_newcomers _ _, ?_⟩
  rintro name hname _ hnew rfl
  exact (mem_newcomers.1 hnew).2 hname

theorem Rewritten.read_eq (h : Rewritten p ws q) (name : Text) : q.read name =
    match (lastWritten? ws name).or (p.content? name) with
    | some bs => .ok bs
    | none => .error ((Report.plain .templateLoad ("Missing part in " ++ p.source)).inPart name) := by
  cases hread : (lastWritten? ws name).or (p.content? name) <;>
    simp only [read, h.content_eq, hread, h.source_eq]

/-- Calls leave the parts of a package in their order and put new ones behind them as they come first,
with the moment of the first entry; a part reads as it was written last; the written names are listed
once, as they come first. A call that fails changes nothing. -/
theorem stored_after_calls (p : Package) (cs : List Call) :
    let q := p.after cs
    let ws := cs.filterMap Call.written?
    q.names = p.names ++ newcomers p.names (ws.map (·.1)) ∧
      (∀ name, ((Call.read name).run q).1 =
        match (lastWritten? ws name).or (p.content? name) with
        | some bs => .ok (.bytes bs)
        | none => .error (.report
            ((Report.plain .templateLoad ("Missing part in " ++ p.source)).inPart name))) ∧
      q.modified = p.modified ++ newcomers p.modified (ws.map (·.1)) ∧
      (p.modified.Nodup → q.modified.Nodup) ∧
      q.headers = p.headers ++ (newcomers p.names (ws.map (·.1))).map (fun name =>
        ⟨name, match p.entries with
          | [] => .of 1980 1 1 0 0 0
          | e :: _ => e.moment, .deflated, 0, 3, []⟩) ∧
      ∀ c f, (Call.run q c).1 = .error f → (Call.run q c).2 = q := by
  intro q ws
  have hrewritten : Rewritten p ws q := by
    rw [show q = p.writeAll ws from after_eq_writeAll p cs]
    exact rewritten_writeAll p ws
  have hheader : p.newHeader = fun name => ⟨name, match p.entries with
      | [] => .of 1980 1 1 0 0 0
      | e :: _ => e.moment, .deflated, 0, 3, []⟩ := by
    funext name
    rw [newHeader, moment]
    cases p.entries <;> rfl
  refine ⟨hrewritten.names_eq, ?_, hrewritten.modified_eq, hrewritten.nodup_modified,
    hheader ▸ hrewritten.headers_eq, fun c f h => run_of_written?_eq_none (written?_eq_none_of_run h)⟩
  intro name
  rw [Call.run, hrewritten.read_eq]
  cases (lastWritten? ws name).or (p.content? name) <;> rfl

def oneEntry : Package :=
  ⟨memory, [⟨"a", .of 2024 5 6 7 8 10, .stored, 0, 3, [0x41]⟩], [], by decide⟩

/-- Of these calls the second and the fourth fail. -/
def mixedCalls : List Call :=
  [.write "b" [0x42], .readText "c", .write "a" [0x43], .writeText "c" [0xd800], .write "b" [0x44]]

theorem stored_after_calls_mixed :
    (oneEntry.after mixedCalls).names = ["a".toList, "b".toList] ∧
      (oneEntry.after mixedCalls).modified = ["b".toList, "a".toList] ∧
      (oneEntry.after mixedCalls).modified.Nodup ∧
      ((Call.read "b").run (oneEntry.after mixedCalls)).1 = .ok (.bytes [0x44]) ∧
      ((Call.writeText "c" [0xd800]).run (oneEntry.after mixedCalls)).1 = .error (.fault .badValue) ∧
      ((Call.writeText "c" [0xd800]).run (oneEntry.after mixedCalls)).2 = oneEntry.after mixedCalls := by
  obtain ⟨hnames, hread, hmodified, hnodup, -, hfailed⟩ := stored_after_calls oneEntry mixedCalls
  have hrefused : ((Call.writeText "c" [0xd800]).run (oneEntry.after mixedCalls)).1 =
    .error (.fault .badValue) := rfl
  exact ⟨hnames.trans (by decide), hmodified.trans (by decide), hnodup List.nodup_nil, (hread "b").trans rfl,
    hrefused, hfailed _ _ hrefused⟩

end Package

end DeckMerge
