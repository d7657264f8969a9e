import DeckMerge.Proofs.Json.Quoting
import DeckMerge.Proofs.Text.Numeral
import DeckMerge.Proofs.Text.Search
import DeckMerge.Proofs.Sequence

/-!
Values read back from their text. A value ends where a comma or a bracket stands, or the text ends, so
what is written in a list or in a mapping is read piece by piece.
-/

namespace DeckMerge

namespace Text

/-- A numeral of more than one digit does not start with zero. -/
theorem head?_ofNat {n : Nat} (hn : n ≠ 0) : (ofNat n).head? ≠ some '0' := by
  induction n using Nat.strongRecOn with
  | ind n ih =>
    rw [ofNat, Nat.toDigits_eq_if (by decide)]
    split
    case isTrue hlt =>
      have hdigit : ∀ d < 10, d ≠ 0 → [d.digitChar].head? ≠ some '0' := by decide
      exact hdigit n hlt hn
    case isFalse hle =>
      have hhead := ih (n / 10) (by omega) (by omega)
      rw [List.head?_append_of_ne_nil _ Nat.toDigits_ne_nil]
      exact hhead

end Text

namespace Json

variable {n : Nat} {rest s : Text} {v : Value} {k : Key} {done fields : List (Key × Value)} {fuel : Nat}

/-! ### What may follow a value -/

/-- A text before which a value ends: it is empty, or starts with a comma or a closing bracket. -/
def Stops (rest : Text) : Prop := rest.head?.all fun c => c == ',' || c == ']' || c == '\x7d'

theorem Stops.head?_any (h : Stops rest) {p : Char → Bool} (hp : p ',' = false ∧ p ']' = false ∧ p '\x7d' = false) :
    rest.head?.any p = false := by
  cases rest with
  | nil => rfl
  | cons c rest =>
    simp only [Stops, List.head?_cons, Option.all_some, Bool.or_eq_true, beq_iff_eq] at h
    rcases h with (rfl | rfl) | rfl <;> simp [hp]

theorem skipBlanks_of_head? (h : s.head?.any (fun c => c = ' ' || c = '\t' || c = '\n' || c = '\r') = false) :
    skipBlanks s = s := by
  cases s with
  | nil => rfl
  | cons c s => exact List.dropWhile_cons_of_neg (by simpa using h)

theorem Stops.skipBlanks_eq (h : Stops rest) : skipBlanks rest = rest :=
  skipBlanks_of_head? (h.head?_any (by decide))

theorem Stops.readFraction_eq (h : Stops rest) : readFraction rest = none := by
  have hdot := h.head?_any (p := (· = '.')) (by decide)
  cases rest with
  | nil => rfl
  | cons c rest => rw [readFraction.eq_def]; split <;> simp_all

theorem Stops.readExponent_eq (h : Stops rest) : readExponent rest = none := by
  have hmark := h.head?_any (p := fun c => c = 'e' ∨ c = 'E') (by decide)
  cases rest with
  | nil => rfl
  | cons c rest => exact if_neg (by simpa using hmark)

/-! ### Integers -/

theorem digits_ofNat (n : Nat) (h : Stops rest) : digits (Text.ofNat n ++ rest) = (Text.ofNat n, rest) :=
  Text.span_eq_iff.2 ⟨rfl, by simpa using fun c hc => Text.isDigit_of_mem_ofNat hc, h.head?_any (by decide)⟩

theorem digitsValue_ofNat (n : Nat) : digitsValue (Text.ofNat n) = n := by
  have hfold : ∀ (s : Text) (m : Nat), s.foldl (fun n c => 10 * n + (c.toNat - 48)) m = Nat.ofDigitChars 10 s m := by
    intro s
    induction s with
    | nil => simp
    | cons c s ih =>
      intro m
      rw [List.foldl_cons, ih, Nat.ofDigitChars_cons]
      rfl
  rw [digitsValue, hfold]
  exact Nat.ofDigitChars_ten_toDigits

theorem readMagnitude_ofNat (negative : Bool) (hn : (Text.ofNat n).length ≤ 4300) (h : Stops rest) :
    readMagnitude negative (Text.ofNat n ++ rest) =
      .ok (.int (if negative then -(n : Int) else n), rest) := by
  have hzero : (if (Text.ofNat n).head? = some '0' then (['0'], (Text.ofNat n ++ rest).drop 1)
      else (Text.ofNat n, rest)) = (Text.ofNat n, rest) := by
    by_cases hn : n = 0
    · subst hn; rfl
    · rw [if_neg (Text.head?_ofNat hn)]
  have hne := Text.ofNat_ne_nil n
  have hvalue := digitsValue_ofNat n
  rw [readMagnitude, digits_ofNat n h]
  generalize Text.ofNat n = ds at *
  cases ds with
  | nil => exact absurd rfl hne
  | cons d ds =>
    simp only [hzero, h.readFraction_eq, h.readExponent_eq, Option.getD_none, if_true]
    rw [if_neg (Nat.not_lt.2 hn), hvalue]

theorem exists_ofNat_eq_cons (n : Nat) : ∃ d t, Text.ofNat n = d :: t ∧ d.isDigit := by
  obtain ⟨d, t, h⟩ := List.exists_cons_of_ne_nil (Text.ofNat_ne_nil n)
  exact ⟨d, t, h, Text.isDigit_of_mem_ofNat (h ▸ List.mem_cons_self)⟩

/-- No word starts with a digit, and the one that starts with a sign goes on with none. -/
theorem findSome?_words {d : Char} (hd : d.isDigit) (t : Text) :
    (words.findSome? fun (w, v) => (w.isPrefixOf? (d :: t)).map (v, ·)) = none ∧
      (words.findSome? fun (w, v) => (w.isPrefixOf? ('-' :: d :: t)).map (v, ·)) = none := by
  have hne : ∀ {x : Char}, x.isDigit = false → (x == d) = false := by
    rintro x hx
    simp only [beq_eq_false_iff_ne]
    rintro rfl
    simp [hx] at hd
  constructor <;> simp [words, List.isPrefixOf?, hne]

theorem readAtom_ofInt {z : Int} (hz : (Text.ofNat z.natAbs).length ≤ 4300) (h : Stops rest) :
    readAtom (Text.ofInt z ++ rest) = .ok (.int z, rest) := by
  cases z with
  | ofNat n =>
    obtain ⟨d, t, hn, hd⟩ := exists_ofNat_eq_cons n
    have hsign : d ≠ '-' := by rintro rfl; cases hd
    have hread := readMagnitude_ofNat (n := n) false hz h
    rw [hn] at hread
    rw [Text.ofInt, hn, List.cons_append, readAtom, (findSome?_words hd _).1]
    · exact hread
    · exact fun t ht => hsign (List.cons.inj ht).1
  | negSucc n =>
    obtain ⟨d, t, hn, hd⟩ := exists_ofNat_eq_cons (n + 1)
    have hread := readMagnitude_ofNat (n := n + 1) true hz h
    rw [hn] at hread
    rw [Text.ofInt, List.cons_append, readAtom, hn, List.cons_append, (findSome?_words hd _).2]
    exact hread

/-! ### How values are written -/

theorem write_null : write .null = "null".toList := rfl

theorem write_bool (b : Bool) : write (.bool b) = writeBool b := rfl

theorem write_int (z : Int) : write (.int z) = Text.ofInt z := rfl

theorem write_text (s : Text) : write (.text s) = writeText s := rfl

theorem write_list (items : List Value) : write (.list items) = '[' :: (writeItems items ++ [']']) := rfl

theorem write_mapping (fields : List (Key × Value)) :
    write (.mapping fields) = '\x7b' :: (writeFields fields ++ ['\x7d']) := rfl

theorem writeItems_singleton (v : Value) : writeItems [v] = write v := rfl

theorem writeItems_cons_cons (v w : Value) (vs : List Value) :
    writeItems (v :: w :: vs) = write v ++ ',' :: ' ' :: writeItems (w :: vs) :=
  List.append_assoc (write v) [',', ' '] (writeItems (w :: vs))

theorem writeFields_singleton (s : Text) (v : Value) :
    writeFields [(.text s, v)] = writeText s ++ ':' :: ' ' :: write v :=
  List.append_assoc (writeText s) [':', ' '] (write v)

theorem writeFields_cons_cons (s : Text) (v : Value) (f : Key × Value) (fs : List (Key × Value)) :
    writeFields ((.text s, v) :: f :: fs) =
      writeText s ++ ':' :: ' ' :: (write v ++ ',' :: ' ' :: writeFields (f :: fs)) := by
  change writeText s ++ [':', ' '] ++ write v ++ [',', ' '] ++ writeFields (f :: fs) = _
  simp only [List.append_assoc, List.cons_append, List.nil_append]

/-! ### Values -/

/-- Values that read back as they are written: integers have no more digits than are converted, and the
fields of a mapping have distinct names that are texts. -/
inductive Portable : Value → Prop
  | null : Portable .null
  | bool (b : Bool) : Portable (.bool b)
  | int {z : Int} : (Text.ofNat z.natAbs).length ≤ 4300 → Portable (.int z)
  | text (s : Text) : Portable (.text s)
  | list {items : List Value} : (∀ v ∈ items, Portable v) → Portable (.list items)
  | mapping {fields : List (Key × Value)} : (fields.map (·.1)).Nodup →
    (∀ f ∈ fields, ∃ s, f.1 = .text s) → (∀ f ∈ fields, Portable f.2) → Portable (.mapping fields)

/-- With fuel for its text, the reader takes this value from before any text that it stops at. -/
def Reads (v : Value) : Prop := ∀ fuel rest, (write v).length ≤ fuel → Stops rest →
  readValue fuel (write v ++ rest) = .ok (v, rest)

/-- The first character of a value. -/
def isFront (c : Char) : Bool :=
  isVisible c && c ≠ ' ' && c ≠ ']' && c ≠ ','

theorem isFront_of_isDigit {d : Char} (hd : d.isDigit) : isFront d := by
  have hbounds : 48 ≤ d.toNat ∧ d.toNat ≤ 57 := Char.isDigit_iff_toNat.1 hd
  have hne : ∀ {x : Char}, x.isDigit = false → d ≠ x := by
    rintro x hx rfl
    simp [hx] at hd
  simp [isFront, isVisible, hne]
  omega

theorem Portable.front (h : Portable v) : ∃ c t, write v = c :: t ∧ isFront c := by
  cases h with
  | null => exact ⟨'n', _, rfl, by decide⟩
  | bool b => cases b <;> exact ⟨_, _, rfl, by decide⟩
  | @int z h =>
    cases z with
    | ofNat n =>
      obtain ⟨d, t, hn, hd⟩ := exists_ofNat_eq_cons n
      exact ⟨d, t, by rw [write_int, Text.ofInt, hn], isFront_of_isDigit hd⟩
    | negSucc n => exact ⟨'-', _, rfl, by decide⟩
  | text s => exact ⟨'"', _, rfl, by decide⟩
  | list => exact ⟨'[', _, rfl, by decide⟩
  | mapping => exact ⟨'\x7b', _, rfl, by decide⟩

theorem reads_text (s : Text) : Reads (.text s) := by
  intro fuel rest hfuel hrest
  cases fuel with
  | zero => simp [write_text, writeText] at hfuel
  | succ fuel => rw [write_text, writeText_eq, readValue, readText_write]

theorem reads_null : Reads .null := by
  intro fuel rest hfuel hrest
  cases fuel with
  | zero => simp [write_null] at hfuel
  | succ fuel => rfl

theorem reads_bool (b : Bool) : Reads (.bool b) := by
  intro fuel rest hfuel hrest
  cases fuel with
  | zero => cases b <;> simp [write_bool, writeBool] at hfuel
  | succ fuel => cases b <;> rfl

theorem readValue_of_atom {c : Char} (hc : c ≠ '"' ∧ c ≠ '[' ∧ c ≠ '\x7b') (fuel : Nat) (t : Text) :
    readValue (fuel + 1) (c :: t) = readAtom (c :: t) := by
  rw [readValue]
  all_goals
    rintro _ h
    obtain ⟨rfl, -⟩ := List.cons.inj h
    simp at hc

theorem reads_int {z : Int} (hz : (Text.ofNat z.natAbs).length ≤ 4300) : Reads (.int z) := by
  intro fuel rest hfuel hrest
  have hatom : ∃ c t, Text.ofInt z = c :: t ∧ c ≠ '"' ∧ c ≠ '[' ∧ c ≠ '\x7b' := by
    cases z with
    | ofNat n =>
      obtain ⟨d, t, hn, hd⟩ := exists_ofNat_eq_cons n
      exact ⟨d, t, hn, by constructorm* _ ∧ _ <;> (rintro rfl; cases hd)⟩
    | negSucc n => exact ⟨'-', _, rfl, by decide, by decide, by decide⟩
  obtain ⟨c, t, hint, hc⟩ := hatom
  have hread := readAtom_ofInt hz hrest
  rw [write_int] at hfuel ⊢
  rw [hint] at hfuel hread ⊢
  cases fuel with
  | zero => simp at hfuel
  | succ fuel =>
    rw [List.cons_append, readValue_of_atom hc]
    exact hread

/-! ### Lists and mappings -/

theorem skipBlanks_of_isFront {c : Char} (hc : isFront c) (t : Text) : skipBlanks (c :: t) = c :: t := by
  apply skipBlanks_of_head?
  have hne : ∀ x, isFront x = false → c ≠ x := by
    rintro x hx rfl
    simp [hx] at hc
  simp [hne ' ' (by decide), hne '\t' (by decide), hne '\n' (by decide), hne '\r' (by decide)]

theorem skipBlanks_blank (t : Text) : skipBlanks (' ' :: t) = skipBlanks t := rfl

theorem exists_front_of_items {v : Value} (hv : Portable v) (vs : List Value) :
    ∃ c t, writeItems (v :: vs) = c :: t ∧ isFront c := by
  obtain ⟨c, t, hwrite, hc⟩ := hv.front
  cases vs with
  | nil => exact ⟨c, t, hwrite, hc⟩
  | cons w vs =>
    exact ⟨c, t ++ ',' :: ' ' :: writeItems (w :: vs), by rw [writeItems_cons_cons, hwrite]; rfl, hc⟩

theorem readItems_writeItems {v : Value} {vs : List Value} (hitems : ∀ w ∈ v :: vs, Portable w ∧ Reads w)
    {fuel : Nat} (hfuel : (writeItems (v :: vs)).length < fuel) (rest : Text) :
    readItems fuel (writeItems (v :: vs) ++ ']' :: rest) = .ok (v :: vs, rest) := by
  obtain ⟨fuel, rfl⟩ := Nat.exists_eq_add_of_lt (Nat.zero_lt_of_lt hfuel)
  rw [Nat.zero_add] at hfuel ⊢
  induction vs generalizing v fuel with
  | nil =>
    rw [writeItems_singleton] at hfuel ⊢
    have hstops : Stops (']' :: rest) := rfl
    rw [readItems, (hitems v (by simp)).2 fuel _ (by omega) hstops]
    simp only [Sequence.bind_ok, hstops.skipBlanks_eq]
    rfl
  | cons w vs ih =>
    obtain ⟨hv, hitems⟩ := List.forall_mem_cons.1 hitems
    obtain ⟨c, t, hfront, hc⟩ := exists_front_of_items (hitems w List.mem_cons_self).1 vs
    rw [writeItems_cons_cons] at hfuel ⊢
    simp only [List.length_append, List.length_cons] at hfuel
    cases fuel with
    | zero => omega
    | succ fuel =>
      have hrest := ih hitems fuel (by omega)
      have hstops : Stops (',' :: ' ' :: (writeItems (w :: vs) ++ ']' :: rest)) := rfl
      have hblank : skipBlanks (writeItems (w :: vs) ++ ']' :: rest) = writeItems (w :: vs) ++ ']' :: rest := by
        rw [hfront, List.cons_append, skipBlanks_of_isFront hc]
      rw [List.append_assoc, List.cons_append, List.cons_append, readItems,
        hv.2 (fuel + 1) _ (by omega) hstops]
      simp only [Sequence.bind_ok, hstops.skipBlanks_eq, skipBlanks_blank, hblank, hrest]
      rfl

theorem reads_list {items : List Value} (hitems : ∀ v ∈ items, Portable v ∧ Reads v) : Reads (.list items) := by
  intro fuel rest hfuel hrest
  rw [write_list] at hfuel ⊢
  simp only [List.length_append, List.length_cons] at hfuel
  cases fuel with
  | zero => omega
  | succ fuel =>
    cases items with
    | nil => rfl
    | cons v vs =>
      obtain ⟨c, t, hfront, hc⟩ := exists_front_of_items (hitems v List.mem_cons_self).1 vs
      have hread := readItems_writeItems hitems (by omega : _ < fuel) rest
      have hne : c ≠ ']' := by rintro rfl; cases hc
      rw [hfront, List.cons_append] at hread
      rw [List.cons_append, List.append_assoc, List.singleton_append, hfront, List.cons_append,
        readValue, skipBlanks_of_isFront hc]
      split
      case h_1 hclose => exact absurd (List.cons.inj hclose).1 hne
      case h_2 => rw [hread]; rfl

/-! ### Mappings -/

theorem put_of_notMem {fields : List (Key × Value)} {k : Key} (h : k ∉ fields.map (·.1)) (v : Value) :
    Fields.put fields k v = fields ++ [(k, v)] := by
  induction fields with
  | nil => rfl
  | cons f fields ih =>
    simp only [List.map_cons, List.mem_cons, not_or] at h
    rw [Fields.put, if_neg (Ne.symm h.1), ih h.2]
    rfl

theorem exists_quote_of_fields {f : Key × Value} (hf : ∃ s, f.1 = .text s) (fs : List (Key × Value)) :
    ∃ t, writeFields (f :: fs) = '"' :: t := by
  obtain ⟨k, v⟩ := f
  obtain ⟨s, rfl⟩ := hf
  cases fs with
  | nil => exact ⟨_, by rw [writeFields_singleton, writeText_eq]⟩
  | cons g fs => exact ⟨_, by rw [writeFields_cons_cons, writeText_eq]⟩

theorem key_notMem_of_nodup {f : Key × Value} {fs : List (Key × Value)}
    (h : ((done ++ f :: fs).map (·.1)).Nodup) : f.1 ∉ done.map (·.1) := by
  rw [List.map_append, List.nodup_append] at h
  exact fun hmem => h.2.2 _ hmem _ List.mem_cons_self rfl

/-- One field is read from before a comma or the closing bracket. -/
theorem readFields_field {name : Text} (hv : Portable v) (hread : Reads v) (hrest : Stops rest)
    (hfresh : Key.text name ∉ done.map (·.1)) (hfuel : (write v).length ≤ fuel) :
    readFields (fuel + 1) done (writeText name ++ ':' :: ' ' :: (write v ++ rest)) =
      match rest with
      | ',' :: rest => readFields fuel (done ++ [(.text name, v)]) (skipBlanks rest)
      | '\x7d' :: rest => .ok (done ++ [(.text name, v)], rest)
      | _ => .error .malformed := by
  obtain ⟨c, t, hwrite, hc⟩ := hv.front
  have hblank : skipBlanks (' ' :: (write v ++ rest)) = write v ++ rest := by
    rw [skipBlanks_blank, hwrite, List.cons_append, skipBlanks_of_isFront hc]
  have hcolon : skipBlanks (':' :: ' ' :: (write v ++ rest)) = ':' :: ' ' :: (write v ++ rest) := rfl
  rw [writeText_eq, readFields, readText_write]
  simp only [hcolon, hblank, hread fuel rest hfuel hrest, Sequence.bind_ok, hrest.skipBlanks_eq,
    put_of_notMem hfresh]
  rfl

theorem readFields_writeFields {f : Key × Value} {fs : List (Key × Value)} (done : List (Key × Value))
    (hkeys : ∀ g ∈ f :: fs, ∃ s, g.1 = .text s) (hdistinct : ((done ++ f :: fs).map (·.1)).Nodup)
    (hvalues : ∀ g ∈ f :: fs, Portable g.2 ∧ Reads g.2) (hfuel : (writeFields (f :: fs)).length ≤ fuel)
    (rest : Text) :
    readFields (fuel + 1) done (writeFields (f :: fs) ++ '\x7d' :: rest) = .ok (done ++ f :: fs, rest) := by
  induction fs generalizing f done fuel with
  | nil =>
    obtain ⟨k, v⟩ := f
    obtain ⟨name, rfl⟩ := hkeys _ List.mem_cons_self
    obtain ⟨hv, hread⟩ : Portable v ∧ Reads v := hvalues _ List.mem_cons_self
    have hfresh := key_notMem_of_nodup hdistinct
    rw [writeFields_singleton] at hfuel ⊢
    simp only [List.length_append, List.length_cons] at hfuel
    rw [List.append_assoc, List.cons_append, List.cons_append,
      readFields_field hv hread (show Stops ('\x7d' :: rest) from rfl) hfresh (by omega)]
    rfl
  | cons g fs ih =>
    obtain ⟨k, v⟩ := f
    obtain ⟨name, rfl⟩ := hkeys _ List.mem_cons_self
    obtain ⟨hv, hread⟩ : Portable v ∧ Reads v := hvalues _ List.mem_cons_self
    obtain ⟨u, hquote⟩ := exists_quote_of_fields (hkeys g (by simp)) fs
    have hfresh := key_notMem_of_nodup hdistinct
    have hblank : skipBlanks (' ' :: (writeFields (g :: fs) ++ '\x7d' :: rest)) =
        writeFields (g :: fs) ++ '\x7d' :: rest := by
      rw [skipBlanks_blank, hquote]
      rfl
    rw [writeFields_cons_cons] at hfuel ⊢
    simp only [List.length_append, List.length_cons] at hfuel
    cases fuel with
    | zero => omega
    | succ fuel =>
      have hdistinct' : ((done ++ [(Key.text name, v)] ++ g :: fs).map (·.1)).Nodup := by
        rwa [List.append_assoc, List.singleton_append]
      have hrest := ih (done ++ [(Key.text name, v)]) (fun x hx => hkeys x (List.mem_cons_of_mem _ hx)) hdistinct'
        (fun x hx => hvalues x (List.mem_cons_of_mem _ hx)) (by omega : _ ≤ fuel)
      rw [List.append_assoc, List.cons_append, List.cons_append, List.append_assoc, List.cons_append,
        List.cons_append, readFields_field hv hread (show Stops (',' :: _) from rfl) hfresh (by omega)]
      simp only [hblank, hrest, List.append_assoc, List.singleton_append]

theorem reads_mapping {fields : List (Key × Value)} (hkeys : ∀ f ∈ fields, ∃ s, f.1 = .text s)
    (hdistinct : (fields.map (·.1)).Nodup) (hvalues : ∀ f ∈ fields, Portable f.2 ∧ Reads f.2) :
    Reads (.mapping fields) := by
  intro fuel rest hfuel hrest
  rw [write_mapping] at hfuel ⊢
  simp only [List.length_append, List.length_cons] at hfuel
  cases fields with
  | nil =>
    cases fuel with
    | zero => omega
    | succ fuel => rfl
  | cons f fs =>
    obtain ⟨u, hquote⟩ := exists_quote_of_fields (hkeys f List.mem_cons_self) fs
    have hblank : skipBlanks ('"' :: u ++ '\x7d' :: rest) = '"' :: u ++ '\x7d' :: rest := rfl
    cases fuel with
    | zero => omega
    | succ fuel =>
      cases fuel with
      | zero => rw [hquote] at hfuel; simp at hfuel
      | succ fuel =>
        have hread := readFields_writeFields [] hkeys hdistinct hvalues
          (by omega : _ ≤ fuel) rest
        rw [hquote] at hread
        rw [List.cons_append, List.append_assoc, List.singleton_append, hquote, readValue, hblank]
        split
        case h_1 hclose => cases hclose
        case h_2 => rw [hread]; rfl

theorem Portable.reads (h : Portable v) : Reads v := by
  induction h with
  | null => exact reads_null
  | bool b => exact reads_bool b
  | int hz => exact reads_int hz
  | text s => exact reads_text s
  | list hitems ih => exact reads_list fun v hv => ⟨hitems v hv, ih v hv⟩
  | mapping hdistinct hkeys hvalues ih =>
    exact reads_mapping hkeys hdistinct fun f hf => ⟨hvalues f hf, ih f hf⟩

/-- What is written is read back. -/
theorem read_write (h : Portable v) : read (write v) = .ok v := by
  obtain ⟨c, t, hwrite, hc⟩ := h.front
  have hread := h.reads ((write v).length + 1) [] (by omega) rfl
  have hblank : skipBlanks (write v) = write v := by rw [hwrite, skipBlanks_of_isFront hc]
  rw [List.append_nil] at hread
  rw [read, hblank, hread]
  rfl

/-! ### One line -/

theorem all_isVisible_ofInt (z : Int) : (Text.ofInt z).all isVisible := by
  have hdigits : ∀ n, (Text.ofNat n).all isVisible := by
    intro n
    rw [List.all_eq_true]
    intro c hc
    have hfront := isFront_of_isDigit (Text.isDigit_of_mem_ofNat hc)
    simp only [isFront, Bool.and_eq_true] at hfront
    exact hfront.1.1.1
  cases z with
  | ofNat n => exact hdigits n
  | negSucc n => simpa [Text.ofInt, hdigits] using (by decide : isVisible '-')

theorem all_isVisible_writeItems {items : List Value} (h : ∀ v ∈ items, (write v).all isVisible) :
    (writeItems items).all isVisible := by
  have hcomma : isVisible ',' ∧ isVisible ' ' := by decide
  induction items with
  | nil => rfl
  | cons v vs ih =>
    obtain ⟨hv, hvs⟩ := List.forall_mem_cons.1 h
    cases vs with
    | nil => exact hv
    | cons w vs => simp [writeItems_cons_cons, hv, ih hvs, hcomma]

theorem all_isVisible_writeFields {fields : List (Key × Value)} (hkeys : ∀ f ∈ fields, ∃ s, f.1 = .text s)
    (h : ∀ f ∈ fields, (write f.2).all isVisible) : (writeFields fields).all isVisible := by
  have hmarks : isVisible ',' ∧ isVisible ' ' ∧ isVisible ':' := by decide
  induction fields with
  | nil => rfl
  | cons f fs ih =>
    obtain ⟨k, v⟩ := f
    obtain ⟨name, rfl⟩ := hkeys _ List.mem_cons_self
    obtain ⟨hv, hvs⟩ := List.forall_mem_cons.1 h
    cases fs with
    | nil => simp [writeFields_singleton, all_isVisible_writeText, hv, hmarks]
    | cons g fs =>
      have hrest := ih (fun x hx => hkeys x (List.mem_cons_of_mem _ hx)) hvs
      simp [writeFields_cons_cons, all_isVisible_writeText, hv, hmarks, hrest]

/-- A value is written on one line, in visible characters of ASCII. -/
theorem Portable.all_isVisible (h : Portable v) : (write v).all isVisible := by
  have hbrackets : isVisible '[' ∧ isVisible ']' ∧ isVisible '\x7b' ∧ isVisible '\x7d' := by decide
  induction h with
  | null => decide
  | bool b => cases b <;> decide
  | int _ => exact all_isVisible_ofInt _
  | text s => exact all_isVisible_writeText s
  | list _ ih => simp [write_list, all_isVisible_writeItems ih, hbrackets]
  | mapping _ hkeys _ ih => simp [write_mapping, all_isVisible_writeFields hkeys ih, hbrackets]

end Json

end DeckMerge
