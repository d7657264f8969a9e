import DeckMerge.Json.Reader
import DeckMerge.Json.Writer
import Mathlib.Data.List.Basic

/-!
Quoted texts read back. Each character is written so that no character is left that ends the text or its
line; one past the basic plane is written as a pair of units, and no other units make a pair.
-/

namespace DeckMerge

namespace Text

theorem hexDigit?_digitChar {d : Nat} (hd : d < 16) : hexDigit? d.digitChar = some d := by
  revert d
  decide

theorem hex_succ {width : Nat} (hwidth : 0 < width) (n : Nat) :
    hex (width + 1) n = hex width (n / 16) ++ [(n % 16).digitChar] := by
  rw [hex, hex, Nat.toDigits_eq_if (by decide)]
  split
  case isTrue hn =>
    have hzero : Nat.toDigits 16 (n / 16) = ['0'] := by rw [Nat.div_eq_of_lt hn]; rfl
    obtain ⟨width, rfl⟩ := Nat.exists_eq_add_of_lt hwidth
    simp [hzero, Nat.mod_eq_of_lt hn, List.replicate_succ']
  case isFalse => simp

theorem hex_one {n : Nat} (hn : n < 16) : hex 1 n = [n.digitChar] := by
  simp [hex, Nat.toDigits_of_lt_base hn]

theorem hex_four {n : Nat} (hn : n < 0x10000) : hex 4 n =
    [(n / 16 / 16 / 16).digitChar, (n / 16 / 16 % 16).digitChar, (n / 16 % 16).digitChar,
      (n % 16).digitChar] := by
  rw [hex_succ (by decide), hex_succ (by decide), hex_succ (by decide), hex_one (by omega)]
  rfl

end Text

namespace Json

variable {c : Char} {s rest : Text} {n : Nat}

/-! ### Units -/

theorem toNat_bounds (c : Char) : c.toNat < 0xd800 ∨ 0xdfff < c.toNat ∧ c.toNat < 0x110000 := c.valid

/-- The code point of a character, or the pair of units that stands for it. -/
def units (c : Char) : List Nat :=
  if c.toNat < 0x10000 then [c.toNat]
  else [0xd800 + (c.toNat - 0x10000) / 0x400, 0xdc00 + (c.toNat - 0x10000) % 0x400]

theorem ofUnits_single (hn : n < 0xd800 ∨ 0xdfff < n) (ns : List Nat) :
    ofUnits (n :: ns) = Char.ofNat n :: ofUnits ns := by
  have hsingle : single n = Char.ofNat n := by
    rw [single, if_neg (by omega)]
  cases ns with
  | nil => simp [ofUnits, hsingle]
  | cons m ns =>
    have hpair : pair? n m = none := by
      rw [pair?, if_neg (by omega)]
    rw [ofUnits, hpair, hsingle]

theorem ofUnits_units (c : Char) (ns : List Nat) : ofUnits (units c ++ ns) = c :: ofUnits ns := by
  have hbounds := toNat_bounds c
  rw [units]
  split
  case isTrue hlt =>
    rw [List.cons_append, List.nil_append, ofUnits_single (by omega), Char.ofNat_toNat]
  case isFalse hle =>
    have hpair : pair? (0xd800 + (c.toNat - 0x10000) / 0x400) (0xdc00 + (c.toNat - 0x10000) % 0x400) =
        some c := by
      have hnumber : 0x10000 + (0xd800 + (c.toNat - 0x10000) / 0x400 - 0xd800) * 0x400 +
          (0xdc00 + (c.toNat - 0x10000) % 0x400 - 0xdc00) = c.toNat := by omega
      rw [pair?, if_pos (by omega), hnumber, Char.ofNat_toNat]
    simp [ofUnits, hpair]

theorem ofUnits_flatMap_units (s : Text) : ofUnits (s.flatMap units) = s := by
  induction s with
  | nil => rfl
  | cons c s ih => rw [List.flatMap_cons, ofUnits_units, ih]

/-! ### Characters -/

/-- The characters of ASCII that are no controls. -/
def isVisible (c : Char) : Bool := 0x20 ≤ c.toNat && c.toNat < 0x7f

theorem hex4?_digits (hn : n < 0x10000) : hex4? (n / 16 / 16 / 16).digitChar
    (n / 16 / 16 % 16).digitChar (n / 16 % 16).digitChar (n % 16).digitChar = some n := by
  have hsum : n / 16 / 16 / 16 * 0x1000 + n / 16 / 16 % 16 * 0x100 + n / 16 % 16 * 0x10 + n % 16 = n := by
    omega
  simp [hex4?, Text.hexDigit?_digitChar, Nat.mod_lt, show n / 16 / 16 / 16 < 16 by omega, hsum]

theorem readUnits_unit (hn : n < 0x10000) (s : Text) :
    readUnits (unit n ++ s) = (readUnits s).map fun (ns, rest) => (n :: ns, rest) := by
  have hmark : ("\\u" : Text) = ['\\', 'u'] := rfl
  rw [unit, hmark, Text.hex_four hn]
  simp only [List.cons_append, List.nil_append, readUnits, hex4?_digits hn]
  cases readUnits s <;> rfl

theorem readUnits_escape {x : Char} (hx : plainEscape? c = some x) (s : Text) :
    readUnits ('\\' :: c :: s) = (readUnits s).map fun (ns, rest) => (x.toNat :: ns, rest) := by
  have hu : c ≠ 'u' := by
    rintro rfl
    cases hx
  rw [readUnits.eq_4 c s fun _ _ _ _ _ hc => absurd hc hu, hx]
  cases readUnits s <;> rfl

theorem readUnits_plain (hquote : c ≠ '"') (hslash : c ≠ '\\') (hc : ¬ c.toNat < 0x20) (s : Text) :
    readUnits (c :: s) = (readUnits s).map fun (ns, rest) => (c.toNat :: ns, rest) := by
  rw [readUnits.eq_5 c s hquote (fun _ _ _ _ _ h => absurd h hslash) (fun _ _ h => absurd h hslash),
    if_neg hc]
  cases readUnits s <;> rfl

/-- How a character is written. -/
inductive Written (c : Char) : Text → Prop
  | escape {x : Char} : plainEscape? x = some c → c.toNat < 0x10000 → Written c ['\\', x]
  | plain : c ≠ '"' → c ≠ '\\' → isVisible c → Written c [c]
  | unit : c.toNat < 0x10000 → Written c (unit c.toNat)
  | pair : 0x10000 ≤ c.toNat → Written c
    (Json.unit (0xd800 + (c.toNat - 0x10000) / 0x400) ++ Json.unit (0xdc00 + (c.toNat - 0x10000) % 0x400))

theorem written_writeChar (c : Char) : Written c (writeChar c) := by
  rw [writeChar]
  split_ifs with h h h h h h h hvisible hlt
  · subst h; exact .escape (x := '"') rfl (by decide)
  · subst h; exact .escape (x := '\\') rfl (by decide)
  · subst h; exact .escape (x := 'n') rfl (by decide)
  · subst h; exact .escape (x := 'r') rfl (by decide)
  · subst h; exact .escape (x := 't') rfl (by decide)
  · subst h; exact .escape (x := 'b') rfl (by decide)
  · subst h; exact .escape (x := 'f') rfl (by decide)
  · exact .plain ‹_› ‹_› (by simpa [isVisible] using hvisible)
  · exact .unit hlt
  · exact .pair (Nat.le_of_not_lt hlt)

theorem readUnits_writeChar (c : Char) (s : Text) :
    readUnits (writeChar c ++ s) = (readUnits s).map fun (ns, rest) => (units c ++ ns, rest) := by
  have hbounds := toNat_bounds c
  have hwritten := written_writeChar c
  generalize writeChar c = w at hwritten
  cases hwritten with
  | escape hx hlt =>
    rw [units, if_pos hlt]
    exact readUnits_escape hx s
  | plain hquote hslash hvisible =>
    simp only [isVisible, Bool.and_eq_true, decide_eq_true_eq] at hvisible
    rw [units, if_pos (by omega)]
    exact readUnits_plain hquote hslash (by omega) s
  | unit hlt =>
    rw [units, if_pos hlt]
    exact readUnits_unit hlt s
  | pair hle =>
    rw [List.append_assoc, readUnits_unit (by omega), readUnits_unit (by omega), Option.map_map, units,
      if_neg (by omega)]
    rfl

theorem all_isVisible_unit (hn : n < 0x10000) : (unit n).all isVisible := by
  have hdigit : ∀ d < 16, isVisible d.digitChar := by decide
  rw [unit, Text.hex_four hn, List.all_append]
  simp only [List.all_cons, List.all_nil, hdigit (n / 16 / 16 / 16) (by omega),
    hdigit (n / 16 / 16 % 16) (by omega), hdigit (n / 16 % 16) (by omega), hdigit (n % 16) (by omega)]
  decide

theorem all_isVisible_writeChar (c : Char) : (writeChar c).all isVisible := by
  have hbounds := toNat_bounds c
  have hwritten := written_writeChar c
  generalize writeChar c = w at hwritten
  cases hwritten with
  | @escape x hx _ =>
    have hvisible : isVisible x := by
      have hsome : (plainEscape? x).isSome := by rw [hx]; rfl
      revert hsome
      fun_cases plainEscape? x with
      | case9 => exact nofun
      | _ => exact fun _ => rfl
    simpa [hvisible] using (by decide : isVisible '\\')
  | plain _ _ hvisible => simp [hvisible]
  | unit hlt => exact all_isVisible_unit hlt
  | pair hle =>
    rw [List.all_append, all_isVisible_unit (by omega), all_isVisible_unit (by omega)]
    rfl

theorem readUnits_flatMap_writeChar (s rest : Text) :
    readUnits (s.flatMap writeChar ++ '"' :: rest) = some (s.flatMap units, rest) := by
  induction s with
  | nil => rfl
  | cons c s ih =>
    rw [List.flatMap_cons, List.append_assoc, readUnits_writeChar, ih]
    rfl

theorem readText_write (s rest : Text) : readText (s.flatMap writeChar ++ '"' :: rest) = some (s, rest) := by
  rw [readText, readUnits_flatMap_writeChar]
  simp [ofUnits_flatMap_units]

theorem writeText_eq (s rest : Text) : writeText s ++ rest = '"' :: (s.flatMap writeChar ++ '"' :: rest) := by
  simp [writeText]

theorem all_isVisible_writeText (s : Text) : (writeText s).all isVisible := by
  have hquote : isVisible '"' := by decide
  simp [writeText, hquote, List.all_flatMap, all_isVisible_writeChar]

end Json

end DeckMerge
