import DeckMerge.Proofs.Markup.Line
import DeckMerge.Text.Digit
import Mathlib.Logic.Function.Basic

/-!
Numerals as they are written: in ASCII digits, and each number has one that reads back.
-/

namespace DeckMerge.Text

theorem isDigit_of_mem_ofNat {n : Nat} {c : Char} (h : c ∈ ofNat n) : c.isDigit :=
  Nat.isDigit_of_mem_toDigits (by decide) (by decide) h

theorem ofNat_ne_nil (n : Nat) : ofNat n ≠ [] := Nat.toDigits_ne_nil

theorem notMem_ofNat {c : Char} (hc : c.isDigit = false) (n : Nat) : c ∉ ofNat n := by
  intro h
  simp [isDigit_of_mem_ofNat h] at hc

theorem ofNat_injective : Function.Injective ofNat := by
  intro m n h
  have := congrArg (fun s => Nat.ofDigitChars 10 s 0) h
  simpa [ofNat] using this

theorem digit?_of_isDigit {c : Char} (h : c.isDigit) : digit? c = some (c.toNat - 48) := by
  have hc : 48 ≤ c.toNat ∧ c.toNat ≤ 57 := Char.isDigit_iff_toNat.1 h
  simp [digit?, zeros, hc.1, hc.2]

theorem ofDigits_ofNat (n : Nat) : ofDigits (ofNat n) = n := by
  have h : ∀ (s : Text) (m : Nat), (∀ c ∈ s, c.isDigit) →
      s.foldl (fun n c => 10 * n + (digit? c).getD 0) m = Nat.ofDigitChars 10 s m := by
    intro s
    induction s with
    | nil => simp
    | cons c s ih =>
      intro m hs
      rw [List.foldl_cons, Nat.ofDigitChars_cons, ih _ fun d hd => hs d (List.mem_cons_of_mem c hd),
        digit?_of_isDigit (hs c (by simp))]
      rfl
  rw [ofDigits, h _ _ fun _ hc => isDigit_of_mem_ofNat hc]
  exact Nat.ofDigitChars_ten_toDigits

theorem isDigit_of_mem_ofNat' {n : Nat} {c : Char} (h : c ∈ ofNat n) : isDigit c := by
  simp [isDigit, digit?_of_isDigit (isDigit_of_mem_ofNat h)]

theorem trim_of_ends {s : Text} (hstart : s.head?.any isBlank = false) (hend : s.getLast?.any isBlank = false) :
    trim s = s := by
  have hdrop : ∀ s : Text, s.head?.any isBlank = false → s.dropWhile isBlank = s := by
    intro s hs
    cases s with
    | nil => rfl
    | cons c s => exact List.dropWhile_cons_of_neg (by simpa using hs)
  rw [trim, trimStart, hdrop s hstart, trimEnd, hdrop _ (by rwa [List.head?_reverse]), List.reverse_reverse]

theorem trim_of_not_isBlank {s : Text} (h : ∀ c ∈ s, isBlank c = false) : trim s = s := by
  have hmem : ∀ o : Option Char, (∀ c, o = some c → c ∈ s) → o.any isBlank = false := by
    rintro (_ | c) ho
    · rfl
    · exact h c (ho c rfl)
  exact trim_of_ends (hmem _ fun c => List.mem_of_mem_head?) (hmem _ fun c => List.mem_of_getLast?)

theorem readNat?_ofNat (n : Nat) : readNat? (ofNat n) = some n := by
  have hsplit : splitAt '_' (ofNat n) = [ofNat n] := splitAt_of_notMem (notMem_ofNat (by decide) n)
  have hdigits : (ofNat n).all isDigit := List.all_eq_true.2 fun _ hc => isDigit_of_mem_ofNat' hc
  simp [readNat?, hsplit, hdigits, ofNat_ne_nil, ofDigits_ofNat]

theorem readInt?_ofNat (n : Nat) : readInt? (ofNat n) = some (n : Int) := by
  have hblank : ∀ c ∈ ofNat n, isBlank c = false := by
    intro c hc
    have hdigit := Char.isDigit_iff_toNat.1 (isDigit_of_mem_ofNat hc)
    have hbounds : 48 ≤ c.toNat ∧ c.toNat ≤ 57 := hdigit
    simp only [isBlank, Bool.or_eq_false_iff, Bool.and_eq_false_iff, beq_eq_false_iff_ne, decide_eq_false_iff_not]
    omega
  rw [readInt?, trim_of_not_isBlank hblank]
  split
  case h_1 t heq => exact absurd (heq ▸ List.mem_cons_self) (notMem_ofNat (c := '-') (by decide) n)
  case h_2 t heq => exact absurd (heq ▸ List.mem_cons_self) (notMem_ofNat (c := '+') (by decide) n)
  case h_3 => rw [readNat?_ofNat]; rfl

/-! ### Base 16 -/

theorem hexDigit?_toUpper_digitChar {d : Nat} (hd : d < 16) : hexDigit? d.digitChar.toUpper = some d := by
  revert d
  decide

/-- A number in capital digits of base 16. -/
def capitals (n : Nat) : Text := (hex 1 n).map Char.toUpper

theorem capitals_eq (n : Nat) : capitals n =
    (if n < 16 then [] else capitals (n / 16)) ++ [(n % 16).digitChar.toUpper] := by
  have hhex : ∀ m, hex 1 m = Nat.toDigits 16 m := by
    intro m
    have hlength : 1 ≤ (Nat.toDigits 16 m).length := List.length_pos_iff.2 Nat.toDigits_ne_nil
    rw [hex, Nat.sub_eq_zero_of_le hlength, List.replicate_zero, List.nil_append]
  rw [capitals, capitals, hhex, hhex, Nat.toDigits_eq_if (by decide)]
  split
  case isTrue hn => rw [Nat.mod_eq_of_lt hn]; rfl
  case isFalse => rw [List.map_append]; rfl

theorem hexDigits_capitals (n : Nat) : ((capitals n).all fun c => (hexDigit? c).isSome) ∧
    ((capitals n).filterMap hexDigit?).foldl (fun m d => 16 * m + d) 0 = n := by
  induction n using Nat.strongRecOn with
  | ind n ih =>
    have hdigit := hexDigit?_toUpper_digitChar (Nat.mod_lt n (show 0 < 16 by decide))
    rw [capitals_eq]
    split
    case isTrue hn =>
      rw [Nat.mod_eq_of_lt hn] at hdigit ⊢
      simp [hdigit]
    case isFalse hn =>
      obtain ⟨hall, hvalue⟩ := ih (n / 16) (by omega)
      rw [List.all_append, hall, List.filterMap_append, List.foldl_append, hvalue]
      simp [hdigit, Nat.div_add_mod]

end DeckMerge.Text
