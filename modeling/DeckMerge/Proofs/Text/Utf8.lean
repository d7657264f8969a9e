import DeckMerge.Text.Utf8
import Mathlib.Data.List.Basic

/-!
The octets of a text read back as the text.
-/

namespace DeckMerge.Text

theorem toNat_toUInt8 {n : Nat} (h : n < 256) : n.toUInt8.toNat = n := by
  simp [Nat.mod_eq_of_lt h]

theorem toUInt8_lt_iff {n k : Nat} (hn : n < 256) (hk : k < 256) : n.toUInt8 < k.toUInt8 ↔ n < k := by
  rw [UInt8.lt_iff_toNat_lt, toNat_toUInt8 hn, toNat_toUInt8 hk]

theorem tailBits?_toUInt8 {x : Nat} (h : x < 0x40) : tailBits? (0x80 + x).toUInt8 = some x := by
  have hx : (0x80 + x).toUInt8.toNat = 0x80 + x := toNat_toUInt8 (by omega)
  have hbounds : 0x80 ≤ (0x80 + x).toUInt8 ∧ (0x80 + x).toUInt8 ≤ 0xbf := by
    simp only [UInt8.le_iff_toNat_le, hx]
    constructor
    · exact Nat.le_add_right 0x80 x
    · change 0x80 + x ≤ 0xbf
      omega
  rw [tailBits?, if_pos hbounds, hx, Nat.add_sub_cancel_left]

-- The general law holds by computation, and the kernel would then compute with the bounds of code points.
theorem some_bind (n : Nat) (f : Nat → Option Text) : (some n >>= f) = f n := Option.bind_some n f

theorem ofUtf8?_one {x : Nat} (hx : x < 0x80) (bs : Bytes) :
    ofUtf8? (x.toUInt8 :: bs) = (ofUtf8? bs).map (Char.ofNat x :: ·) := by
  have hlt : x.toUInt8 < 0x80 := (toUInt8_lt_iff (by omega) (by decide)).2 hx
  rw [ofUtf8?.eq_def]
  simp only [if_pos hlt, toNat_toUInt8 (show x < 256 by omega)]

theorem ofUtf8?_two {x y : Nat} (hx : 2 ≤ x) (hx' : x < 0x20) (hy : y < 0x40) (bs : Bytes) :
    ofUtf8? ((0xc0 + x).toUInt8 :: (0x80 + y).toUInt8 :: bs) =
      (ofUtf8? bs).map (Char.ofNat (x * 0x40 + y) :: ·) := by
  have hlt : ∀ k, k < 256 → ((0xc0 + x).toUInt8 < k.toUInt8 ↔ 0xc0 + x < k) :=
    fun k hk => toUInt8_lt_iff (by omega) hk
  have h80 : ¬ (0xc0 + x).toUInt8 < 0x80 := mt (hlt 0x80 (by decide)).1 (by omega)
  have hc2 : ¬ (0xc0 + x).toUInt8 < 0xc2 := mt (hlt 0xc2 (by decide)).1 (by omega)
  have he0 : (0xc0 + x).toUInt8 < 0xe0 := (hlt 0xe0 (by decide)).2 (by omega)
  rw [ofUtf8?.eq_def]
  simp only [if_neg h80, if_neg hc2, if_pos he0, tailBits?_toUInt8 hy,
    toNat_toUInt8 (show 0xc0 + x < 256 by omega), Nat.add_sub_cancel_left]
  rfl

theorem ofUtf8?_three {x y z : Nat} (hx : x < 0x10) (hy : y < 0x40) (hz : z < 0x40)
    (hn : 0x800 ≤ x * 0x1000 + y * 0x40 + z)
    (hn' : ¬ (0xd800 ≤ x * 0x1000 + y * 0x40 + z ∧ x * 0x1000 + y * 0x40 + z < 0xe000)) (bs : Bytes) :
    ofUtf8? ((0xe0 + x).toUInt8 :: (0x80 + y).toUInt8 :: (0x80 + z).toUInt8 :: bs) =
      (ofUtf8? bs).map (Char.ofNat (x * 0x1000 + y * 0x40 + z) :: ·) := by
  have hlt : ∀ k, k < 256 → ((0xe0 + x).toUInt8 < k.toUInt8 ↔ 0xe0 + x < k) :=
    fun k hk => toUInt8_lt_iff (by omega) hk
  have h80 : ¬ (0xe0 + x).toUInt8 < 0x80 := mt (hlt 0x80 (by decide)).1 (by omega)
  have hc2 : ¬ (0xe0 + x).toUInt8 < 0xc2 := mt (hlt 0xc2 (by decide)).1 (by omega)
  have he0 : ¬ (0xe0 + x).toUInt8 < 0xe0 := mt (hlt 0xe0 (by decide)).1 (by omega)
  have hf0 : (0xe0 + x).toUInt8 < 0xf0 := (hlt 0xf0 (by decide)).2 (by omega)
  have hok : ¬ (x * 0x1000 + y * 0x40 + z < 0x800 ∨
      (0xd800 ≤ x * 0x1000 + y * 0x40 + z ∧ x * 0x1000 + y * 0x40 + z < 0xe000)) := by omega
  rw [ofUtf8?.eq_def]
  simp only [if_neg h80, if_neg hc2, if_neg he0, if_pos hf0, tailBits?_toUInt8 hy,
    tailBits?_toUInt8 hz, toNat_toUInt8 (show 0xe0 + x < 256 by omega), Nat.add_sub_cancel_left,
    some_bind, if_neg hok]

theorem ofUtf8?_four {x y z w : Nat} (hx : x < 8) (hy : y < 0x40) (hz : z < 0x40) (hw : w < 0x40)
    (hn : 0x10000 ≤ x * 0x40000 + y * 0x1000 + z * 0x40 + w)
    (hn' : x * 0x40000 + y * 0x1000 + z * 0x40 + w ≤ 0x10ffff) (bs : Bytes) :
    ofUtf8? ((0xf0 + x).toUInt8 :: (0x80 + y).toUInt8 :: (0x80 + z).toUInt8 ::
      (0x80 + w).toUInt8 :: bs) =
      (ofUtf8? bs).map (Char.ofNat (x * 0x40000 + y * 0x1000 + z * 0x40 + w) :: ·) := by
  have hlt : ∀ k, k < 256 → ((0xf0 + x).toUInt8 < k.toUInt8 ↔ 0xf0 + x < k) :=
    fun k hk => toUInt8_lt_iff (by omega) hk
  have h80 : ¬ (0xf0 + x).toUInt8 < 0x80 := mt (hlt 0x80 (by decide)).1 (by omega)
  have hc2 : ¬ (0xf0 + x).toUInt8 < 0xc2 := mt (hlt 0xc2 (by decide)).1 (by omega)
  have he0 : ¬ (0xf0 + x).toUInt8 < 0xe0 := mt (hlt 0xe0 (by decide)).1 (by omega)
  have hf0 : ¬ (0xf0 + x).toUInt8 < 0xf0 := mt (hlt 0xf0 (by decide)).1 (by omega)
  have hok : ¬ (x * 0x40000 + y * 0x1000 + z * 0x40 + w < 0x10000 ∨
      0x10ffff < x * 0x40000 + y * 0x1000 + z * 0x40 + w) := by omega
  rw [ofUtf8?.eq_def]
  simp only [if_neg h80, if_neg hc2, if_neg he0, if_neg hf0, tailBits?_toUInt8 hy,
    tailBits?_toUInt8 hz, tailBits?_toUInt8 hw, toNat_toUInt8 (show 0xf0 + x < 256 by omega),
    Nat.add_sub_cancel_left, some_bind, if_neg hok]

theorem ofUtf8?_utf8Char_append (c : Char) (bs : Bytes) :
    ofUtf8? (utf8Char c ++ bs) = (ofUtf8? bs).map (c :: ·) := by
  have hvalid : c.toNat < 0xd800 ∨ (0xdfff < c.toNat ∧ c.toNat < 0x110000) := c.valid
  have hc : Char.ofNat c.toNat = c := Char.ofNat_toNat c
  generalize hn : c.toNat = n at hvalid hc
  simp only [utf8Char, hn]
  split
  case isTrue h1 => rw [← hc]; exact ofUtf8?_one h1 bs
  case isFalse h1 =>
  split
  case isTrue h2 =>
    have hsum : n / 0x40 * 0x40 + n % 0x40 = n := by omega
    have h := ofUtf8?_two (x := n / 0x40) (y := n % 0x40) (by omega) (by omega) (by omega) bs
    rwa [hsum, hc] at h
  case isFalse h2 =>
  split
  case isTrue h3 =>
    have hsum : n / 0x1000 * 0x1000 + n / 0x40 % 0x40 * 0x40 + n % 0x40 = n := by omega
    have h := ofUtf8?_three (x := n / 0x1000) (y := n / 0x40 % 0x40) (z := n % 0x40) (by omega)
      (by omega) (by omega) (by omega) (by omega) bs
    rwa [hsum, hc] at h
  case isFalse h3 =>
    have hsum : n / 0x40000 * 0x40000 + n / 0x1000 % 0x40 * 0x1000 + n / 0x40 % 0x40 * 0x40
      + n % 0x40 = n := by omega
    have h := ofUtf8?_four (x := n / 0x40000) (y := n / 0x1000 % 0x40) (z := n / 0x40 % 0x40)
      (w := n % 0x40) (by omega) (by omega) (by omega) (by omega) (by omega) (by omega) bs
    rwa [hsum, hc] at h

theorem ofUtf8?_utf8 (s : Text) : ofUtf8? (utf8 s) = some s := by
  induction s with
  | nil => rfl
  | cons c s ih =>
    rw [utf8, List.flatMap_cons, ofUtf8?_utf8Char_append, ← utf8, ih]
    rfl

end DeckMerge.Text
