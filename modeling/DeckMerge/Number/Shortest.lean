import DeckMerge.Text.Basic
import DeckMerge.Number.Binary64

/-!
The shortest decimal text that reads back as the same number: the fewest digits that lie in the
interval of reals rounding to it, and of those the nearest. Numbers from 1e-4 to below 1e16 are
written positionally, the others with an exponent.
-/

namespace DeckMerge.Binary64

-- The powers of the core library, whatever else is in scope.
attribute [local instance (high)] instPowNat

def leadingExponent (p q : Nat) : Int :=
  if q ≤ p then (Nat.toDigits 10 (p / q)).length - 1
  else -(Nat.toDigits 10 ((q - 1) / p)).length

/-- Whether `d * 10 ^ x` rounds to `m * 2 ^ e`. The gap below a power of two is half as wide. -/
def readsBack (m : Nat) (e : Int) (d : Nat) (x : Int) : Bool :=
  let unit := 2 ^ e.toNat * 10 ^ (-x).toNat
  let value := 4 * d * 10 ^ x.toNat * 2 ^ (-e).toNat
  let below := 4 * m - (if m = 2 ^ (52 : Nat) ∧ -1074 < e then 1 else 2)
  let above := 4 * m + 2
  if m % 2 = 0 then below * unit ≤ value && value ≤ above * unit
  else below * unit < value && value < above * unit

/-- The neighbour on the grid of `n` digits that reads back, the nearer one of two. -/
def onGrid? (m : Nat) (e : Int) (lead : Int) (n : Nat) : Option (Nat × Int) :=
  let x := lead - n + 1
  let p := m * 2 ^ e.toNat * 10 ^ (-x).toNat
  let q := 2 ^ (-e).toNat * 10 ^ x.toNat
  let low := p / q
  match readsBack m e low x, readsBack m e (low + 1) x with
  | true, true => some (roundDiv p q, x)
  | true, false => some (low, x)
  | false, true => some (low + 1, x)
  | false, false => none

def shortest (m : Nat) (e : Int) : Nat × Int :=
  let lead := leadingExponent (m * 2 ^ e.toNat) (2 ^ (-e).toNat)
  ((List.range 17).findSome? fun n => onGrid? m e lead (n + 1)).getD (m, e)

def dropTrailingZeros (s : Text) : Text :=
  match s.reverse.dropWhile (· == '0') with
  | [] => ['0']
  | t => t.reverse

/-- Digits laid out with the point after the first `point` of them. -/
def layOut (digits : Text) (point : Int) : Text :=
  if -4 < point ∧ point ≤ 16 then
    if point ≤ 0 then "0." ++ List.replicate (-point).toNat '0' ++ digits
    else if digits.length ≤ point.toNat then
      digits ++ List.replicate (point.toNat - digits.length) '0' ++ ".0"
    else digits.take point.toNat ++ "." ++ digits.drop point.toNat
  else
    let x := point - 1
    let size := Text.ofNat x.natAbs
    digits.take 1 ++ (if digits.length = 1 then [] else '.' :: digits.drop 1) ++
      (if x < 0 then "e-" else "e+") ++ (if size.length < 2 then '0' :: size else size)

def magnitudeText (m : Nat) (e : Int) : Text :=
  if m = 0 then "0.0"
  else
    let (d, x) := shortest m e
    let digits := Text.ofNat d
    layOut (dropTrailingZeros digits) (digits.length + x)

def toText : Binary64 → Text
  | .finite negative m e => if negative then '-' :: magnitudeText m e else magnitudeText m e
  | .infinity negative => if negative then "-inf" else "inf"
  | .nan => "nan"

end DeckMerge.Binary64
