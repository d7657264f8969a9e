/-!
Binary floating-point numbers of 64 bits, held exactly. A rational number is rounded to the nearest
one, a half going to the even neighbour.
-/

namespace DeckMerge

/-- A finite number is `m * 2 ^ e`, negated when the sign says so. -/
inductive Binary64
  | finite (negative : Bool) (m : Nat) (e : Int)
  | infinity (negative : Bool)
  | nan
deriving DecidableEq

namespace Binary64

-- The powers of the core library, whatever else is in scope.
attribute [local instance (high)] instPowNat

def roundDiv (p q : Nat) : Nat :=
  let d := p / q
  let r := p % q
  if 2 * r < q ∨ (2 * r = q ∧ d % 2 = 0) then d else d + 1

/-- Numerator and denominator of `p / q / 2 ^ e`. -/
def scale (p q : Nat) (e : Int) : Nat × Nat :=
  (p * 2 ^ (-e).toNat, q * 2 ^ e.toNat)

/-- The exponent at which the significand of `p / q` has 53 bits, or the least one there is. -/
def exponentOf (p q : Nat) : Int :=
  let e : Int := p.log2 - q.log2 - 52
  let (a, b) := scale p q e
  max (-1074) (if a / b < 2 ^ (52 : Nat) then e - 1 else e)

def ofRatio (negative : Bool) (p q : Nat) : Binary64 :=
  if p = 0 then .finite negative 0 0
  else
    let e := exponentOf p q
    let (a, b) := scale p q e
    let m := roundDiv a b
    let (m, e) := if m = 2 ^ (53 : Nat) then (2 ^ (52 : Nat), e + 1) else (m, e)
    if 971 < e then .infinity negative else if m = 0 then .finite negative 0 0 else .finite negative m e

def ofInt (n : Int) : Binary64 := ofRatio (n < 0) n.natAbs 1

/-- The number nearest to `digits * 10 ^ exponent`. -/
def ofDecimal (negative : Bool) (digits : Nat) (exponent : Int) : Binary64 :=
  let size : Int := (Nat.toDigits 10 digits).length + exponent
  if digits = 0 ∨ size < -330 then .finite negative 0 0
  else if 320 < size then .infinity negative
  else ofRatio negative (digits * 10 ^ exponent.toNat) (10 ^ (-exponent).toNat)

def ltInt : Binary64 → Int → Bool
  | .finite negative m e, n =>
    let a : Int := m * 2 ^ e.toNat
    (if negative then -a else a) < n * 2 ^ (-e).toNat
  | .infinity negative, _ => negative
  | .nan, _ => false

/-- Where a number stands among all numbers: which of the kinds it is, in their order, and its exact value if
it is finite. What is not a number comes before all others. -/
def rank : Binary64 → Int × Rat
  | .finite negative m e =>
    let a : Int := m * 2 ^ e.toNat
    (0, mkRat (if negative then -a else a) (2 ^ (-e).toNat))
  | .infinity negative => (if negative then -1 else 1, mkRat 0 1)
  | .nan => (-2, mkRat 0 1)

def isZero : Binary64 → Bool
  | .finite _ m _ => m == 0
  | _ => false

end Binary64

end DeckMerge
